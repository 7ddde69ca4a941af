import RecordStore.Proofs.Commits
import RecordStore.Proofs.GivenNumbers
import RecordStore.Proofs.PrimaryKeys
import RecordStore.Proofs.UnreadFields

/-!
# Objects that are put twice

Once an object is put, its primary key has what it gives out of the key, and its parent and its
properties are as they were. So the object is put under the same key again if its primary key leads
back to it. A primary key for names gives out null of a key with a number, and then the object is
stored anew each time it is put.
-/

set_option autoImplicit false

namespace RecordStore

open Attempt

theorem Key.id_under (parent : Option Key) (kind : Text) (id : Identity) :
    (under parent kind id).id = id := by
  cases parent <;> rfl

namespace Member

/-- Whether a primary key gives out nothing of a key but its name. -/
def givesName (m : Member) : Bool := !m.traits.isEncoded && m.traits.declared.isText

theorem givesKey_of_givesName {m : Member} (name : m.givesName = true) : m.givesKey = false := by
  simp only [givesName, Bool.and_eq_true, Bool.not_eq_true'] at name
  simp [givesKey, name]

/-- Whether a value is null or of the type that a primary key declares. -/
inductive Accepts (m : Member) : Value → Prop
  | null : Accepts m .null
  | token (t : Text) (encoded : m.traits.isEncoded = true) : Accepts m (.text t)
  | number (n : Int) (plain : m.traits.isEncoded = false)
      (declared : m.traits.declared = .integer) : Accepts m (.integer n)
  | flag (b : Bool) (plain : m.traits.isEncoded = false)
      (declared : m.traits.declared = .integer) : Accepts m (.flag b)
  | name (t : Text) (plain : m.traits.isEncoded = false) (declared : m.traits.declared = .text) :
      Accepts m (.text t)
  | key (k : Key) (plain : m.traits.isEncoded = false) (whole : m.givesKey = true) :
      Accepts m (.key k)

/-- Of the key with the next number, a primary key that gives out a part gives out null exactly if
it is for names. -/
theorem keyValue_nextKey {m : Member} (part : m.givesKey = false) (s : Store)
    (parent : Option Key) (kind : Text) :
    m.keyValue (s.nextKey parent kind) = .null ↔ m.givesName = true := by
  have plain : m.traits.isEncoded = false := (Bool.or_eq_false_iff.mp part).1
  have id := s.id_nextKey parent kind
  cases declared : m.traits.declared with
  | integer =>
    simp [keyValue, givesName, plain, declared, DeclaredType.isInteger, DeclaredType.isText,
      Key.numberOf, id, Value.ofOption, Value.ofIdentity]
  | text =>
    simp [keyValue, givesName, plain, declared, DeclaredType.isInteger, DeclaredType.isText,
      Key.nameOf, id, Value.ofOption]
  | _ => simp [givesKey, declared, DeclaredType.isInteger, DeclaredType.isText] at part

end Member

section Keys

variable {h : Heap} {registry : Registry} {mapping : ClassMapping} {v : Value} {m : Member}
    {k : Key}
  {parent : Option Key} {s t : Store}

theorem unkeyed_of_null (primary : mapping.primary? = some m)
    (null : h.valueUnder m.name v = .null) :
    ∀ p, mapping.primary? = some p → h.valueUnder p.name v = .null := by
  intro p hp
  obtain rfl := Option.some.inj (primary.symm.trans hp)
  exact null

theorem recordOf_parts {r : Record}
    (made : (recordOf h registry mapping v .fromStore).on s = (.ok r, t)) :
    ∃ parent, h.parentOf registry mapping v = .ok parent ∧
      h.propertiesOf mapping v = .ok r.properties ∧
      (recordKey h registry mapping v .fromStore).on s = (.ok r.key, t) := by
  obtain ⟨k, u, key, made⟩ := (on_bind_eq_ok_iff _ _ _ _ _).mp made
  obtain ⟨properties, u', taken, made⟩ := (on_bind_eq_ok_iff _ _ _ _ _).mp made
  cases made
  obtain ⟨stored, rfl⟩ := (on_ofExcept_eq_ok_iff _ _ _ _).mp taken
  obtain ⟨parent, u, found, -⟩ := (on_bind_eq_ok_iff _ _ _ _ _).mp key
  obtain ⟨below, -⟩ := (on_ofExcept_eq_ok_iff _ _ _ _).mp found
  exact ⟨parent, below, stored, key⟩

theorem recordKey_part (primary : mapping.primary? = some m)
    (accepted : m.Accepts (h.valueUnder m.name v)) (part : m.givesKey = false)
    (below : h.parentOf registry mapping v = .ok parent)
    (made : (recordKey h registry mapping v .fromStore).on s = (.ok k, t)) :
    k = .under parent mapping.kind k.id ∧ k.id ≠ .unset ∧
      (m.keyValue k = .null ↔ m.givesName = true ∧ h.valueUnder m.name v = .null) := by
  by_cases null : h.valueUnder m.name v = .null
  · rw [recordKey_unkeyed_on (unkeyed_of_null primary null) below] at made
    cases made
    rw [Store.id_nextKey, Member.keyValue_nextKey part]
    exact ⟨rfl, by simp, (and_iff_left null).symm⟩
  rw [recordKey, below, on_bind_of_ok (on_ofExcept (.ok parent) s), primary] at made
  simp only [Option.map_some, Option.getD_some] at made
  have given {id : Identity} {w : Value} (hw : w.identity? = some id) (known : w ≠ .null)
      (set : id ≠ .unset) (gives : ∀ k : Key, k.id = id → m.Identifies k w)
      (hk : Key.make h parent mapping.kind w = .ok k) :
      k = .under parent mapping.kind k.id ∧ k.id ≠ .unset ∧
        (m.keyValue k = .null ↔ m.givesName = true ∧ w = .null) := by
    obtain ⟨-, i, hi, rfl⟩ := (Key.make_eq_ok_iff _ _ _ _ _).mp hk
    obtain rfl : id = i := Option.some.inj (hw.symm.trans hi)
    have same := Key.id_under parent mapping.kind id
    rw [(gives _ same).keyValue_eq, same]
    exact ⟨rfl, set, fun null => absurd null known, fun null => absurd null.2 known⟩
  generalize h.valueUnder m.name v = w at *
  cases accepted with
  | null => exact absurd rfl null
  | token t encoded =>
    rw [Member.givesKey, encoded] at part
    cases part
  | number n plain declared =>
    exact given rfl (by simp) (by simp) (fun k id => .number n plain declared id)
      ((on_ofExcept_eq_ok_iff _ _ _ _).mp made).1
  | flag b plain declared =>
    exact given rfl (by simp) (by simp) (fun k id => .flag b plain declared id)
      ((on_ofExcept_eq_ok_iff _ _ _ _).mp made).1
  | name t plain declared =>
    rw [plain] at made
    exact given rfl (by simp) (by simp) (fun k id => .name t plain declared id)
      ((on_ofExcept_eq_ok_iff _ _ _ _).mp made).1
  | key k plain whole =>
    rw [whole] at part
    cases part

theorem recordKey_of_identifies (primary : mapping.primary? = some m)
    (identified : m.Identifies k (h.valueUnder m.name v)) (named : mapping.kind.isEmpty = false)
    (part : m.givesKey = false → k = .under parent mapping.kind k.id)
    (below : h.parentOf registry mapping v = .ok parent) (numbering : Numbering) (s : Store) :
    (recordKey h registry mapping v numbering).on s = (.ok k, s) := by
  rw [recordKey, below, on_bind_of_ok (on_ofExcept (.ok parent) s), primary]
  simp only [Option.map_some, Option.getD_some]
  generalize h.valueUnder m.name v = w at identified
  cases identified with
  | token encoded read =>
    simp only [encoded]
    rw [on_ofExcept, read]
  | number _ plain declared id | flag _ plain declared id | name _ plain declared id =>
    have rooted := part (by
      simp [Member.givesKey, plain, declared, DeclaredType.isInteger, DeclaredType.isText])
    rw [plain]
    dsimp only
    rw [on_ofExcept,
      (Key.make_eq_ok_iff _ _ _ _ _).mpr ⟨named, k.id, by rw [id]; rfl, rooted.symm⟩]
  | key plain whole => rfl

end Keys

theorem Store.put_on_eq {r : Record} {s t : Store} {k : Key}
    (h : (Store.put r none).on s = (.ok k, t)) :
    k.id ≠ .unset ∧ ∃ u : Store, t = u.write ⟨k, r.properties⟩ ∧
      (r.key.id ≠ .unset → k = r.key ∧ u = s) := by
  by_cases unset : r.key.id = .unset
  · rw [put_unset_on unset] at h
    cases h
    exact ⟨by rw [id_nextKey]; nofun, _, rfl, fun set => absurd unset set⟩
  · rw [put_none_on unset] at h
    cases h
    exact ⟨unset, s, rfl, fun _ => ⟨rfl, rfl⟩⟩

namespace Database

/-- An object of a class with a kind and with members that have names of their own. Its primary key
has null or a value of its declared type, and is no more than the primary key: neither the parent
nor a relation, and not named as the field that leads up from a key. The object itself is neither
among what lies above it nor embedded in it. -/
structure KeepsApart (d : Database) (i : ObjectId) (mapping : ClassMapping) (m : Member) :
    Prop where
  within : i < d.heap.size
  plain : (d.heap.object i).isKey = false
  mapped : d.mappingOfValue (.object i) = .ok mapping
  named : mapping.kind.isEmpty = false
  distinct : (mapping.members.map Member.name).Nodup
  primary : mapping.primary? = some m
  accepted : m.Accepts (d.heap.valueUnder m.name (.object i))
  no_parent : m.traits.isParent = false
  not_named : m.name ≠ "parent"
  unrelated : m.traits.related = none
  not_above : ¬ d.heap.LiesAbove d.registry (.object i) mapping (.object i)
  not_within : ∀ p ∈ mapping.stored,
    ¬ d.heap.LiesWithin (.object i) (d.heap.valueUnder p.name (.object i)) p

variable {d after : Database} {i : ObjectId} {mapping : ClassMapping} {m : Member} {k : Key}

namespace KeepsApart

variable (h : d.KeepsApart i mapping m)
include h

theorem valueUnder_set (x : Value) {p : Member} (hp : p ∈ mapping.members) (other : p ≠ m) :
    (d.heap.set i m.name x).valueUnder p.name (.object i) =
      d.heap.valueUnder p.name (.object i) := by
  have name : p.name ≠ m.name := fun same => other
    (List.inj_on_of_nodup_map h.distinct hp (List.mem_of_find?_eq_some h.primary) same)
  have shape : (d.heap.object i).shape ≠ .ofKey := by simpa [Object.isKey] using h.plain
  rw [Heap.valueUnder_object fun key => absurd key shape, Heap.valueUnder_object,
    Heap.get?_set_of_ne x h.within i name]
  rw [Heap.shape_set h.within]
  exact fun key => absurd key shape

theorem parentOf_set (x : Value) {o : Option Key}
    (below : d.heap.parentOf d.registry mapping (.object i) = .ok o) :
    (d.heap.set i m.name x).parentOf d.registry mapping (.object i) = .ok o := by
  rw [Heap.parentOf, Heap.maxDepth, Heap.size_set]
  refine Heap.parentWith_of_agree (fun p hp role => h.valueUnder_set x hp ?_)
    (fun p hp className above related provides required y hy =>
      Heap.keyAt_set x h.within h.not_named ?_ ?_ hy) below
  · rintro rfl
    rcases role with parent | related
    · exact absurd (parent.symm.trans h.no_parent) (by decide)
    · rw [h.unrelated] at related
      cases related
  · exact fun found => h.not_above (.next hp related provides found)
  · exact fun rest => h.not_above (.further hp related provides required rest)

theorem propertiesOf_set (x : Value) :
    (d.heap.set i m.name x).propertiesOf mapping (.object i) =
      d.heap.propertiesOf mapping (.object i) := by
  have parts : (d.heap.set i m.name x).allParts (.object i) mapping.stored =
      d.heap.allParts (.object i) mapping.stored := by
    refine Heap.allParts_set x h.within h.not_named (fun p hp => ?_) h.not_within
    obtain ⟨hp, stored⟩ := List.mem_filter.mp hp
    refine h.valueUnder_set x hp ?_
    rintro rfl
    have isPrimary : p.traits.isPrimary = true := by simpa using List.find?_some h.primary
    simp [Heap.isStored, isPrimary] at stored
  rw [Heap.propertiesOf, Heap.propertiesOf, ← ClassMapping.stored, parts]

theorem put_spec (idle : d.store.current = none) (hput : (put (.object i)).on d = (.ok k, after)) :
    ∃ parent own properties s u,
      d.heap.parentOf d.registry mapping (.object i) = .ok parent ∧
      (recordKey d.heap d.registry mapping (.object i) .fromStore).on d.store = (.ok own, s) ∧
      (own.id ≠ .unset → k = own ∧ u = s) ∧ k.id ≠ .unset ∧
      after.store = u.write ⟨k, properties⟩ ∧ after.HasPut d i k ∧
      after.heap = d.heap.set i m.name (m.keyValue k) ∧
      after.heap.parentOf after.registry mapping (.object i) = .ok parent ∧
      after.heap.propertiesOf mapping (.object i) = .ok properties := by
  obtain ⟨found, r, s, t, required, made, written, done, assigned, left⟩ :=
    Database.put_spec idle hput
  obtain rfl : mapping = found := Except.ok.inj (h.mapped.symm.trans required)
  replace assigned := assigned m h.primary
  obtain ⟨parent, below, stored, key⟩ := recordOf_parts made
  obtain ⟨set, u, last, same⟩ := Store.put_on_eq written
  refine ⟨parent, r.key, r.properties, s, u, below, key, same, set, left.trans last, done, assigned,
    ?_, ?_⟩
  · rw [assigned, done.registry]
    exact h.parentOf_set _ below
  · rw [assigned]
    exact (h.propertiesOf_set _).trans stored

theorem put_again_on {x : Value} {r : Record} {s : Store} (registry : after.registry = d.registry)
    (assigned : after.heap = d.heap.set i m.name x)
    (made : (recordOf after.heap after.registry mapping (.object i) .fromStore).on after.store =
      (.ok r, s))
    (numbered : r.key.id ≠ .unset) (idle : s.current = none) :
    ∃ again, (put (.object i)).on after = (r.key.pathText.map fun _ => r.key, again) ∧
      again.store = s.write r := by
  have mapped : after.mappingOfValue (.object i) = .ok mapping := by
    rw [mappingOfValue, registry, assigned, Heap.classOf_set h.within]
    exact h.mapped
  have plain : (after.heap.object i).isKey = false := by
    rw [assigned, Object.isKey, Heap.shape_set h.within]
    exact h.plain
  have written := Store.put_none_on numbered s
  rw [← idle] at written
  exact put_on_of_written mapped plain made written

/-- What the primary key gives out identifies the key, unless it is for names and had none. -/
theorem identifies_keyValue {parent : Option Key} {own : Key} {s t u : Store}
    (below : d.heap.parentOf d.registry mapping (.object i) = .ok parent)
    (key : (recordKey d.heap d.registry mapping (.object i) .fromStore).on s = (.ok own, t))
    (same : own.id ≠ .unset → k = own ∧ u = t) (carried : m.traits.isEncoded = true → k.IsPlain)
    (kept : ¬ (m.givesName = true ∧ d.heap.valueUnder m.name (.object i) = .null)) :
    m.Identifies k (m.keyValue k) ∧ (m.givesKey = false → k = .under parent mapping.kind k.id) := by
  have partly (part : m.givesKey = false) :
      k = .under parent mapping.kind k.id ∧ m.keyValue k ≠ .null := by
    obtain ⟨rooted, set, null⟩ := recordKey_part h.primary h.accepted part below key
    obtain ⟨rfl, -⟩ := same set
    exact ⟨rooted, mt null.mp kept⟩
  refine ⟨?_, fun part => (partly part).1⟩
  by_cases encoded : m.traits.isEncoded = true
  · have identifies := Member.Identifies.token encoded (Key.ofToken_token (carried encoded))
    rwa [identifies.keyValue_eq]
  · have plain := Bool.eq_false_iff.mpr encoded
    by_cases whole : m.givesKey = true
    · have identifies := Member.Identifies.key (k := k) plain whole
      rwa [identifies.keyValue_eq]
    · exact Member.identifies_keyValue plain (partly (Bool.eq_false_iff.mpr whole)).2

theorem put_again_same (idle : d.store.current = none)
    (hput : (put (.object i)).on d = (.ok k, after))
    (carried : m.traits.isEncoded = true → k.IsPlain)
    (kept : ¬ (m.givesName = true ∧ d.heap.valueUnder m.name (.object i) = .null)) :
    ∃ again, (put (.object i)).on after = (.ok k, again) ∧
      again.store.records = after.store.records := by
  have given := valueUnder_of_put h.within h.plain idle h.mapped h.primary hput
  obtain ⟨parent, own, properties, s, u, below, key, same, set, left, done, assigned, still,
      stored⟩ :=
    h.put_spec idle hput
  obtain ⟨identified, part⟩ := h.identifies_keyValue below key same carried kept
  rw [← given] at identified
  have key := recordKey_of_identifies h.primary identified h.named part still .fromStore after.store
  have made : (recordOf after.heap after.registry mapping (.object i) .fromStore).on after.store =
      (.ok ⟨k, properties⟩, after.store) := by
    rw [recordOf, on_bind_of_ok key, stored]
    rfl
  obtain ⟨again, put_on, last⟩ :=
    h.put_again_on done.registry assigned made set (done.current.trans idle)
  refine ⟨again, put_on.trans (by rw [Key.map_pathText done.short]), ?_⟩
  rw [last, left]
  exact Store.insert_insert_of_same (Key.same_self k) _

theorem put_again_next (idle : d.store.current = none)
    (hput : (put (.object i)).on d = (.ok k, after)) (name : m.givesName = true)
    (null : d.heap.valueUnder m.name (.object i) = .null) :
    ∃ parent n properties k' again, k = .under parent mapping.kind (.number n) ∧
      k' = .under parent mapping.kind (.number (n + 1)) ∧
      (put (.object i)).on after = (k'.pathText.map fun _ => k', again) ∧ k.same k' = false ∧
      ⟨k, properties⟩ ∈ again.store.records ∧ ⟨k', properties⟩ ∈ again.store.records := by
  have given := valueUnder_of_put h.within h.plain idle h.mapped h.primary hput
  obtain ⟨parent, own, properties, s, u, below, key, same, -, left, done, assigned, still,
      stored⟩ :=
    h.put_spec idle hput
  rw [recordKey_unkeyed_on (unkeyed_of_null h.primary null) below] at key
  cases key
  obtain ⟨rfl, rfl⟩ := same (by rw [Store.id_nextKey]; nofun)
  rw [(Member.keyValue_nextKey (Member.givesKey_of_givesName name) _ _ _).mpr name] at given
  have made := recordOf_unkeyed_on (unkeyed_of_null h.primary given) still stored after.store
  obtain ⟨again, put_on, last⟩ := h.put_again_on done.registry assigned made
    (by rw [Store.id_nextKey]; nofun) (done.current.trans idle)
  have gave : after.store.Gave (d.store.nextKey parent mapping.kind) := by
    rw [left]
    exact d.store.gave_nextKey parent mapping.kind
  have other := gave.not_same_nextKey parent mapping.kind
  have second : after.store.nextKey parent mapping.kind =
      .under parent mapping.kind (.number ((d.store.lastNumber mapping.kind + 1 : Nat) + 1)) := by
    have counted : after.store.lastNumber mapping.kind = d.store.lastNumber mapping.kind + 1 := by
      rw [left]
      exact (d.store.lastNumber_numbered mapping.kind mapping.kind).trans (if_pos rfl)
    rw [Store.nextKey, counted]
    rfl
  refine ⟨parent, _, properties, _, again, rfl, second, put_on, other, ?_, ?_⟩
  · rw [last]
    refine Store.mem_insert_of_not_same ?_ other
    show _ ∈ after.store.records
    rw [left]
    exact Store.mem_insert_self _ _
  · rw [last]
    exact Store.mem_insert_self _ _

end KeepsApart

/-- An object that is put twice is put under the same key the second time, and the records stay as
they are, wherever the primary key was set before or is for more than names. A primary key for names
stays null: then the object has a second record under the next number, which is given back if the
log can show it. -/
theorem put_again (idle : d.store.current = none) (h : d.KeepsApart i mapping m)
    (hput : (put (.object i)).on d = (.ok k, after))
    (carried : m.traits.isEncoded = true → k.IsPlain) :
    ∃ k' again, (put (.object i)).on after = (k'.pathText.map fun _ => k', again) ∧
      (¬ (m.givesName = true ∧ d.heap.valueUnder m.name (.object i) = .null) →
        k' = k ∧ (put (.object i)).on after = (.ok k, again) ∧
          again.store.records = after.store.records) ∧
      (m.givesName = true → d.heap.valueUnder m.name (.object i) = .null →
        ∃ parent n properties, k = .under parent mapping.kind (.number n) ∧
          k' = .under parent mapping.kind (.number (n + 1)) ∧ k.same k' = false ∧
          ⟨k, properties⟩ ∈ again.store.records ∧ ⟨k', properties⟩ ∈ again.store.records) := by
  by_cases lost : m.givesName = true ∧ d.heap.valueUnder m.name (.object i) = .null
  · obtain ⟨parent, n, properties, k', again, key, next, put_on, other, first, second⟩ :=
      h.put_again_next idle hput lost.1 lost.2
    exact ⟨k', again, put_on, fun kept => absurd lost kept,
      fun _ _ => ⟨parent, n, properties, key, next, other, first, second⟩⟩
  · obtain ⟨again, put_on, same⟩ := h.put_again_same idle hput carried lost
    have short : k.IsShort := by
      obtain ⟨-, -, -, -, -, -, -, -, -, -, done, -⟩ := h.put_spec idle hput
      exact done.short
    exact ⟨k, again, put_on.trans (by rw [Key.map_pathText short]), fun _ => ⟨rfl, put_on, same⟩,
      fun name null => absurd ⟨name, null⟩ lost⟩

theorem library_keepsApart : library.KeepsApart 1
    ⟨.record "Chapter", chapterShape, "Chapter", chapterMembers⟩
    (.plain ⟨"key", .key, true, false, none, none, false, false⟩) where
  within := by decide
  plain := rfl
  mapped := rfl
  named := rfl
  distinct := by decide
  primary := rfl
  accepted := .null
  no_parent := rfl
  not_named := by decide
  unrelated := rfl
  not_above := by
    have refers : ∀ p ∈ chapterMembers, p.traits.related ≠ none → p = bookMember :=
      List.forall_mem_cons.mpr
        ⟨fun related => absurd rfl related, List.forall_mem_singleton.mpr fun _ => rfl⟩
    rintro (⟨member, related, -, found⟩ | ⟨member, related, -, required, rest⟩)
    · obtain rfl := refers _ member (by rw [related]; nofun)
      cases found
    · obtain rfl := refers _ member (by rw [related]; nofun)
      cases related
      cases required
      exact Heap.not_liesAbove_of_unrelated (by decide) rest
  not_within p hp := by
    have plain : ∀ p ∈ chapterMembers, p.isEmbedded = false := by decide
    exact Heap.not_liesWithin_of_plain (plain p (List.mem_filter.mp hp).1)

def nameless : Database :=
  List.foldl DatabaseAction.step (start .default)
    [.register (.record "Person") ⟨"Person", [("id", false), ("nickname", false)]⟩
        [.plain ⟨"id", .text, true, false, none, none, false, false⟩,
          .plain ⟨"nickname", .text, false, false, none, none, false, false⟩] none,
      .arrange ⟨⟨[⟨⟨"Person", [("id", false), ("nickname", false)]⟩,
        [("id", .null), ("nickname", .text "Al")]⟩]⟩, .empty⟩]

/-- The chapter is stored once and the person twice. -/
theorem put_again_nameless :
    (∃ k after again, (put (.object 1)).on library = (.ok k, after) ∧
      (put (.object 1)).on after = (.ok k, again) ∧ again.store.records = after.store.records) ∧
    ∃ after again properties,
      (put (.object 0)).on nameless = (.ok (.root "Person" (.number 1)), after) ∧
      (put (.object 0)).on after = (.ok (.root "Person" (.number 2)), again) ∧
      ⟨.root "Person" (.number 1), properties⟩ ∈ again.store.records ∧
      ⟨.root "Person" (.number 2), properties⟩ ∈ again.store.records := by
  constructor
  · obtain ⟨k, after, hput⟩ : ∃ k after, (put (.object 1)).on library = (.ok k, after) :=
      ⟨_, _, rfl⟩
    obtain ⟨k', again, -, same, -⟩ := put_again rfl library_keepsApart hput nofun
    obtain ⟨rfl, put_on, records⟩ := same fun lost => nomatch lost.1
    exact ⟨_, after, again, hput, put_on, records⟩
  · obtain ⟨after, hput⟩ : ∃ after, (put (.object 0)).on nameless =
        (.ok (.root "Person" (.number 1)), after) := ⟨_, rfl⟩
    have apart : nameless.KeepsApart 0 _ _ :=
      { within := by decide, plain := rfl, mapped := rfl, named := rfl, distinct := by decide
        primary := rfl, accepted := .null, no_parent := rfl, not_named := by decide
        unrelated := rfl, not_above := Heap.not_liesAbove_of_unrelated (by decide)
        not_within := fun p hp => by
          rcases List.mem_cons.mp hp with rfl | hp
          · exact Heap.not_liesWithin_of_plain rfl
          · cases hp }
    obtain ⟨k', again, put_on, -, other⟩ := put_again rfl apart hput nofun
    obtain ⟨parent, n, properties, own, rfl, -, first, second⟩ := other rfl rfl
    cases parent with
    | some p => cases own
    | none =>
      cases own
      exact ⟨after, again, properties, hput, put_on, first, second⟩

end Database
end RecordStore
