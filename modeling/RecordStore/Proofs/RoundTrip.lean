import RecordStore.Proofs.EmbeddedParts
import RecordStore.Proofs.KeyTokens

/-!
# Objects that are stored and loaded

An object of a class without relations is stored under the key that its members give. Loaded afresh,
the record is equal to the object, member by member, exactly where each embedded object has a part
of its own that is not null.
-/

set_option autoImplicit false

namespace RecordStore

open Attempt

namespace Member

/-- Whether a primary key gives out the whole key, and not only what tells apart keys of one kind
below one parent. -/
def givesKey (m : Member) : Bool :=
  m.traits.isEncoded || !(m.traits.declared.isInteger || m.traits.declared.isText)

/-- Whether a value is the form that a primary key of its declared type has for a key. -/
inductive Identifies (m : Member) (k : Key) : Value → Prop
  | token (encoded : m.traits.isEncoded = true) (read : Key.ofToken k.token = .ok k) :
      Identifies m k (.text k.token)
  | number (n : Int) (plain : m.traits.isEncoded = false)
      (declared : m.traits.declared = .integer) (id : k.id = .number n) :
      Identifies m k (.integer n)
  | flag (b : Bool) (plain : m.traits.isEncoded = false)
      (declared : m.traits.declared = .integer) (id : k.id = .flag b) : Identifies m k (.flag b)
  | name (t : Text) (plain : m.traits.isEncoded = false) (declared : m.traits.declared = .text)
      (id : k.id = .name t) : Identifies m k (.text t)
  | key (plain : m.traits.isEncoded = false) (whole : m.givesKey = true) : Identifies m k (.key k)

/-- Whether a value is the form that a parent member has for a parent. -/
inductive GivesParent (m : Member) : Option Key → Value → Prop
  | none : GivesParent m none .null
  | token (p : Key) (encoded : m.encodesParent = true)
      (read : Key.ofToken p.token = .ok p) : GivesParent m (some p) (.text p.token)
  | key (p : Key) (plain : m.encodesParent = false) :
      GivesParent m (some p) (.key p)

variable {m : Member} {k : Key} {x : Value}

theorem Identifies.keyValue_eq (hi : m.Identifies k x) : m.keyValue k = x := by
  cases hi with
  | token encoded => simp [keyValue, encoded]
  | number _ plain declared id | flag _ plain declared id | name _ plain declared id =>
    simp [keyValue, plain, declared, DeclaredType.isInteger, DeclaredType.isText, Key.numberOf,
      Key.nameOf, id, Value.ofOption, Value.ofIdentity]
  | key plain whole =>
    have undeclared : m.traits.declared.isInteger = false ∧ m.traits.declared.isText = false := by
      simpa [givesKey, plain] using whole
    simp [keyValue, plain, undeclared]

theorem GivesParent.parentValue_eq (hp : m.GivesParent k.parent? x) : m.parentValue k = x := by
  rw [parentValue]
  generalize k.parent? = parent at hp
  cases hp with
  | none => rfl
  | token p encoded => exact if_pos encoded
  | key p plain => simp [plain]

theorem Identifies.giveKey_eq (hi : m.Identifies k x) : m.giveKey k = .ok x := by
  have value := hi.keyValue_eq
  rw [giveKey, value]
  split
  · rename_i encoded
    cases hi with
    | token _ read =>
      rw [Key.encode_of_isShort (Key.isPlain_of_ofToken read).isShort]
      rfl
    | number _ plain | flag _ plain | name _ plain | key plain => cases encoded.symm.trans plain
  · rfl

theorem GivesParent.giveParent_eq (hp : m.GivesParent k.parent? x) : m.giveParent k = .ok x := by
  have value := hp.parentValue_eq
  rw [giveParent, value]
  split
  · rename_i encoded
    generalize k.parent? = parent at hp
    cases hp with
    | none => rfl
    | token p _ read =>
      show discard p.encode >>= _ = _
      rw [Key.encode_of_isShort (Key.isPlain_of_ofToken read).isShort]
      rfl
    | key p plain => cases encoded.symm.trans plain
  · rfl

theorem GivesParent.parentIn?_eq {parent : Option Key} (hp : m.GivesParent parent x) :
    Heap.parentIn? x = parent.map .ok := by
  cases hp with
  | none => rfl
  | token p encoded read => exact congrArg some read
  | key p plain => rfl

end Member

namespace Key

theorem under_self (k : Key) : Key.under k.parent? k.kind k.id = k := by
  cases k <;> rfl

end Key

namespace ClassMapping

/-- The members whose values are properties. -/
def stored (mapping : ClassMapping) : List Member := mapping.members.filter Heap.isStored

end ClassMapping

namespace Heap

/-- Whether an object of a class gives a key and holds what its members declare. A number or a name
alone gives the key of a root, unless there is a parent member. -/
structure Gives (h : Heap) (mapping : ClassMapping) (v : Value) (k : Key) : Prop where
  belongs : h.IsInstance mapping.shape v
  kind : k.kind = mapping.kind
  primary : ∀ m, mapping.primary? = some m → m.Identifies k (h.valueUnder m.name v)
  parent : ∀ m ∈ mapping.members, m.traits.isParent = true →
    m.GivesParent k.parent? (h.valueUnder m.name v)
  root : mapping.parent? = none → ∀ m, mapping.primary? = some m → m.givesKey = false →
    k.parent? = none
  carries : ∀ m ∈ mapping.stored, h.Carries (h.valueUnder m.name v) m

/-- Whether two heaps have equal objects of a class, member by member. -/
structure SameObject (h g : Heap) (mapping : ClassMapping) (v y : Value) : Prop where
  alike : g.classOf y = h.classOf v
  keyParts : ∀ m ∈ mapping.members, isStored m = false →
    g.valueUnder m.name y = h.valueUnder m.name v
  stored : ∀ m ∈ mapping.stored, h.Same g (h.valueUnder m.name v) (g.valueUnder m.name y) m

variable {h : Heap} {registry : Registry} {mapping : ClassMapping} {v : Value} {k : Key}

theorem parentValues_of_unrelated {ms : List Member} (unrelated : ∀ m ∈ ms, m.traits.related = none)
    (keyOf : ClassMapping → Value → Except Fault Value) (v : Value) :
    h.parentValues registry keyOf v ms = .ok [] := by
  induction ms with
  | nil => rfl
  | cons m rest ih =>
    rw [parentValues, unrelated m (.head _)]
    exact ih fun p hp => unrelated p (.tail _ hp)

theorem Gives.parentOf_eq (hv : h.Gives mapping v k)
    (unrelated : ∀ m ∈ mapping.members, m.traits.related = none) :
    h.parentOf registry mapping v = .ok (mapping.parent?.bind fun _ => k.parent?) := by
  rw [parentOf, parentWith, parentValues_of_unrelated unrelated]
  cases found : mapping.parent? with
  | none => rfl
  | some m =>
    have gives := hv.parent m (List.mem_of_find?_eq_some found)
      (by simpa using List.find?_some found)
    simp only [bind, Except.bind, List.append_nil, List.findSome?_singleton, gives.parentIn?_eq]
    cases k.parent? <;> rfl

theorem Gives.make_eq (hv : h.Gives mapping v k) (hm : mapping.IsRegular) {m : Member}
    (hp : mapping.primary? = some m) (part : m.givesKey = false) {x : Value}
    (hx : x.identity? = some k.id) :
    Key.make h (mapping.parent?.bind fun _ => k.parent?) mapping.kind x = .ok k := by
  have parent : (mapping.parent?.bind fun _ => k.parent?) = k.parent? := by
    cases found : mapping.parent? with
    | none => rw [hv.root found m hp part]; rfl
    | some p => rfl
  rw [Key.make, if_neg (by simp [hm.kind]), hx, parent, ← hv.kind]
  exact congrArg Except.ok k.under_self

theorem Gives.recordKey_on (hv : h.Gives mapping v k) (hm : mapping.IsRegular)
    (unrelated : ∀ m ∈ mapping.members, m.traits.related = none) (numbering : Numbering)
    (s : Store) : (recordKey h registry mapping v numbering).on s = (.ok k, s) := by
  obtain ⟨m, hp⟩ : ∃ m, mapping.primary? = some m := by
    obtain ⟨m, only⟩ := List.length_eq_one_iff.mp hm.primary
    exact ⟨m, by rw [ClassMapping.primary?, ← List.head?_filter, only]; rfl⟩
  have identifies := hv.primary m hp
  have parent : (ofExcept (h.parentOf registry mapping v)).on s =
      (.ok (mapping.parent?.bind fun _ => k.parent?), s) := by
    rw [on_ofExcept, hv.parentOf_eq unrelated]
  rw [recordKey, on_bind_of_ok parent, hp]
  simp only [Option.map_some, Option.getD_some]
  generalize h.valueUnder m.name v = x at identifies
  cases identifies with
  | token encoded read =>
    simp only [encoded]
    rw [on_ofExcept, read]
  | number _ plain declared id | flag _ plain declared id | name _ plain declared id =>
    have part : m.givesKey = false := by
      simp [Member.givesKey, plain, declared, DeclaredType.isInteger, DeclaredType.isText]
    rw [plain]
    dsimp only
    rw [on_ofExcept, hv.make_eq hm hp part (by rw [id]; rfl)]
  | key plain whole => rfl

theorem Gives.recordOf_on (hv : h.Gives mapping v k) (hm : mapping.IsRegular)
    (unrelated : ∀ m ∈ mapping.members, m.traits.related = none)
    (distinct : (Member.allProperties mapping.stored).Nodup) (registry : Registry)
    (numbering : Numbering) (s : Store) :
    ∃ r, (recordOf h registry mapping v numbering).on s = (.ok r, s) ∧ r.key = k ∧
      ∀ m ∈ mapping.stored, r.Stores h (h.valueUnder m.name v) m := by
  have regular : ∀ m ∈ mapping.stored, m.IsRegular :=
    fun m h => hm.members m (List.mem_filter.mp h).1
  obtain ⟨es, stored, names⟩ := allParts_of_each (v := v) fun m h =>
    (hv.carries m h).partProperties_eq (regular m h)
  have properties : h.propertiesOf mapping v = .ok (byName es) := by
    rw [propertiesOf, ← ClassMapping.stored, stored]
    rfl
  refine ⟨⟨k, byName es⟩, ?_, rfl, fun m hmem => ?_⟩
  · rw [recordOf, on_bind_of_ok (hv.recordKey_on hm unrelated numbering s), properties]
    rfl
  · obtain ⟨part, hpart, inside⟩ := allParts_eq_ok stored m hmem
    refine ⟨part, hpart, fun e he => ?_⟩
    rw [Record.stored, lookupName_byName (names ▸ distinct) (inside he)]
    rfl

end Heap

namespace Workspace

variable {h : Heap} {registry : Registry} {mapping : ClassMapping} {v : Value} {k : Key}

theorem makes_memberValue (hv : h.Gives mapping v k) (hm : mapping.IsRegular)
    (unrelated : ∀ m ∈ mapping.members, m.traits.related = none) {r : Record} (hk : r.key = k)
    (hs : ∀ m ∈ mapping.stored, r.Stores h (h.valueUnder m.name v) m) :
    ∀ m ∈ mapping.members, Makes (fun g y =>
      if Heap.isStored m then h.Reloaded g (h.valueUnder m.name v) y m
      else y = h.valueUnder m.name v) (memberValue r m) := by
  intro m hmem
  rw [memberValue, hk]
  by_cases primary : m.traits.isPrimary = true
  · rw [if_pos primary, (hv.primary m (hm.primary?_eq hmem primary)).giveKey_eq]
    exact makes_pure fun g => by simp [Heap.isStored, primary]
  by_cases parent : m.traits.isParent = true
  · rw [if_neg primary, if_pos parent, (hv.parent m hmem parent).giveParent_eq]
    exact makes_pure fun g => by simp [Heap.isStored, parent]
  · have stored : Heap.isStored m = true := by
      simp [Heap.isStored, primary, parent, unrelated m hmem]
    have kept : m ∈ mapping.stored := List.mem_filter.mpr ⟨hmem, stored⟩
    rw [if_neg primary, if_neg parent, unrelated m hmem]
    simp only [stored, if_true]
    exact makes_partValue (hm.members m hmem) (hv.carries m kept) (hs m kept)

/-- An object that is stored and loaded afresh comes back equal exactly where each of its embedded
objects, at every depth, has a part of its own that is not null. -/
theorem reload_same_iff (hm : mapping.IsRegular)
    (unrelated : ∀ m ∈ mapping.members, m.traits.related = none)
    (distinct : (Member.allProperties mapping.stored).Nodup) (hv : h.Gives mapping v k)
    (registry : Registry) (numbering : Numbering) (s : Store) (w : Workspace) :
    ∃ r y u, (recordOf h registry mapping v numbering).on s = (.ok r, s) ∧ r.key = k ∧
      (loadWhole mapping r true).on w = (.ok y, u) ∧
      (h.SameObject u.heap mapping v y ↔
        ∀ m ∈ mapping.stored, h.Shows (h.valueUnder m.name v) m) := by
  obtain ⟨r, made, hk, hs⟩ := hv.recordOf_on hm unrelated distinct registry numbering s
  obtain ⟨y, u, loaded, -, hy⟩ :=
    makes_object hm.made hm.fits (makes_memberValue hv hm unrelated hk hs) w
  obtain ⟨belongs, members⟩ := hy u.heap fun _ _ _ => rfl
  have reloaded : ∀ m ∈ mapping.stored,
      h.Reloaded u.heap (h.valueUnder m.name v) (u.heap.valueUnder m.name y) m := by
    intro m hmem
    obtain ⟨hmem, stored⟩ := List.mem_filter.mp hmem
    simpa only [stored, if_true] using members m hmem
  refine ⟨r, y, u, made, hk, ?_, ?_⟩
  · simp only [← fill_eq] at loaded
    exact loaded
  · constructor
    · exact fun same m hmem => ((reloaded m hmem).same_iff (hv.carries m hmem)).mp
        (same.stored m hmem)
    · intro shows
      refine ⟨?_, fun m hmem unstored => ?_, fun m hmem => ?_⟩
      · rw [belongs.classOf_eq, hv.belongs.classOf_eq]
      · simpa only [unstored, Bool.false_eq_true, if_false] using members m hmem
      · exact ((reloaded m hmem).same_iff (hv.carries m hmem)).mpr (shows m hmem)

def orderClasses : List NamedClass :=
  let field (name type : Text) (isPrimary isEmbedded : Bool) : NamedField :=
    ⟨name, type, none, none, none, isPrimary, false, isEmbedded, false, false⟩
  [⟨"Point", none, false, [field "lat" "float" false false]⟩,
    ⟨"Place", none, false, [field "street" "str" false false, field "at" "Point" false true]⟩,
    ⟨"Order", none, true, [field "code" "str" true false, field "to" "Place" false true]⟩]

def place : Member :=
  .embedded ⟨"to", .record ⟨"Place", [("street", false), ("at", false)]⟩, false, false, none, none,
      false, false⟩
    [.plain ⟨"street", .text, false, false, none, none, false, false⟩,
      .embedded ⟨"at", .record ⟨"Point", [("lat", false)]⟩, false, false, none, none, false, false⟩
        [.plain ⟨"lat", .real, false, false, none, none, false, false⟩]]

def orders : ClassMapping :=
  ⟨.record "Order", ⟨"Order", [("code", false), ("to", false)]⟩, "Order",
    [.plain ⟨"code", .text, true, false, none, none, false, false⟩, place]⟩

theorem orders_isRegular : orders.IsRegular := by
  have registered : ∃ s ms after, Schema.ofDeclarations [] orderClasses = .ok s ∧
      s.membersOf (.record "Order") = .ok ms ∧
      Registry.empty.register (.record "Order") (s.shapeOf (.record "Order")) ms none =
        .ok (orders, after) := ⟨_, _, _, rfl, rfl, rfl⟩
  obtain ⟨s, ms, after, declared, members, registered⟩ := registered
  exact Registry.register_isRegular (Schema.ofDeclarations_isRegular (by decide) declared) members
    rfl registered

def ordered : Heap :=
  ⟨[⟨⟨"Order", [("code", false), ("to", false)]⟩, [("code", .text "a"), ("to", .object 1)]⟩,
    ⟨⟨"Place", [("street", false), ("at", false)]⟩, [("street", .null), ("at", .object 2)]⟩,
    ⟨⟨"Point", [("lat", false)]⟩, [("lat", .integer 1)]⟩]⟩

theorem ordered_gives : ordered.Gives orders (.object 0) (.root "Order" (.name "a")) := by
  refine ⟨rfl, rfl, fun m hm => ?_, by simp [orders, place, Member.traits], fun _ _ _ _ => rfl,
    ?_⟩
  · cases hm
    exact .name "a" rfl rfl rfl
  · have point : ordered.Carries (.object 1) place := by
      refine .embedded rfl (List.forall_mem_cons.mpr ⟨.plain trivial, ?_⟩)
      refine List.forall_mem_singleton.mpr (.embedded rfl ?_)
      exact List.forall_mem_singleton.mpr (.plain trivial)
    intro m hm
    cases List.mem_singleton.mp hm
    exact point

/-- A place whose point alone is known is lost. -/
theorem reload_same_ordered :
    ∃ r y u, (recordOf ordered ⟨[orders]⟩ orders (.object 0) .fromStore).on
        (.start .default) = (.ok r, .start .default) ∧
      (loadWhole orders r true).on ⟨ordered, .empty⟩ = (.ok y, u) ∧
      ordered.valueUnder "lat" (ordered.valueUnder "at" (ordered.valueUnder "to" (.object 0))) =
        .integer 1 ∧
      ¬ ordered.SameObject u.heap orders (.object 0) y := by
  obtain ⟨r, y, u, saved, -, loaded, same⟩ := reload_same_iff orders_isRegular
    (by simp [orders, place, Member.traits]) (by decide) ordered_gives ⟨[orders]⟩ .fromStore
    (.start .default) ⟨ordered, .empty⟩
  refine ⟨r, y, u, saved, loaded, rfl, ?_⟩
  rw [same]
  intro shows
  have place : ordered.Shows (.object 1) place := shows place (.head _)
  cases place with
  | embedded own =>
    obtain ⟨p, hp, plain, known⟩ := own
    rcases List.mem_cons.mp hp with rfl | hp
    · exact known rfl
    · cases List.mem_singleton.mp hp
      cases plain

end Workspace
end RecordStore
