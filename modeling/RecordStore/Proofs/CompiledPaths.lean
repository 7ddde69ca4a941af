import RecordStore.Query.Compile
import RecordStore.Proofs.RoundTrip

/-!
# Paths that are compiled

A path of a statement leads to a member, and what it is compiled to names a property or the key of
the record. Members of embedded objects are stored by their properties like others, but what they
say about a key of their own is taken for the key of the record.
-/

set_option autoImplicit false

namespace RecordStore

open Attempt

theorem Member.of_find?_eq_some {name : Text} {ms : List Member} {m : Member}
    (h : Member.find? name ms = some m) : m ∈ ms ∧ m.name = name :=
  ⟨List.mem_of_find?_eq_some h, by simpa using List.find?_some h⟩

theorem ClassMapping.descend_cons_eq_ok {query : Option Text} {first m : Member} {name : Text}
    {rest : List Text} (h : descend query (some first) (name :: rest) = .ok (some m)) :
    ∃ t parts p, first = .embedded t parts ∧ Member.find? name parts = some p ∧
      descend query (some p) rest = .ok (some m) := by
  cases first with
  | plain t => cases h
  | embedded t parts =>
    change descend query (Member.find? name parts) rest = _ at h
    cases found : Member.find? name parts with
    | none =>
      rw [found, descend] at h
      cases h
    | some p =>
      rw [found] at h
      exact ⟨t, parts, p, rfl, found, h⟩

namespace Heap

variable {h : Heap}

def valueAlong (h : Heap) : List Text → Value → Value
  | [], v => v
  | name :: rest, v => h.valueAlong rest (h.valueUnder name v)

mutual

theorem names_partProperties {x : Value} {m : Member} {es : List (Text × Value)}
    (he : h.partProperties x m = .ok es) : es.map (·.1) = m.properties := by
  cases m with
  | plain t =>
    rw [partProperties] at he
    obtain ⟨s, -, he⟩ := (bind_eq_ok_iff _ _ _).mp he
    cases he
    rw [Member.properties]
    rfl
  | embedded t parts =>
    rw [partProperties] at he
    rw [Member.properties]
    exact names_allParts he

theorem names_allParts {v : Value} {ms : List Member} {es : List (Text × Value)}
    (he : h.allParts v ms = .ok es) : es.map (·.1) = Member.allProperties ms := by
  cases ms with
  | nil =>
    rw [allParts] at he
    cases he
    rw [Member.allProperties]
    rfl
  | cons m rest =>
    rw [allParts] at he
    obtain ⟨first, hf, he⟩ := (bind_eq_ok_iff _ _ _).mp he
    obtain ⟨others, ho, he⟩ := (bind_eq_ok_iff _ _ _).mp he
    cases he
    rw [List.map_append, names_partProperties hf, names_allParts ho, Member.allProperties]

end

theorem mem_allParts_of_descend {query : Option Text} {m : Member} (plain : m.parts? = none)
    {rest : List Text} {first : Member} {ms : List Member} {v : Value} {es : List (Text × Value)}
    (mem : first ∈ ms) (leads : ClassMapping.descend query (some first) rest = .ok (some m))
    (stored : h.allParts v ms = .ok es) :
    ∃ x, (h.valueAlong (first.name :: rest) v).stored = .ok x ∧ (m.property, x) ∈ es := by
  obtain ⟨part, found, inside⟩ := allParts_eq_ok stored first mem
  induction rest generalizing first ms v es part with
  | nil =>
    cases leads
    cases m with
    | embedded t parts => cases plain
    | plain t =>
      rw [partProperties] at found
      obtain ⟨x, hx, found⟩ := (bind_eq_ok_iff _ _ _).mp found
      cases found
      exact ⟨x, hx, inside (.head _)⟩
  | cons name rest ih =>
    obtain ⟨t, parts, p, rfl, next, leads⟩ := ClassMapping.descend_cons_eq_ok leads
    obtain ⟨member, named⟩ := Member.of_find?_eq_some next
    rw [partProperties] at found
    obtain ⟨below, foundBelow, insideBelow⟩ := allParts_eq_ok found p member
    obtain ⟨x, hx, written⟩ := ih member leads found below foundBelow insideBelow
    rw [named] at hx
    exact ⟨x, hx, inside written⟩

end Heap

namespace ClassMapping

variable {mapping : ClassMapping}

/-- Whether a path begins at a member whose values are properties. -/
def Writes (mapping : ClassMapping) (path : List Text) : Prop :=
  ∃ name rest first, path = name :: rest ∧ Member.find? name mapping.members = some first ∧
    Heap.isStored first = true

theorem Writes.isStored {path : List Text} {query : Option Text} {m : Member}
    (h : mapping.Writes path) (leads : mapping.memberAt path query = .ok (some m))
    (single : path.length = 1) : Heap.isStored m = true := by
  obtain ⟨name, rest, first, rfl, found, stored⟩ := h
  obtain rfl : rest = [] := List.length_eq_zero_iff.mp (by simpa using single)
  rw [memberAt, found] at leads
  cases leads
  exact stored

end ClassMapping

/-- The records of a class have its properties, and among them what a path leads to. -/
theorem recordOf_properties {h : Heap} {registry : Registry} {mapping : ClassMapping} {v : Value}
    {numbering : Numbering} {s t : Store} {r : Record}
    (distinct : (Member.allProperties mapping.stored).Nodup)
    (made : (recordOf h registry mapping v numbering).on s = (.ok r, t)) :
    (∀ property, (lookupName property r.properties).isSome = true ↔
      property ∈ Member.allProperties mapping.stored) ∧
    ∀ path query m, mapping.memberAt path query = .ok (some m) → m.isEmbedded = false →
      mapping.Writes path →
        ∃ x, (h.valueAlong path v).stored = .ok x ∧ lookupName m.property r.properties =
          some x := by
  obtain ⟨key, u, -, made⟩ := (on_bind_eq_ok_iff _ _ _ _ _).mp made
  obtain ⟨properties, _, taken, made⟩ := (on_bind_eq_ok_iff _ _ _ _ _).mp made
  obtain ⟨read, rfl⟩ := (on_ofExcept_eq_ok_iff _ _ _ _).mp taken
  cases made
  obtain ⟨es, parts, read⟩ := (bind_eq_ok_iff _ _ _).mp read
  cases read
  have names := Heap.names_allParts parts
  have apart : (es.map (·.1)).Nodup := names ▸ distinct
  refine ⟨fun property => ?_, fun path query m leads plain writes => ?_⟩
  · rw [isSome_lookupName_iff, mem_names_byName, names]
    rfl
  · obtain ⟨name, rest, first, rfl, found, stored⟩ := writes
    have plain : m.parts? = none := by simpa [Member.isEmbedded] using plain
    rw [ClassMapping.memberAt, found] at leads
    obtain ⟨mem, named⟩ := Member.of_find?_eq_some found
    have member : first ∈ mapping.stored := List.mem_filter.mpr ⟨mem, stored⟩
    obtain ⟨x, hx, written⟩ := Heap.mem_allParts_of_descend plain member leads parts
    rw [named] at hx
    exact ⟨x, hx, lookupName_byName apart written⟩

/-- Whether a step is about the key of a record, by what a member says about keys. -/
inductive FilterStep.IsOnKey (m : Member) : FilterStep → Prop
  /-- The key of the parent of a given object. -/
  | owner (k : Key) (related : m.traits.related.isSome = true)
      (owns : m.traits.providesParent = false) :
        IsOnKey m (.condition ⟨keyProperty, .equal, .key k⟩)
  | primary (comparator : Comparator) (v : Value) (primary : m.traits.isPrimary = true) :
      IsOnKey m (.condition ⟨keyProperty, comparator, v⟩)
  | lookup (comparator : Comparator) (keys : List (Except Fault (Option Key)))
      (primary : m.traits.isPrimary = true) : IsOnKey m (.lookup comparator keys)
  | ancestor (k : Key) (above : m.traits.isParent = true ∨
      m.traits.related.isSome = true ∧ m.traits.providesParent = true) : IsOnKey m (.ancestor k)

namespace Candidate

variable {c : Candidate} {b : Bindings} {m : Member} {comparator : Comparator} {v : Value}
  {step : FilterStep}

theorem ancestorStep_eq_ok {k : Option Key} (h : c.ancestorStep comparator k = .ok step) :
    ∃ k, step = .ancestor k := by
  rw [ancestorStep.eq_def] at h
  split at h
  · cases h
  · cases k with
    | none => cases h
    | some k =>
      cases h
      exact ⟨k, rfl⟩

theorem relationStep_eq_ok {className : ClassName} (hr : m.traits.related = some className)
    (h : relationStep c b m className comparator v = .ok step) : step.IsOnKey m := by
  have related : m.traits.related.isSome = true := by rw [hr]; rfl
  rw [relationStep] at h
  cases known : b.registry.get? className with
  | none =>
    rw [known] at h
    cases h
  | some target =>
    rw [known] at h
    obtain ⟨key, -, h⟩ := (bind_eq_ok_iff _ _ _).mp h
    split at h
    · rename_i provides
      cases key with
      | none => cases h
      | some k =>
        obtain ⟨k, rfl⟩ := ancestorStep_eq_ok h
        exact .ancestor k (.inr ⟨related, provides⟩)
    · rename_i owns
      split at h
      · cases h
      cases key with
      | none => cases h
      | some k =>
        cases parent : k.parent? with
        | none =>
          simp only [parent] at h
          cases h
        | some p =>
          simp only [parent] at h
          cases h
          exact .owner p related (Bool.eq_false_iff.mpr owns)

theorem primaryStep_eq_ok (primary : m.traits.isPrimary = true)
    (h : primaryStep c b comparator v = .ok step) : step.IsOnKey m := by
  rw [primaryStep.eq_def] at h
  split at h
  · cases h
    exact .lookup _ _ primary
  · obtain ⟨k, -, h⟩ := (bind_eq_ok_iff _ _ _).mp h
    cases h
    exact .primary _ _ primary

theorem memberStep_eq_ok (h : memberStep c b m comparator v = .ok step) :
    (Heap.isStored m = true → ∃ w, step = .condition ⟨m.property, comparator, w⟩) ∧
      (Heap.isStored m = false → step.IsOnKey m) := by
  rw [memberStep] at h
  cases related : m.traits.related with
  | some className =>
    rw [related] at h
    exact ⟨by simp [Heap.isStored, related], fun _ => relationStep_eq_ok related h⟩
  | none =>
    rw [related] at h
    dsimp only at h
    split at h
    · rename_i parent
      obtain ⟨k, -, h⟩ := (bind_eq_ok_iff _ _ _).mp h
      obtain ⟨k, rfl⟩ := ancestorStep_eq_ok h
      exact ⟨by simp [Heap.isStored, parent], fun _ => .ancestor k (.inl parent)⟩
    split at h
    · rename_i primary
      exact ⟨by simp [Heap.isStored, primary], fun _ => primaryStep_eq_ok primary h⟩
    · rename_i parent primary
      obtain ⟨w, -, h⟩ := (bind_eq_ok_iff _ _ _).mp h
      cases h
      exact ⟨fun _ => ⟨w, rfl⟩, by simp [Heap.isStored, related, parent, primary]⟩

theorem comparisonStep_eq_ok {path : List Text} {op : Operator} {right : Expr}
    (hm : c.member path = .ok m) (h : comparisonStep c b path op right = .ok step) :
    (Heap.isStored m = true → ∃ comparator v, step = .condition ⟨m.property, comparator, v⟩) ∧
      (Heap.isStored m = false → step.IsOnKey m) := by
  obtain ⟨comparator, -, h⟩ := (bind_eq_ok_iff _ _ _).mp h
  obtain ⟨v, -, h⟩ := (bind_eq_ok_iff _ _ _).mp h
  obtain ⟨_, -, h⟩ := (bind_eq_ok_iff _ _ _).mp h
  rw [hm] at h
  obtain ⟨property, key⟩ := memberStep_eq_ok h
  exact ⟨fun stored => ⟨comparator, property stored⟩, key⟩

theorem sortClause_eq_ok {path : List Text} {direction : Value} {clause : SortClause}
    (hm : c.member path = .ok m) (h : c.sortClause ⟨path, direction⟩ = .ok clause) :
    m.traits.isParent = false ∧
      clause.property = if m.traits.isPrimary then keyProperty else m.property := by
  obtain ⟨_, -, h⟩ := (bind_eq_ok_iff _ _ _).mp h
  rw [hm] at h
  change (if m.traits.isParent then _ else _) = _ at h
  split at h
  · cases h
  · rename_i parent
    cases h
    exact ⟨Bool.eq_false_iff.mpr parent, rfl⟩

theorem member_eq_ok {path : List Text} (hm : c.member path = .ok m) :
    c.mapping.memberAt (c.statement.stripAlias path) c.query = .ok (some m) := by
  obtain ⟨found, leads, hm⟩ := (bind_eq_ok_iff _ _ _).mp hm
  cases found with
  | none => cases hm
  | some m' =>
    cases hm
    exact leads

/-- What a path is compiled to. A member that has no part in keys is compared and sorted by its
property, and records have there what the path leads to. A member that has one is compared by the
key of the record, and sorted by it if it is primary. Where it is the member of an embedded object,
it is not a part of the record's key, and records have what the path leads to by its property all
the same. -/
theorem compiled_path {path : List Text} (hm : c.member path = .ok m)
    (distinct : (Member.allProperties c.mapping.stored).Nodup) :
    let inner := c.statement.stripAlias path
    (∀ b op right step, comparisonStep c b path op right = .ok step →
      (Heap.isStored m = true → ∃ comparator v, step = .condition ⟨m.property, comparator, v⟩) ∧
        (Heap.isStored m = false → step.IsOnKey m)) ∧
    (∀ direction clause, c.sortClause ⟨path, direction⟩ = .ok clause →
      m.traits.isParent = false ∧
        clause.property = if m.traits.isPrimary then keyProperty else m.property) ∧
    (c.mapping.Writes inner → Heap.isStored m = false → 1 < inner.length) ∧
    ∀ h registry v numbering s r t,
      (recordOf h registry c.mapping v numbering).on s = (.ok r, t) →
        (∀ property, (lookupName property r.properties).isSome = true ↔
          property ∈ Member.allProperties c.mapping.stored) ∧
        (c.mapping.Writes inner → m.isEmbedded = false →
          ∃ x, (h.valueAlong inner v).stored = .ok x ∧ lookupName m.property r.properties =
            some x) := by
  intro inner
  have leads := member_eq_ok hm
  refine ⟨fun b op right step h => comparisonStep_eq_ok hm h,
    fun direction clause h => sortClause_eq_ok hm h, fun writes keyed => ?_,
    fun h registry v numbering s r t made => ?_⟩
  · by_contra short
    obtain ⟨name, rest, first, begins, -⟩ := id writes
    have single : inner.length = 1 := by
      rw [begins] at short ⊢
      simp at short ⊢
      exact short
    rw [writes.isStored leads single] at keyed
    cases keyed
  · obtain ⟨names, written⟩ := recordOf_properties distinct made
    exact ⟨names, fun writes plain => written inner c.query m leads plain writes⟩

def labelCode : Member := .plain ⟨"code", .text, true, false, none, none, false, false⟩

def parcel : ClassMapping :=
  ⟨.record "Parcel", ⟨"Parcel", [("id", false), ("label", false)]⟩, "Parcel",
    [.plain ⟨"id", .integer, true, false, none, none, false, false⟩,
      .embedded ⟨"label", .record ⟨"Label", [("code", false)]⟩, false, false, none, none, false,
        false⟩
        [labelCode]]⟩

def parcels : Candidate where
  statement :=
    { candidate := some (.record "Parcel"), filter := .absent, ordering := [], results := [],
      sources := [], grouping := [], having := .absent, aliasName := none, kind := .select,
      text := none, extensions := [] }
  mapping := parcel

def labelled : Heap :=
  ⟨[⟨parcel.shape, [("id", .integer 1), ("label", .object 1)]⟩,
    ⟨⟨"Label", [("code", false)]⟩, [("code", .text "x")]⟩]⟩

def atNoon : Bindings := ⟨[], labelled, ⟨⟨2024, 1, 1⟩, 12, 0, 0, 0, false, none⟩, ⟨[parcel]⟩⟩

/-- The code of the label is compared with the key of the parcel, although it is a property of the
parcel's record. -/
theorem compiled_path_label :
    (∃ step, comparisonStep parcels atNoon ["label", "code"] .equal (.literal (.text "x")) =
        .ok step ∧ step.IsOnKey labelCode) ∧
      ∃ r t, (recordOf labelled ⟨[parcel]⟩ parcel (.object 0) .leftOpen).on (.start .default) =
          (.ok r, t) ∧
        ∃ x, (labelled.valueAlong ["label", "code"] (.object 0)).stored = .ok x ∧
          lookupName "code" r.properties = some x := by
  have distinct : (Member.allProperties parcels.mapping.stored).Nodup := by decide
  have writes : parcels.mapping.Writes ["label", "code"] := ⟨_, _, _, rfl, rfl, rfl⟩
  have leads : parcels.member ["label", "code"] = .ok labelCode := rfl
  obtain ⟨compared, -, -, stored⟩ := compiled_path leads distinct
  obtain ⟨step, made⟩ : ∃ step,
      comparisonStep parcels atNoon ["label", "code"] .equal (.literal (.text "x")) = .ok step :=
    ⟨_, rfl⟩
  obtain ⟨r, t, saved⟩ : ∃ r t,
      (recordOf labelled ⟨[parcel]⟩ parcel (.object 0) .leftOpen).on (.start .default) =
        (.ok r, t) := ⟨_, _, rfl⟩
  exact ⟨⟨step, made, (compared _ _ _ _ made).2 rfl⟩, r, t, saved,
    (stored _ _ _ _ _ _ _ saved).2 writes rfl⟩

end Candidate
end RecordStore
