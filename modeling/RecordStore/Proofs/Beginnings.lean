import RecordStore.Proofs.FilterLeaves
import RecordStore.Proofs.PrefixBounds
import RecordStore.Proofs.ScanResults

/-!
# Beginnings of texts

A call that asks for the texts with a beginning is compiled to a lower and an upper bound. Which
texts it selects depends on the last code point of the beginning only: they are those with the
beginning where the bytes of that code point have room for the next one, and others where they have
none.
-/

set_option autoImplicit false

namespace RecordStore

/-- A member whose texts are stored as they are. -/
structure Member.StoresTexts (m : Member) : Prop where
  unrelated : m.traits.related = none
  no_parent : m.traits.isParent = false
  not_primary : m.traits.isPrimary = false
  no_key : m.traits.declared.isKey = false

theorem Record.meets_texts {shown : Value → Except Fault Text} {r : Record} {property : Text}
    {v : Value} {ts : List Text} (h : r.value? property = some v) (items : itemsOf v = ts.map .text)
    (comparator : Comparator) (t : Text) :
    r.meets shown ⟨property, comparator, .text t⟩ = true ↔
      ∃ u ∈ ts, comparator.holds (some (u.order t)) = true := by
  have item (u : Text) :
      Condition.isMetBy shown ⟨property, comparator, .text t⟩ (.text u) =
        comparator.holds (some (u.order t)) :=
    Standing.holds_text comparator u t
  rw [meets, h]
  simp [items, item]

/-- What comes of scanning for a draft that asks for texts of a property: the scan gives out what
the draft finds, and it is answered if texts can be written and what is stored can be compared. -/
structure Draft.ScansFor (shown : Value → Except Fault Text) (s : Store) (property : Text)
    (d : Draft) : Prop where
  gives : ∀ cursor, d.ScansTo shown s cursor → ∀ r, cursor.Gives r ↔ d.Finds shown s r
  answered : (∀ t, ∃ u, shown (.text t) = .ok u) →
    (∀ r ∈ s.records, ∀ v ∈ r.value? property, ∀ item ∈ Record.itemsOf v, item.IsComparable shown) →
    ∃ cursor, d.ScansTo shown s cursor

theorem Draft.scansFor_of_texts {d : Draft} {property : Text} (scanned : d.isLookup = false)
    (ancestor : d.ancestor = none) (arrangement : d.arrangement = [])
    (conditions : ∀ c ∈ d.conditions, c.property = property ∧ ∃ t, c.value = .text t)
    {shown : Value → Except Fault Text} {s : Store} (up : s.IsUp .scan) :
    d.ScansFor shown s property := by
  refine ⟨fun _ => gives_iff_finds scanned up, fun written comparable => ?_⟩
  refine ⟨_, (scansTo_iff scanned up).mpr ⟨Store.canScan_of_comparable ⟨fun c hc => ?_, ?_⟩
    (fun c hc => ?_) fun r _ c hc => ?_, rfl⟩⟩
  · obtain ⟨-, t, ht⟩ := conditions c hc
    rw [ht]
    exact written t
  · intro k hk
    cases ancestor.symm.trans hk
  · obtain ⟨rfl, t, ht⟩ := conditions c hc
    rw [ht]
    exact ⟨trivial, comparable⟩
  · simp [asSelection, arrangement] at hc

namespace Comparator

theorem holds_greaterOrEqual_iff {o : Ordering} :
    greaterOrEqual.holds (some o) = true ↔ o ≠ .lt := by
  cases o <;> simp [holds]

theorem holds_less_iff {o : Ordering} : less.holds (some o) = true ↔ o = .lt := by
  cases o <;> simp [holds]

end Comparator

namespace Candidate

variable (c : Candidate) (b : Bindings)

def AsksFor (path : List Text) (beginning : Text) (x : Expr) : Prop :=
  ∃ name arg, x = .call name (.field path) [arg] ∧
    ((name = "startsWith" ∧ argumentValue c b name x arg = .ok (.text beginning)) ∨
      (name = "matches" ∧ wildcard ∉ beginning.points ∧
        argumentValue c b name x arg = .ok (.text (beginning ++ .singleton wildcard))))

variable {c b} {path : List Text} {m : Member}

theorem comparisonStep_text (hm : c.member path = .ok m) (stores : m.StoresTexts) {op : Operator}
    {comparator : Comparator} (ho : op.comparator? = some comparator) (hne : op ≠ .notEqual)
    (t : Text) :
    comparisonStep c b path op (.literal (.text t)) =
      .ok (.condition ⟨m.property, comparator, .text t⟩) := by
  have converted : c.conditionValue m (.text t) = .ok (.text t) := by
    simp [conditionValue, stores.no_key]
  exact comparisonStep_property hm stores.unrelated stores.no_parent stores.not_primary ho hne rfl
    converted

theorem beginningOf_wildcard {t : Text} (h : wildcard ∉ t.points) :
    c.beginningOf (t ++ .singleton wildcard) = .ok t := by
  have pattern : (t ++ Text.singleton wildcard).points.reverse = wildcard :: t.points.reverse := by
    rw [Text.points_append]
    exact List.reverse_append
  rw [beginningOf, pattern]
  dsimp only
  rw [List.reverse_reverse]
  exact if_pos (by simp [h])

theorem steps_of_asksFor {t : Text} {x : Expr} (h : AsksFor c b path t x) :
    steps c b x = beginningSteps c b path t := by
  obtain ⟨name, arg, rfl, call⟩ := h
  have asked : (argumentValue c b name (.call name (.field path) [arg]) arg).bind
      (c.beginning b name) = .ok t := by
    rcases call with ⟨rfl, value⟩ | ⟨rfl, unmarked, value⟩
    · rw [value]
      rfl
    · rw [value]
      exact beginningOf_wildcard unmarked
  have named : name ≠ "contains" ∧ (name = "startsWith" ∨ name = "matches") := by
    rcases call with ⟨rfl, -⟩ | ⟨rfl, -⟩
    · exact ⟨by decide, .inl rfl⟩
    · exact ⟨by decide, .inr rfl⟩
  rw [steps, callSteps]
  simp [named.1, named.2, asked]

theorem run_beginningSteps (hm : c.member path = .ok m) (stores : m.StoresTexts) {p : Text}
    (hp : ∀ x ∈ p.points, x.isSurrogate = false) :
    ∃ e, (beginningSteps c b path p).run c.start = .ok e ∧ e.isLookup = false ∧
      e.kind = c.mapping.kind ∧ e.ancestor = none ∧ e.arrangement = [] ∧
      ∀ condition, condition ∈ e.conditions ↔
        condition = ⟨m.property, .greaterOrEqual, .text p⟩ ∨
          ∃ upper, p.upperBound = .below upper ∧ condition = ⟨m.property, .less, .text upper⟩ := by
  have lower : comparisonStep c b path .greaterOrEqual (.literal (.text p)) =
      .ok (.condition ⟨m.property, .greaterOrEqual, .text p⟩) :=
    comparisonStep_text hm stores rfl (by decide) p
  rw [beginningSteps]
  dsimp only
  rw [lower]
  cases bound : p.upperBound with
  | unencodable => exact absurd bound (Text.upperBound_ne_unencodable hp)
  | unbounded => exact ⟨_, rfl, rfl, rfl, rfl, rfl, by simp [start, Draft.start]⟩
  | below upper =>
    have step : comparisonStep c b path .less (.literal (.text upper)) =
        .ok (.condition ⟨m.property, .less, .text upper⟩) :=
      comparisonStep_text hm stores rfl (by decide) upper
    dsimp only
    rw [step]
    exact ⟨_, rfl, rfl, rfl, rfl, rfl, by simp [start, Draft.start]⟩

theorem compileFilter_beginning (hm : c.member path = .ok m) (stores : m.StoresTexts) {p : Text}
    (hp : ∀ x ∈ p.points, x.isSurrogate = false) {x : Expr} (asks : AsksFor c b path p x) :
    ∃ e, (c.withFilter x).compileFilter b c.start = .ok e ∧
      ∀ (shown : Value → Except Fault Text) (s : Store), s.IsUp .scan →
        e.ScansFor shown s m.property ∧
        ∀ r ∈ s.records, r.kind = c.mapping.kind →
          (e.Finds shown s r ↔ r.meets shown ⟨m.property, .greaterOrEqual, .text p⟩ = true ∧
            ∀ upper, p.upperBound = .below upper →
              r.meets shown ⟨m.property, .less, .text upper⟩ = true) := by
  obtain ⟨e, run, scanned, kind, ancestor, arrangement, conditions⟩ :=
    run_beginningSteps (b := b) hm stores hp
  refine ⟨e, ?_, fun shown s up => ⟨?_, fun r hr hk => ?_⟩⟩
  · rw [compileFilter_withFilter, steps_of_asksFor asks, run, ancestor]
    exact ⟨rfl, nofun⟩
  · refine Draft.scansFor_of_texts scanned ancestor arrangement (fun condition hc => ?_) up
    rcases (conditions condition).mp hc with rfl | ⟨upper, -, rfl⟩
    · exact ⟨rfl, p, rfl⟩
    · exact ⟨rfl, upper, rfl⟩
  · rw [Draft.finds_iff scanned, ancestor, arrangement]
    simp only [conditions]
    constructor
    · rintro ⟨-, -, -, meets, -⟩
      exact ⟨meets _ (.inl rfl), fun upper bound => meets _ (.inr ⟨upper, bound, rfl⟩)⟩
    · rintro ⟨lower, upper⟩
      refine ⟨hr, hk.trans kind.symm, nofun, ?_, List.forall_mem_nil _⟩
      rintro condition (rfl | ⟨t, bound, rfl⟩)
      · exact lower
      · exact upper t bound

/-- A query for the texts of a member that have a beginning selects a record if its text is one of
those that lie at the beginning. These are the texts that have it, but for beginnings whose last
code point cannot be raised. -/
theorem beginning_finds (hm : c.member path = .ok m) (stores : m.StoresTexts) {p : Text}
    (hp : ∀ x ∈ p.points, x.isSurrogate = false) {x : Expr} (asks : AsksFor c b path p x) :
    ∃ e, (c.withFilter x).compileFilter b c.start = .ok e ∧
      ∀ (shown : Value → Except Fault Text) (s : Store), s.IsUp .scan →
        e.ScansFor shown s m.property ∧
        ∀ r ∈ s.records, r.kind = c.mapping.kind →
          ∀ v, r.value? m.property = some (.text v) → (∀ y ∈ v.points, y.isSurrogate = false) →
            (e.Finds shown s r ↔ v.LiesAt p) := by
  obtain ⟨e, compiled, finds⟩ := compileFilter_beginning hm stores hp asks
  refine ⟨e, compiled, fun shown s up => ⟨(finds shown s up).1, fun r hr hk v stored hv => ?_⟩⟩
  have holds (comparator : Comparator) (t : Text) :
      r.meets shown ⟨m.property, comparator, .text t⟩ = true ↔
        comparator.holds (some (v.order t)) = true := by
    have items : Record.itemsOf (.text v) = [v].map .text := rfl
    simpa using Record.meets_texts stored items comparator t
  rw [(finds shown s up).2 r hr hk, Text.liesAt_iff hv hp]
  simp only [holds, Comparator.holds_greaterOrEqual_iff, Comparator.holds_less_iff]

section Signs

def signName : Member := .plain ⟨"name", .text, false, false, none, none, false, false⟩

def signs : Candidate where
  statement :=
    { candidate := some (.record "Sign"), filter := .absent, ordering := [], results := []
      sources := [], grouping := [], having := .absent, aliasName := none, kind := .select
      text := none, extensions := [] }
  mapping := ⟨.record "Sign", ⟨"Sign", [("id", false), ("name", false)]⟩, "Sign",
    [.plain ⟨"id", .integer, true, false, none, none, false, false⟩, signName]⟩

def sign : Record := ⟨.root "Sign" (.number 1), [("name", .text (.singleton ⟨0xE9, by decide⟩))]⟩

def signStore : Store := { Store.start ⟨.text "memory", .flag true⟩ with records := [sign] }

def bareBindings : Bindings := ⟨[], .empty, ⟨⟨2024, 1, 1⟩, 12, 0, 0, 0, false, none⟩, .empty⟩

def markCall : Expr :=
  .call "startsWith" (.field ["name"]) [.literal (.text (.singleton ⟨0xBF, by decide⟩))]

/-- The letter U+00E9 is found for the mark U+00BF, which has no room for the next one. -/
theorem beginning_finds_letter :
    ∃ e, (signs.withFilter markCall).compileFilter bareBindings signs.start = .ok e ∧
      (∃ cursor, e.ScansTo (fun _ => .ok Text.empty) signStore cursor ∧ cursor.Gives sign) ∧
      (Text.singleton ⟨0xE9, by decide⟩).startsWith (.singleton ⟨0xBF, by decide⟩) = false := by
  have asks : AsksFor signs bareBindings ["name"] (.singleton ⟨0xBF, by decide⟩) markCall :=
    ⟨_, _, rfl, .inl ⟨rfl, rfl⟩⟩
  obtain ⟨e, compiled, finds⟩ := beginning_finds (m := signName) rfl ⟨rfl, rfl, rfl, rfl⟩
    (List.forall_mem_singleton.mpr rfl) asks
  have up : signStore.IsUp .scan := List.forall_mem_nil _
  obtain ⟨scans, finds⟩ := finds (fun _ => .ok Text.empty) signStore up
  have found := (finds sign List.mem_cons_self rfl _ rfl (List.forall_mem_singleton.mpr rfl)).mpr
    ⟨_, [], rfl, by decide, by decide⟩
  obtain ⟨cursor, answered⟩ := scans.answered (fun _ => ⟨_, rfl⟩) (by
    intro r hr v hv item hi
    obtain rfl := List.mem_singleton.mp hr
    obtain rfl := Option.some.inj hv
    obtain rfl := List.mem_singleton.mp hi
    trivial)
  exact ⟨e, compiled, ⟨cursor, answered, (scans.gives cursor answered sign).mpr found⟩, rfl⟩

end Signs

end Candidate
end RecordStore
