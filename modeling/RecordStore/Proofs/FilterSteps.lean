import RecordStore.Proofs.DraftJoin
import RecordStore.Proofs.Attempts

/-!
# Running filter steps

What a list of filter steps does to a draft is settled by what it does to an empty one: the steps
can be run on a draft if they can be run on an empty draft and the two drafts can be joined, and
the result is the join.
-/

set_option autoImplicit false

namespace RecordStore

theorem FilterSteps.run_nil (d : Draft) : FilterSteps.run [] d = .ok d := rfl

theorem FilterSteps.run_cons (step : Except Fault FilterStep) (steps : FilterSteps) (d : Draft) :
    FilterSteps.run (step :: steps) d =
      (do let s ← step; s.apply d) >>= FilterSteps.run steps := rfl

theorem FilterSteps.run_append (first second : FilterSteps) (d : Draft) :
    FilterSteps.run (first ++ second) d = FilterSteps.run first d >>= FilterSteps.run second :=
  List.foldlM_append

namespace Draft

theorem addCondition_eq_ok_iff (d d' : Draft) (c : Condition) :
    d.addCondition c = .ok d' ↔
      d.isLookup = false ∧ { d with conditions := d.conditions ++ [c] } = d' := by
  cases h : d.isLookup <;> simp [addCondition, h]

theorem addSort_eq_ok_iff (d d' : Draft) (c : SortClause) :
    d.addSort c = .ok d' ↔
      d.isLookup = false ∧ { d with arrangement := d.arrangement ++ [c] } = d' := by
  cases h : d.isLookup <;> simp [addSort, h]

theorem secondAncestor_ne_ok {α : Type} (d : Draft) (j k : Key) (a : α) :
    d.secondAncestor j k ≠ .ok a := by
  simp [secondAncestor, bind_eq_ok_iff]

theorem setAncestor_eq_ok_iff (d d' : Draft) (k : Key) :
    d.setAncestor k = .ok d' ↔
      d.isLookup = false ∧ (∀ j, d.ancestor = some j → j.same k = true) ∧
        { d with ancestor := some k } = d' := by
  rw [setAncestor]
  cases h : d.isLookup with
  | true => simp
  | false =>
    cases ha : d.ancestor with
    | none => simp
    | some j =>
      cases hs : j.same k with
      | true => simp [hs]
      | false => simp [hs, secondAncestor_ne_ok]

theorem startLookup_eq_ok_iff (d d' : Draft) (keys : List (Except Fault (Option Key))) :
    d.startLookup keys = .ok d' ↔
      d.IsBlank ∧ ∃ ks, keys.mapM id = .ok ks ∧ { d with keys := some (distinctKeys ks) } = d' := by
  rw [isBlank_iff, startLookup]
  cases !d.conditions.isEmpty || !d.arrangement.isEmpty || d.ancestor.isSome || d.isLookup with
  | true => simp
  | false =>
    rw [if_neg nofun, bind_eq_ok_iff]
    simp [pure, Except.pure]

end Draft

namespace FilterStep

variable (kind : Text) (query : Option Text)

theorem apply_condition (d d' : Draft) (c : Condition) :
    apply d (.condition c) = .ok d' ↔
      d.isLookup = false ∧ { d with conditions := d.conditions ++ [c] } = d' :=
  d.addCondition_eq_ok_iff d' c

theorem apply_ancestor (d d' : Draft) (k : Key) :
    apply d (.ancestor k) = .ok d' ↔
      d.isLookup = false ∧ (∀ j, d.ancestor = some j → j.same k = true) ∧
        { d with ancestor := some k } = d' :=
  d.setAncestor_eq_ok_iff d' k

theorem apply_lookup (d d' : Draft) (comparator : Comparator)
    (keys : List (Except Fault (Option Key))) :
    apply d (.lookup comparator keys) = .ok d' ↔
      d.IsBlank ∧ comparator = .equal ∧
        ∃ ks, keys.mapM id = .ok ks ∧ { d with keys := some (Draft.distinctKeys ks) } = d' := by
  rw [apply]
  split
  · rename_i taken
    exact iff_of_false nofun fun ⟨blank, _⟩ => by simp [blank.conditions] at taken
  split
  · rename_i differs
    exact iff_of_false nofun fun ⟨_, equal, _⟩ => differs equal
  · rename_i equal
    simp [Draft.startLookup_eq_ok_iff, Decidable.not_not.mp equal]

theorem apply_eq_ok_iff (s : FilterStep) (d d' : Draft) :
    apply d s = .ok d' ↔
      ∃ e, apply (.start kind query) s = .ok e ∧ d.Joinable e ∧ d' = d.join e := by
  -- what a step asks of a draft is what joining it to the empty draft asks
  cases s with
  | condition c =>
    simp only [apply_condition]
    constructor
    · rintro ⟨hl, rfl⟩
      refine ⟨_, ⟨rfl, rfl⟩, ⟨fun h => ?_, fun h => ?_, fun j k _ hk => ?_⟩,
        by simp [Draft.join, Draft.start]⟩
      · rw [hl] at h
        cases h
      · cases h
      · cases hk
    · rintro ⟨e, ⟨-, rfl⟩, hj, rfl⟩
      refine ⟨?_, by simp [Draft.join, Draft.start]⟩
      cases hl : d.isLookup with
      | false => rfl
      | true => cases (hj.of_left hl).conditions
  | ancestor k =>
    simp only [apply_ancestor]
    constructor
    · rintro ⟨hl, hs, rfl⟩
      refine ⟨_, ⟨rfl, fun _ h => (by cases h), rfl⟩,
        ⟨fun h => ?_, fun h => ?_, fun i j hi hj => ?_⟩, by simp [Draft.join, Draft.start]⟩
      · rw [hl] at h
        cases h
      · cases h
      · cases hj
        exact hs i hi
    · rintro ⟨e, ⟨-, -, rfl⟩, hj, rfl⟩
      refine ⟨?_, fun j h => hj.ancestors j k h rfl, by simp [Draft.join, Draft.start]⟩
      cases hl : d.isLookup with
      | false => rfl
      | true => cases (hj.of_left hl).ancestor
  | lookup comparator keys =>
    simp only [apply_lookup]
    constructor
    · rintro ⟨hb, hq, ks, hks, rfl⟩
      refine ⟨_, ⟨Draft.start_isBlank _ _, hq, ks, hks, rfl⟩, Draft.joinable_of_isBlank _ hb, ?_⟩
      simp [Draft.join, Draft.start, hb.keys]
    · rintro ⟨e, ⟨-, hq, ks, hks, rfl⟩, hj, rfl⟩
      have hb := hj.of_right rfl
      exact ⟨hb, hq, ks, hks, by simp [Draft.join, Draft.start, hb.keys]⟩

end FilterStep

namespace FilterSteps

variable (kind : Text) (query : Option Text)

theorem run_eq_ok_iff (steps : FilterSteps) (d d' : Draft) :
    run steps d = .ok d' ↔
      ∃ e, run steps (.start kind query) = .ok e ∧ d.Joinable e ∧ d' = d.join e := by
  induction steps generalizing d d' with
  | nil =>
    simp only [run_nil, Except.ok.injEq, exists_eq_left']
    rw [Draft.join_start, eq_comm]
    exact (and_iff_right (Draft.joinable_comm
      (Draft.joinable_of_isBlank d (Draft.start_isBlank kind query)))).symm
  | cons step rest ih =>
    cases step with
    | error f => simp [run_cons, bind, Except.bind]
    | ok s =>
      have unfolded (d d' : Draft) : run (.ok s :: rest) d = .ok d' ↔
          ∃ d₁, s.apply d = .ok d₁ ∧ run rest d₁ = .ok d' := bind_eq_ok_iff _ _ _
      simp only [unfolded, FilterStep.apply_eq_ok_iff kind query s d]
      constructor
      · rintro ⟨_, ⟨e, hs, hde, rfl⟩, hr⟩
        obtain ⟨f, hf, hdf, rfl⟩ := (ih _ _).mp hr
        obtain ⟨hef, hd⟩ := (Draft.joinable_assoc d e f).mp ⟨hde, hdf⟩
        exact ⟨e.join f, ⟨e, hs, (ih e _).mpr ⟨f, hf, hef, rfl⟩⟩, hd, Draft.join_assoc d e f⟩
      · rintro ⟨_, ⟨e, hs, hr⟩, hd, rfl⟩
        obtain ⟨f, hf, hef, rfl⟩ := (ih _ _).mp hr
        obtain ⟨hde, hdf⟩ := (Draft.joinable_assoc d e f).mpr ⟨hef, hd⟩
        exact ⟨d.join e, ⟨e, hs, hde, rfl⟩,
          (ih _ _).mpr ⟨f, hf, hdf, (Draft.join_assoc d e f).symm⟩⟩

end FilterSteps
end RecordStore
