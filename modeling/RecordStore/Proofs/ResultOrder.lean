import RecordStore.Proofs.DeletionResults

/-!
# The order of a result clause

A result clause is read from left to right. In what order its expressions stand matters in one case
only: where the number of rows is asked for beside the alias, which stands for the rows themselves.
Behind the alias the number is given out, and before it the two are turned down.
-/

set_option autoImplicit false

namespace RecordStore

namespace Candidate

variable {c : Candidate}

def isAliasField (c : Candidate) : Expr → Bool
  | .field path => c.isAlias path
  | _ => false

/-- The member that a result expression leads to, with the path behind the alias. -/
def projected (c : Candidate) : Expr → Option (List Text × Member)
  | .field path =>
    if c.isAlias path then none
    else (c.member path).toOption.map fun m => (c.statement.stripAlias path, m)
  | _ => none

def isRow (c : Candidate) (x : Expr) : Bool := c.isAliasField x || (c.projected x).isSome

def isBeyondKey (p : List Text × Member) : Bool := p.1.length > 1 || !p.2.traits.isPrimary

/-- The form of results that stand for rows, behind those that have settled a form. -/
def rowForm (c : Candidate) (form : Option ResultForm) (results : List Expr) : ResultForm :=
  if (results.filterMap c.projected).any isBeyondKey then .projection
  else form.getD (if results.isEmpty then .whole else .keysOnly)

def CountsLast (c : Candidate) (results : List Expr) : Prop :=
  results.Pairwise fun x y => c.isCountCall x = true → c.isAliasField y = false

instance (c : Candidate) (results : List Expr) : Decidable (c.CountsLast results) :=
  inferInstanceAs (Decidable (List.Pairwise _ results))

/-- The result clauses that come to the number of rows. -/
structure Counts (c : Candidate) (results : List Expr) : Prop where
  all : ∀ x ∈ results, c.isCountCall x = true ∨ c.isAliasField x = true
  any : ∃ x ∈ results, c.isCountCall x = true
  last : c.CountsLast results

/-- Whether results ask for the number of rows beside the alias, and for nothing else. -/
structure Mixes (c : Candidate) (results : List Expr) : Prop where
  all : ∀ x ∈ results, c.isCountCall x = true ∨ c.isAliasField x = true
  counts : ∃ x ∈ results, c.isCountCall x = true
  rows : ∃ x ∈ results, c.isAliasField x = true

def arranged (c : Candidate) (results : List Expr) : Candidate :=
  { c with statement := { c.statement with results := results } }

theorem counts_arranged_iff (results results' : List Expr) :
    (c.arranged results).Counts results' ↔ c.Counts results' :=
  ⟨fun h => ⟨h.all, h.any, h.last⟩, fun h => ⟨h.all, h.any, h.last⟩⟩

theorem not_isCountCall_of_isAliasField {x : Expr} (h : c.isAliasField x = true) :
    c.isCountCall x = false := by
  cases x <;> first | rfl | cases h

theorem isRow_of_isAliasField {x : Expr} (h : c.isAliasField x = true) : c.isRow x = true := by
  rw [isRow, h, Bool.true_or]

theorem isRow_of_projected {x : Expr} {p : List Text × Member} (h : c.projected x = some p) :
    c.isRow x = true := by
  rw [isRow, h, Option.isSome_some, Bool.or_true]

theorem isRow_of_isCountCall {x : Expr} (h : c.isCountCall x = true) : c.isRow x = false := by
  cases x <;> first | rfl | cases h

theorem projected_of_isAliasField {x : Expr} (h : c.isAliasField x = true) :
    c.projected x = none := by
  cases x with
  | field path => exact if_pos h
  | _ => rfl

theorem counts_cons_of_count {x : Expr} {rest : List Expr} (h : c.isCountCall x = true) :
    c.Counts (x :: rest) ↔ ∀ y ∈ rest, c.isCountCall y = true := by
  constructor
  · rintro ⟨all, -, last⟩ y hy
    have own := (List.pairwise_cons.mp last).1 y hy h
    exact (all y (.tail _ hy)).resolve_right (by simp [own])
  · intro all
    have apart (y : Expr) (hy : y ∈ rest) : c.isAliasField y = false := by
      by_contra own
      have row := not_isCountCall_of_isAliasField (Bool.eq_true_of_not_eq_false own)
      rw [all y hy] at row
      cases row
    refine ⟨List.forall_mem_cons.mpr ⟨.inl h, fun y hy => .inl (all y hy)⟩, ⟨x, .head _, h⟩, ?_⟩
    refine List.pairwise_cons.mpr ⟨fun y hy _ => apart y hy, ?_⟩
    exact List.pairwise_of_forall_mem_list fun _ _ y hy _ => apart y hy

theorem counts_cons_of_alias {x : Expr} {rest : List Expr} (h : c.isAliasField x = true) :
    c.Counts (x :: rest) ↔ c.Counts rest := by
  have row := not_isCountCall_of_isAliasField h
  constructor
  · rintro ⟨all, ⟨y, hy, counts⟩, last⟩
    refine ⟨(List.forall_mem_cons.mp all).2, ⟨y, ?_, counts⟩, (List.pairwise_cons.mp last).2⟩
    refine (List.mem_cons.mp hy).resolve_left ?_
    rintro rfl
    rw [row] at counts
    cases counts
  · rintro ⟨all, ⟨y, hy, counts⟩, last⟩
    refine ⟨List.forall_mem_cons.mpr ⟨.inr h, all⟩, ⟨y, .tail _ hy, counts⟩, ?_⟩
    refine List.pairwise_cons.mpr ⟨fun _ _ counts => ?_, last⟩
    rw [row] at counts
    cases counts

theorem rowForm_cons_alias {x : Expr} (rest : List Expr) (form : Option ResultForm)
    (h : c.isAliasField x = true) :
    c.rowForm form (x :: rest) = c.rowForm (some (form.getD .keysOnly)) rest := by
  simp only [rowForm, List.filterMap_cons, projected_of_isAliasField h, List.isEmpty_cons]
  rfl

theorem rowForm_cons_member {x : Expr} {p : List Text × Member} (rest : List Expr)
    (form : Option ResultForm) (h : c.projected x = some p) :
    c.rowForm form (x :: rest) =
      c.rowForm (some (if isBeyondKey p then .projection else form.getD .keysOnly)) rest := by
  simp only [rowForm, List.filterMap_cons, h, List.any_cons, List.isEmpty_cons]
  cases isBeyondKey p
  · rfl
  · simp

theorem getD_ne_count {form : Option ResultForm} (hf : form ≠ some .count) :
    some (form.getD .keysOnly) ≠ some ResultForm.count := by
  cases form with
  | none => simp
  | some f => simpa using hf

section Reading

variable {form : Option ResultForm} {projection : List (List Text × Member)} {x : Expr}
  {rest results : List Expr} {plan : ResultPlan}

theorem readResults_cons_count (h : c.isCountCall x = true) :
    c.readResults form [] (x :: rest) = c.readResults (some .count) [] rest := by
  cases x with
  | call name receiver args =>
    have counts : c.isCount name args = true := h
    simp [readResults, counts]
  | _ => cases h

theorem readResults_cons_alias (hf : form ≠ some .count) (h : c.isAliasField x = true) :
    c.readResults form projection (x :: rest) =
      c.readResults (some (form.getD .keysOnly)) projection rest := by
  cases x with
  | field path =>
    have own : c.isAlias path = true := h
    simp [readResults, hf, own]
  | _ => cases h

theorem readResults_cons_member (hf : form ≠ some .count) {p : List Text × Member}
    (h : c.projected x = some p) :
    c.readResults form projection (x :: rest) =
      c.readResults (some (if isBeyondKey p then .projection else form.getD .keysOnly))
        (projection ++ [p]) rest := by
  cases x with
  | field path =>
    rw [projected] at h
    by_cases own : c.isAlias path = true
    · rw [if_pos own] at h
      cases h
    · rw [if_neg own] at h
      cases found : c.member path with
      | error f =>
        rw [found] at h
        cases h
      | ok m =>
        rw [found] at h
        cases h
        simp only [readResults, if_neg hf, if_neg own, found]
        rfl
  | _ => cases h

theorem readResults_cons_refused (hx : c.isRow x = false)
    (hc : c.isCountCall x = true → projection ≠ []) :
    ∃ f, c.readResults form projection (x :: rest) = .error f := by
  cases x with
  | call name receiver args =>
    rw [readResults]
    by_cases counts : c.isCount name args = true
    · have held : (!projection.isEmpty) = true := by simpa using hc counts
      exact ⟨_, by rw [if_neg (by simp [counts]), if_pos held]⟩
    · exact ⟨_, if_pos (by simpa using counts)⟩
  | field path =>
    simp only [isRow, isAliasField, projected, Bool.or_eq_false_iff] at hx
    obtain ⟨own, unknown⟩ := hx
    simp only [readResults, own, Bool.false_eq_true, if_false] at unknown ⊢
    split
    · exact ⟨_, rfl⟩
    · cases found : c.member path with
      | error f => exact ⟨f, rfl⟩
      | ok m => simp [found, Except.toOption] at unknown
  | _ => exact ⟨_, rfl⟩

theorem readResults_counted :
    c.readResults (some .count) [] results = .ok plan ↔
      (∀ x ∈ results, c.isCountCall x = true) ∧ plan = ⟨.count, []⟩ := by
  induction results with
  | nil =>
    refine ⟨fun h => ⟨nofun, (Except.ok.inj h).symm⟩, ?_⟩
    rintro ⟨-, rfl⟩
    rfl
  | cons x rest ih =>
    by_cases counts : c.isCountCall x = true
    · rw [readResults_cons_count counts, ih, List.forall_mem_cons]
      simp [counts]
    · have refused : ∃ f, c.readResults (some .count) [] (x :: rest) = .error f := by
        cases x with
        | call name receiver args =>
          have counts : c.isCount name args = false := by simpa [isCountCall] using counts
          exact ⟨_, by rw [readResults, if_pos (by rw [counts]; rfl)]⟩
        | field path => exact ⟨_, by rw [readResults, if_pos rfl]⟩
        | _ => exact ⟨_, rfl⟩
      obtain ⟨f, refused⟩ := refused
      simp [refused, counts]

theorem readResults_eq_ok_iff (hf : form ≠ some .count) :
    c.readResults form projection results = .ok plan ↔
      ((∀ x ∈ results, c.isRow x = true) ∧
        plan = ⟨c.rowForm form results, projection ++ results.filterMap c.projected⟩) ∨
      (projection = [] ∧ c.Counts results ∧ plan = ⟨.count, []⟩) := by
  -- a call for the number settles the form, and any other expression leaves it to the rest
  induction results generalizing form projection with
  | nil =>
    have none : ¬ c.Counts [] := fun h => by
      obtain ⟨_, hx, -⟩ := h.any
      cases hx
    constructor
    · intro h
      cases h
      exact .inl ⟨nofun, by simp [rowForm]⟩
    · rintro (⟨-, rfl⟩ | ⟨-, counts, -⟩)
      · simp [readResults, rowForm]
      · exact absurd counts none
  | cons x rest ih =>
    rw [List.forall_mem_cons]
    by_cases counts : c.isCountCall x = true
    · rw [isRow_of_isCountCall counts, counts_cons_of_count counts]
      cases projection with
      | nil =>
        rw [readResults_cons_count counts, readResults_counted]
        simp
      | cons p ps =>
        obtain ⟨f, refused⟩ : ∃ f, c.readResults form (p :: ps) (x :: rest) = .error f :=
          readResults_cons_refused (isRow_of_isCountCall counts) fun _ => List.cons_ne_nil p ps
        simp [refused]
    by_cases own : c.isAliasField x = true
    · rw [readResults_cons_alias hf own, ih (getD_ne_count hf), isRow_of_isAliasField own,
        counts_cons_of_alias own, rowForm_cons_alias rest form own]
      simp [projected_of_isAliasField own]
    have unlike : ¬ c.Counts (x :: rest) := fun h => (h.all x (.head _)).elim counts own
    cases found : c.projected x with
    | none =>
      have row : c.isRow x = false := by simp [isRow, own, found]
      obtain ⟨f, refused⟩ : ∃ f, c.readResults form projection (x :: rest) = .error f :=
        readResults_cons_refused row fun h => absurd h counts
      simp [refused, row, unlike]
    | some p =>
      have kept : some (if isBeyondKey p then .projection else form.getD .keysOnly) ≠
          some ResultForm.count := by
        split
        · simp
        · exact getD_ne_count hf
      rw [readResults_cons_member hf found, ih kept, isRow_of_projected found,
        rowForm_cons_member rest form found]
      simp [found, unlike]

theorem readResults_counted_alias
    (all : ∀ x ∈ results, c.isCountCall x = true ∨ c.isAliasField x = true)
    (own : ∃ x ∈ results, c.isAliasField x = true) :
    c.readResults (some .count) [] results =
      .error (.unsupportedFeature .aggregateWithRows c.query) := by
  induction results with
  | nil =>
    obtain ⟨_, hx, -⟩ := own
    cases hx
  | cons x rest ih =>
    obtain ⟨either, all⟩ := List.forall_mem_cons.mp all
    rcases either with counts | here
    · rw [readResults_cons_count counts]
      obtain ⟨y, hy, own⟩ := own
      rcases List.mem_cons.mp hy with rfl | hy
      · rw [not_isCountCall_of_isAliasField own] at counts
        cases counts
      · exact ih all ⟨y, hy, own⟩
    · cases x with
      | field path => rw [readResults, if_pos rfl]
      | _ => cases here

/-- Where the alias stands behind a call for the number of rows, the two are turned down. -/
theorem readResults_of_not_countsLast (hf : form ≠ some .count)
    (all : ∀ x ∈ results, c.isCountCall x = true ∨ c.isAliasField x = true)
    (h : ¬ c.CountsLast results) :
    c.readResults form [] results = .error (.unsupportedFeature .aggregateWithRows c.query) := by
  induction results generalizing form with
  | nil => exact absurd List.Pairwise.nil h
  | cons x rest ih =>
    obtain ⟨own, all⟩ := List.forall_mem_cons.mp all
    rcases own with counts | own
    · rw [readResults_cons_count counts]
      refine readResults_counted_alias all ?_
      by_contra none
      refine h ((counts_cons_of_count counts).mpr fun y hy => ?_).last
      exact (all y hy).resolve_right fun own => none ⟨y, hy, own⟩
    · rw [readResults_cons_alias hf own]
      refine ih (getD_ne_count hf) all fun last => h (List.pairwise_cons.mpr ⟨?_, last⟩)
      intro y _ counts
      rw [not_isCountCall_of_isAliasField own] at counts
      cases counts

end Reading

theorem plan_arranged_eq_ok_iff (results : List Expr) (plan : ResultPlan) :
    (c.arranged results).plan = .ok plan ↔ c.checkClauses = .ok () ∧
      ((∀ x ∈ results, c.isRow x = true) ∧
          plan = ⟨c.rowForm none results, results.filterMap c.projected⟩ ∨
        c.Counts results ∧ plan = ⟨.count, []⟩) := by
  have read : (c.arranged results).readResults none [] results = .ok plan ↔ _ :=
    readResults_eq_ok_iff nofun
  simp only [true_and, List.nil_append, counts_arranged_iff] at read
  rw [(c.arranged results).plan_eq, bind_eq_ok_iff]
  constructor
  · rintro ⟨⟨⟩, checked, h⟩
    exact ⟨checked, read.mp h⟩
  · rintro ⟨checked, h⟩
    exact ⟨(), checked, read.mpr h⟩

section Order

variable {results results' : List Expr}

theorem rowForm_of_perm (h : results.Perm results') :
    c.rowForm none results = c.rowForm none results' := by
  have empty : results.isEmpty = results'.isEmpty := by
    rw [Bool.eq_iff_iff, List.isEmpty_iff_length_eq_zero, List.isEmpty_iff_length_eq_zero,
      h.length_eq]
  simp only [rowForm, (h.filterMap c.projected).any_eq, empty]

theorem Counts.of_perm (h : results.Perm results') (hm : ¬ c.Mixes results)
    (counts : c.Counts results) : c.Counts results' := by
  obtain ⟨all, ⟨x, hx, own⟩, -⟩ := counts
  refine ⟨fun y hy => all y (h.mem_iff.mpr hy), ⟨x, h.mem_iff.mp hx, own⟩, ?_⟩
  refine List.pairwise_of_forall_mem_list fun _ _ y hy _ => ?_
  by_contra row
  exact hm ⟨all, ⟨x, hx, own⟩, ⟨y, h.mem_iff.mpr hy, by simpa using row⟩⟩

theorem Mixes.of_perm (h : results.Perm results') (hm : c.Mixes results) : c.Mixes results' := by
  obtain ⟨all, ⟨x, hx, counts⟩, ⟨y, hy, row⟩⟩ := hm
  exact ⟨fun z hz => all z (h.mem_iff.mpr hz), ⟨x, h.mem_iff.mp hx, counts⟩,
    ⟨y, h.mem_iff.mp hy, row⟩⟩

theorem plan_arranged_of_perm (h : results.Perm results') (hm : ¬ c.Mixes results)
    (planned : ∃ plan, (c.arranged results).plan = .ok plan) :
    ∃ plan, (c.arranged results').plan = .ok plan := by
  obtain ⟨plan, planned⟩ := planned
  obtain ⟨checked, read⟩ := (plan_arranged_eq_ok_iff _ _).mp planned
  rcases read with ⟨rows, -⟩ | ⟨counts, -⟩
  · exact ⟨_, (plan_arranged_eq_ok_iff _ _).mpr
      ⟨checked, .inl ⟨fun x hx => rows x (h.mem_iff.mpr hx), rfl⟩⟩⟩
  · exact ⟨_, (plan_arranged_eq_ok_iff _ _).mpr ⟨checked, .inr ⟨counts.of_perm h hm, rfl⟩⟩⟩

theorem Counts.filterMap_projected (h : c.Counts results) : results.filterMap c.projected = [] := by
  refine List.filterMap_eq_nil_iff.mpr fun x hx => ?_
  rcases h.all x hx with counts | own
  · cases x <;> first | rfl | cases counts
  · exact projected_of_isAliasField own

theorem projection_of_plan {plan : ResultPlan} (h : (c.arranged results).plan = .ok plan) :
    plan.projection = results.filterMap c.projected := by
  obtain ⟨-, ⟨-, rfl⟩ | ⟨counts, rfl⟩⟩ := (plan_arranged_eq_ok_iff _ _).mp h
  · rfl
  · exact counts.filterMap_projected.symm

theorem form_of_perm {plan plan' : ResultPlan} (h : results.Perm results')
    (own : (c.arranged results).plan = .ok plan) (other : (c.arranged results').plan = .ok plan') :
    plan.form = plan'.form := by
  have apart {xs ys : List Expr} (perm : xs.Perm ys) (rows : ∀ x ∈ xs, c.isRow x = true)
      (counts : c.Counts ys) : False := by
    obtain ⟨x, hx, call⟩ := counts.any
    have row := rows x (perm.mem_iff.mpr hx)
    rw [isRow_of_isCountCall call] at row
    cases row
  obtain ⟨-, own⟩ := (plan_arranged_eq_ok_iff _ _).mp own
  obtain ⟨-, other⟩ := (plan_arranged_eq_ok_iff _ _).mp other
  rcases own with ⟨rows, rfl⟩ | ⟨counts, rfl⟩ <;> rcases other with ⟨rows', rfl⟩ | ⟨counts', rfl⟩
  · exact rowForm_of_perm h
  · exact (apart h rows counts').elim
  · exact (apart h.symm rows' counts).elim
  · rfl

theorem plan_of_mixes (hm : c.Mixes results) (checked : c.checkClauses = .ok ()) :
    (c.CountsLast results → (c.arranged results).plan = .ok ⟨.count, []⟩) ∧
      (¬ c.CountsLast results →
        (c.arranged results).plan = .error (.unsupportedFeature .aggregateWithRows c.query)) := by
  constructor
  · intro last
    exact (plan_arranged_eq_ok_iff _ _).mpr ⟨checked, .inr ⟨⟨hm.all, hm.counts, last⟩, rfl⟩⟩
  · intro mixed
    have checked : (c.arranged results).checkClauses = .ok () := checked
    rw [(c.arranged results).plan_eq, checked]
    exact (c.arranged results).readResults_of_not_countsLast nofun hm.all mixed

end Order

/-- Whether a result clause can be planned does not depend on the order of its expressions, unless
it asks for the number of rows beside the alias alone; then it can be planned in those orders in
which the alias comes first. Plans for two orders have one form, and project the members in the
order of the expressions. -/
theorem plan_of_perm (c : Candidate) {results : List Expr}
    (h : c.statement.results.Perm results) :
    let other := c.arranged results
    (¬ c.Mixes c.statement.results →
      ((∃ plan, c.plan = .ok plan) ↔ ∃ plan, other.plan = .ok plan)) ∧
    (c.Mixes c.statement.results → c.checkClauses = .ok () →
      (c.CountsLast results → other.plan = .ok ⟨.count, []⟩) ∧
      (¬ c.CountsLast results →
        other.plan = .error (.unsupportedFeature .aggregateWithRows c.query))) ∧
    ∀ plan plan', c.plan = .ok plan → other.plan = .ok plan' →
      plan.form = plan'.form ∧ plan.projection.Perm plan'.projection ∧
        plan.projection = c.statement.results.filterMap c.projected ∧
        plan'.projection = results.filterMap c.projected := by
  intro other
  have own : c = c.arranged c.statement.results := rfl
  refine ⟨fun unmixed => ⟨?_, ?_⟩, fun mixed => plan_of_mixes (mixed.of_perm h), ?_⟩
  · exact plan_arranged_of_perm h unmixed
  · exact plan_arranged_of_perm h.symm fun mixed => unmixed (mixed.of_perm h.symm)
  · intro plan plan' planned planned'
    have projection : plan.projection = c.statement.results.filterMap c.projected :=
      projection_of_plan planned
    have projection' := projection_of_plan planned'
    refine ⟨form_of_perm h planned planned', ?_, projection, projection'⟩
    rw [projection, projection']
    exact h.filterMap c.projected

def doneAndNumber : Candidate where
  statement := { Database.deleteDone with
    kind := .select
    aliasName := some "this"
    results := [.field ["this"], Statement.countCall] }
  mapping := Registry.mappingOf (.record "Task") ⟨"Task", [("id", false), ("done", false)]⟩
    [.plain ⟨"id", .integer, true, false, none, none, false, false⟩,
      .plain ⟨"done", .flag, false, false, none, none, false, false⟩] none

/-- The number is given out behind the alias, and turned down before it. -/
theorem plan_of_perm_doneAndNumber :
    doneAndNumber.statement.results.Perm [Statement.countCall, .field ["this"]] ∧
      doneAndNumber.plan = .ok ⟨.count, []⟩ ∧
      (doneAndNumber.arranged [Statement.countCall, .field ["this"]]).plan =
        .error (.unsupportedFeature .aggregateWithRows none) := by
  have swapped : doneAndNumber.statement.results.Perm [Statement.countCall, .field ["this"]] :=
    .swap _ _ _
  have mixed : doneAndNumber.Mixes doneAndNumber.statement.results := by
    exact ⟨by decide, ⟨_, .tail _ (.head _), rfl⟩, ⟨_, .head _, rfl⟩⟩
  refine ⟨swapped, ?_, ?_⟩
  · exact ((doneAndNumber.plan_of_perm (.refl _)).2.1 mixed rfl).1 (by decide)
  · exact ((doneAndNumber.plan_of_perm swapped).2.1 mixed rfl).2 (by decide)

end Candidate
end RecordStore
