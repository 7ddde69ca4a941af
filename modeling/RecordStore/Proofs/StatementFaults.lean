import RecordStore.Proofs.Rejections

/-!
# Faults of statements

Before the store is asked for anything, a statement is turned down or a value in it is misused.
Nothing else is raised by its class, its clauses, its filter, its ordering and its range.
-/

set_option autoImplicit false

namespace RecordStore

open Attempt

/-- Whether all that can go wrong is that something is turned down, or that a value is misused. -/
def TurnsDown {α : Type} (x : Except Fault α) : Prop :=
  ∀ f, x = .error f → f.isRejection = true ∨ ∃ u, f = .misuse u

section TurnsDown

variable {α β : Type}

theorem turnsDown_ok (a : α) : TurnsDown (.ok a : Except Fault α) := nofun

theorem turnsDown_error {f : Fault} (h : f.isRejection = true) :
    TurnsDown (.error f : Except Fault α) := by
  rintro g ⟨⟩
  exact .inl h

theorem Misuses.turnsDown {x : Except Fault α} (h : Misuses x) : TurnsDown x :=
  fun f failed => .inr (h f failed)

theorem turnsDown_bind {x : Except Fault α} {f : α → Except Fault β} (hx : TurnsDown x)
    (hf : ∀ a, TurnsDown (f a)) : TurnsDown (x >>= f) := by
  intro e h
  rcases (bind_eq_error_iff x f e).mp h with h | ⟨a, -, h⟩
  · exact hx e h
  · exact hf a e h

theorem turnsDown_forM {f : α → Except Fault Unit} (hf : ∀ a, TurnsDown (f a)) (as : List α) :
    TurnsDown (as.forM f) := by
  induction as with
  | nil => exact turnsDown_ok ()
  | cons a rest ih => exact turnsDown_bind (hf a) fun _ => ih

theorem turnsDown_foldlM {f : β → α → Except Fault β} {as : List α}
    (hf : ∀ b, ∀ a ∈ as, TurnsDown (f b a)) (b : β) : TurnsDown (as.foldlM f b) := by
  induction as generalizing b with
  | nil => exact turnsDown_ok b
  | cons a rest ih =>
    rw [List.foldlM_cons]
    exact turnsDown_bind (hf b a (.head _)) fun b => ih (fun b a ha => hf b a (.tail _ ha)) b

theorem turnsDown_mapM_id {xs : List (Except Fault α)} (h : ∀ x ∈ xs, TurnsDown x) :
    TurnsDown (xs.mapM id) := by
  induction xs with
  | nil => exact turnsDown_ok []
  | cons x rest ih =>
    obtain ⟨first, others⟩ := List.forall_mem_cons.mp h
    rw [List.mapM_cons]
    exact turnsDown_bind first fun _ => turnsDown_bind (ih others) fun _ => turnsDown_ok _

end TurnsDown

theorem Key.ofToken_eq_error {t : Text} {f : Fault} (h : ofToken t = .error f) :
    (∃ problem, f = .badKey problem) ∨ ∃ u, f = .misuse u := by
  simp only [ofToken] at h
  split at h
  · rw [ofJsonText] at h
    split at h
    · cases h
      exact .inr ⟨_, rfl⟩
    · split at h
      · rename_i items _
        cases made : ofItems (Quoted.text t) items with
        | error problem =>
          rw [made] at h
          cases h
          exact .inl ⟨problem, rfl⟩
        | ok k =>
          rw [made] at h
          cases h
      · cases h
        exact .inl ⟨_, rfl⟩
  · cases h
    exact .inl ⟨_, rfl⟩

namespace Value

theorem misuses_negated (v : Value) : Misuses v.negated := by
  have text (t : Text) : Misuses (negated.ofText t) := by
    rw [negated.ofText, Text.integer]
    cases t.toInt? with
    | none => exact misuses_error _
    | some n => exact misuses_ok _
  cases v with
  | decimal d =>
    simp only [negated]
    split
    · exact misuses_error _
    · split
      · exact misuses_ok _
      · exact misuses_error _
  | text t => exact text t
  | bytes bs => exact text _
  | byteArray bs => exact text _
  | real x => exact misuses_ok _
  | integer n => exact misuses_ok _
  | flag b => exact misuses_ok _
  | _ => exact misuses_error _

mutual

theorem misuses_stored (v : Value) : Misuses v.stored := by
  cases v with
  | decimal d =>
    rw [stored]
    split
    · exact misuses_ok _
    · exact misuses_error _
  | collection kind items =>
    rw [stored]
    intro f failed
    refine misuses_storedEach items f ?_
    cases kept : storedEach items with
    | error g =>
      rw [kept] at failed
      exact congrArg Except.error (Except.error.inj failed)
    | ok items =>
      rw [kept] at failed
      cases failed
  | _ =>
    simp only [stored]
    exact misuses_ok _

theorem misuses_storedEach (vs : List Value) : Misuses (storedEach vs) := by
  cases vs with
  | nil =>
    rw [storedEach]
    exact misuses_ok _
  | cons v rest =>
    rw [storedEach]
    exact misuses_bind (misuses_stored v) fun _ =>
      misuses_bind (misuses_storedEach rest) fun _ => misuses_ok _

end

end Value

namespace Candidate

variable (c : Candidate) (b : Bindings)

theorem turnsDown_invalid {α : Type} (m : Mistake) : TurnsDown (c.invalid m : Except Fault α) :=
  turnsDown_error rfl

theorem turnsDown_unsupported {α : Type} (f : Feature) :
    TurnsDown (c.unsupported f : Except Fault α) := turnsDown_error rfl

theorem turnsDown_shown {α : Type} {shown : Except Fault Text} (hs : Misuses shown)
    (m : Text → Mistake) :
    TurnsDown (shown >>= fun t => c.invalid (m t) : Except Fault α) :=
  turnsDown_bind hs.turnsDown fun _ => c.turnsDown_invalid _

theorem turnsDown_unsupportedCall {α : Type} (name : Text) (call : Expr) :
    TurnsDown (unsupportedCall c b name call : Except Fault α) :=
  turnsDown_bind (call.misuses_text b.heap.misuses_shown).turnsDown fun _ =>
    c.turnsDown_unsupported _

theorem turnsDown_member (path : List Text) : TurnsDown (c.member path) := by
  have descend (query : Option Text) (m : Option Member) (path : List Text) :
      TurnsDown (ClassMapping.descend query m path) := by
    induction path generalizing m with
    | nil => cases m <;> exact turnsDown_ok _
    | cons name rest ih =>
      cases m with
      | none => exact turnsDown_ok _
      | some m =>
        rw [ClassMapping.descend]
        split
        · exact turnsDown_error rfl
        · exact ih _
  have found : TurnsDown (c.mapping.memberAt (c.statement.stripAlias path) c.query) := by
    unfold ClassMapping.memberAt
    split
    · exact (misuses_error _).turnsDown
    · exact descend _ _ _
  refine turnsDown_bind found fun m => ?_
  cases m with
  | none => exact turnsDown_error rfl
  | some m => exact turnsDown_ok _

theorem turnsDown_parameterValue (name : Option Text) (position : Option Int) :
    TurnsDown (parameterValue c b name position) := by
  simp only [parameterValue]
  split
  · exact turnsDown_ok _
  · exact turnsDown_ok _
  · exact turnsDown_ok _
  · exact c.turnsDown_shown (Expr.misuses_parameterText name position) _

theorem turnsDown_operandValue (x : Expr) : TurnsDown (operandValue c b x) := by
  have composite (l : Expr) (op : Operator) {r : Except Fault Text} (hr : Misuses r) :
      TurnsDown (compositeOperand c l op r) :=
    turnsDown_bind hr.turnsDown fun _ => c.turnsDown_unsupported _
  have form (x : Expr) := x.misuses_text b.heap.misuses_shown
  unfold operandValue
  split
  · split
    · exact turnsDown_ok _
    · exact c.turnsDown_unsupported _
  · exact turnsDown_ok _
  · exact turnsDown_parameterValue c b _ _
  · split
    · exact (Value.misuses_negated _).turnsDown
    · exact composite _ _ (misuses_ok _)
  · exact composite _ _ (misuses_ok _)
  · exact composite _ _ (form _)
  · exact composite _ _ (form _)
  · exact composite _ _ (form _)
  · split
    · exact turnsDown_ok _
    · exact turnsDown_unsupportedCall c b _ _
  · exact c.turnsDown_unsupported _

theorem turnsDown_ofToken {α : Type} {t : Text} {f : Fault} (token : Key.ofToken t = .error f)
    (other : ∀ problem, f ≠ .badKey problem) : TurnsDown (.error f : Except Fault α) := by
  obtain ⟨problem, rfl⟩ | ⟨u, rfl⟩ := Key.ofToken_eq_error token
  · exact absurd rfl (other problem)
  · exact (misuses_error u).turnsDown

theorem turnsDown_keyOf (v : Value) (kind : Text) : TurnsDown (keyOf c b v kind) := by
  unfold keyOf
  split
  · exact turnsDown_ok _
  · exact turnsDown_ok _
  · split
    · exact turnsDown_ok _
    · exact turnsDown_ok _
    · rename_i other token
      exact turnsDown_ofToken token other
  · exact turnsDown_ok _
  · exact c.turnsDown_shown (b.heap.misuses_shown _) _

theorem turnsDown_parentKey (v : Value) : TurnsDown (parentKey c b v) := by
  unfold parentKey
  split
  · exact turnsDown_ok _
  · exact turnsDown_ok _
  · split
    · exact turnsDown_ok _
    · exact c.turnsDown_invalid _
    · rename_i other token
      exact turnsDown_ofToken token other
  · exact c.turnsDown_shown (b.heap.misuses_shown _) _

theorem turnsDown_conditionValue (m : Member) (v : Value) : TurnsDown (c.conditionValue m v) := by
  unfold conditionValue
  split
  · exact c.turnsDown_invalid _
  · split
    · split
      · exact turnsDown_ok _
      · exact c.turnsDown_invalid _
      · rename_i other token
        exact turnsDown_ofToken token other
    · exact turnsDown_ok _
  · exact (Value.misuses_stored _).turnsDown

theorem turnsDown_relatedKey (m : Member) (related : ClassMapping) (v : Value) :
    TurnsDown (relatedKey c b m related v) := by
  have identity : TurnsDown (relatedIdentity c b related v) := by
    unfold relatedIdentity
    split
    · exact turnsDown_ok _
    · exact turnsDown_ok _
    · exact turnsDown_ok _
    · exact turnsDown_ok _
    · exact turnsDown_ok _
    · split
      · exact c.turnsDown_shown (b.heap.misuses_shown _) _
      · exact c.turnsDown_shown (b.heap.misuses_shown _) _
      · exact turnsDown_ok _
  refine turnsDown_bind identity fun w => turnsDown_bind (turnsDown_keyOf c b w _) fun k => ?_
  cases k with
  | none => exact turnsDown_ok _
  | some k =>
    dsimp only
    split
    · exact turnsDown_ok _
    · exact c.turnsDown_invalid _

end Candidate

def StepTurnsDown (x : Except Fault FilterStep) : Prop :=
  ∀ d : Draft, TurnsDown (x >>= FilterStep.apply d)

section Steps

theorem stepTurnsDown_bind {α : Type} {x : Except Fault α} {f : α → Except Fault FilterStep}
    (hx : TurnsDown x) (hf : ∀ a, StepTurnsDown (f a)) : StepTurnsDown (x >>= f) := by
  intro d
  rw [bind_assoc]
  exact turnsDown_bind hx fun a => hf a d

theorem stepTurnsDown_error {f : Fault} (h : f.isRejection = true) : StepTurnsDown (.error f) :=
  fun _ => turnsDown_error h

theorem stepTurnsDown_condition (condition : Condition) :
    StepTurnsDown (.ok (.condition condition)) := by
  intro d
  show TurnsDown (d.addCondition condition)
  rw [Draft.addCondition]
  split
  · exact turnsDown_error rfl
  · exact turnsDown_ok _

theorem stepTurnsDown_ancestor (k : Key) : StepTurnsDown (.ok (.ancestor k)) := by
  intro d
  show TurnsDown (d.setAncestor k)
  rw [Draft.setAncestor]
  split
  · exact turnsDown_error rfl
  · split
    · exact turnsDown_ok _
    · rename_i present _
      split
      · exact turnsDown_ok _
      · exact turnsDown_bind present.misuses_pathText.turnsDown fun _ =>
          turnsDown_bind k.misuses_pathText.turnsDown fun _ => turnsDown_error rfl

theorem stepTurnsDown_lookup (comparator : Comparator) {keys : List (Except Fault (Option Key))}
    (h : ∀ k ∈ keys, TurnsDown k) : StepTurnsDown (.ok (.lookup comparator keys)) := by
  intro d
  show TurnsDown (FilterStep.apply d (.lookup comparator keys))
  rw [FilterStep.apply]
  split
  · exact turnsDown_error rfl
  split
  · exact turnsDown_error rfl
  rw [Draft.startLookup]
  split
  · exact turnsDown_error rfl
  · exact turnsDown_bind (turnsDown_mapM_id h) fun _ => turnsDown_ok _

end Steps

namespace Candidate

variable (c : Candidate) (b : Bindings)

theorem stepTurnsDown_ancestorStep (comparator : Comparator) (key : Option Key) :
    StepTurnsDown (c.ancestorStep comparator key) := by
  unfold ancestorStep
  split
  · exact stepTurnsDown_error rfl
  · cases key with
    | none => exact stepTurnsDown_error rfl
    | some k => exact stepTurnsDown_ancestor k

theorem stepTurnsDown_relationStep (m : Member) (className : ClassName) (comparator : Comparator)
    (v : Value) : StepTurnsDown (relationStep c b m className comparator v) := by
  rw [relationStep]
  cases b.registry.get? className with
  | none => exact stepTurnsDown_error rfl
  | some related =>
    refine stepTurnsDown_bind (turnsDown_relatedKey c b m related v) fun key => ?_
    split
    · cases key with
      | none => exact stepTurnsDown_error rfl
      | some k => exact c.stepTurnsDown_ancestorStep comparator (some k)
    split
    · exact stepTurnsDown_error rfl
    · cases key with
      | none => exact stepTurnsDown_error rfl
      | some k =>
        dsimp only
        split
        · exact stepTurnsDown_error rfl
        · exact stepTurnsDown_condition _

theorem stepTurnsDown_primaryStep (comparator : Comparator) (v : Value) :
    StepTurnsDown (primaryStep c b comparator v) := by
  have single (v : Value) : StepTurnsDown (do
      let k ← keyOf c b v c.mapping.kind
      return .condition ⟨keyProperty, comparator, Value.ofKey? k⟩) :=
    stepTurnsDown_bind (turnsDown_keyOf c b v _) fun _ => stepTurnsDown_condition _
  cases v with
  | collection kind items =>
    refine stepTurnsDown_lookup comparator fun k hk => ?_
    obtain ⟨item, -, rfl⟩ := List.mem_map.mp hk
    exact turnsDown_keyOf c b item _
  | _ => exact single _

theorem stepTurnsDown_memberStep (m : Member) (comparator : Comparator) (v : Value) :
    StepTurnsDown (memberStep c b m comparator v) := by
  rw [memberStep]
  split
  · exact stepTurnsDown_relationStep c b m _ comparator v
  split
  · exact stepTurnsDown_bind (turnsDown_parentKey c b v) fun k =>
      c.stepTurnsDown_ancestorStep comparator k
  split
  · exact stepTurnsDown_primaryStep c b comparator v
  · exact stepTurnsDown_bind (c.turnsDown_conditionValue m v) fun _ => stepTurnsDown_condition _

theorem turnsDown_native (op : Operator) : TurnsDown (Operator.native (some op) c.query) := by
  rw [Operator.native]
  split
  · exact turnsDown_ok _
  · exact turnsDown_error rfl

theorem stepTurnsDown_comparisonStep (path : List Text) (op : Operator) (right : Expr) :
    StepTurnsDown (comparisonStep c b path op right) := by
  have operand (v : Value) : TurnsDown (Operator.checkOperand (some op) v c.query) := by
    rw [Operator.checkOperand]
    split
    · exact turnsDown_error rfl
    · exact turnsDown_ok _
  exact stepTurnsDown_bind (c.turnsDown_native op) fun comparator =>
    stepTurnsDown_bind (turnsDown_operandValue c b right) fun v =>
      stepTurnsDown_bind (operand v) fun _ =>
        stepTurnsDown_bind (c.turnsDown_member path) fun m =>
          stepTurnsDown_memberStep c b m comparator v

theorem stepsTurnDown_beginningSteps (path : List Text) (beginning : Text) :
    ∀ x ∈ beginningSteps c b path beginning, StepTurnsDown x := by
  have bound (op : Operator) (t : Text) :=
    stepTurnsDown_comparisonStep c b path op (.literal (.text t))
  rw [beginningSteps]
  refine List.forall_mem_cons.mpr ⟨bound _ _, ?_⟩
  split
  · exact List.forall_mem_singleton.mpr fun _ => (misuses_error _).turnsDown
  · exact List.forall_mem_nil _
  · exact List.forall_mem_singleton.mpr (bound _ _)

theorem turnsDown_beginning (name : Text) (call : Expr) (arg : Expr) :
    TurnsDown ((argumentValue c b name call arg).bind (c.beginning b name)) := by
  have argument : TurnsDown (argumentValue c b name call arg) := by
    unfold argumentValue
    split
    · exact turnsDown_ok _
    · exact turnsDown_parameterValue c b _ _
    · exact turnsDown_unsupportedCall c b _ _
  refine turnsDown_bind argument fun v => ?_
  have pattern (t : Text) : TurnsDown (c.beginningOf t) := by
    rw [beginningOf]
    split
    · split
      · exact turnsDown_ok _
      · exact c.turnsDown_unsupported _
    · exact c.turnsDown_unsupported _
  simp only [beginning]
  split
  · split
    · exact turnsDown_ok _
    · exact c.turnsDown_invalid _
  · split
    · exact pattern _
    · exact c.turnsDown_invalid _

theorem stepsTurnDown_callSteps (name : Text) (receiver : Expr) (args : List Expr) :
    ∀ x ∈ callSteps c b name receiver args, StepTurnsDown x := by
  have refused (call : Expr) :
      ∀ x ∈ [(unsupportedCall c b name call : Except Fault FilterStep)], StepTurnsDown x :=
    List.forall_mem_singleton.mpr
      (stepTurnsDown_bind (call.misuses_text b.heap.misuses_shown).turnsDown fun _ =>
        stepTurnsDown_error rfl)
  have compared (path : List Text) (right : Expr) :
      ∀ x ∈ [comparisonStep c b path .equal right], StepTurnsDown x :=
    List.forall_mem_singleton.mpr (stepTurnsDown_comparisonStep c b path .equal right)
  simp only [callSteps]
  split
  · split
    · split
      · exact compared _ _
      · exact compared _ _
      · exact refused _
    split
    · split
      · split
        · exact stepsTurnDown_beginningSteps c b _ _
        · rename_i f failed
          have known := turnsDown_beginning c b _ _ _ f failed
          exact List.forall_mem_singleton.mpr fun d g same => Except.error.inj same ▸ known
      · exact refused _
    · exact refused _
  · exact refused _

theorem stepsTurnDown_steps (x : Expr) : ∀ step ∈ steps c b x, StepTurnsDown step := by
  have refused (f : Feature) :
      ∀ x ∈ [(c.unsupported f : Except Fault FilterStep)], StepTurnsDown x :=
    List.forall_mem_singleton.mpr (stepTurnsDown_error rfl)
  fun_induction steps c b x with
  | case1 => exact List.forall_mem_nil _
  | case2 => exact List.forall_mem_nil _
  | case3 l r left right => exact List.forall_mem_append.mpr ⟨left, right⟩
  | case4 => exact refused _
  | case5 => exact refused _
  | case6 op l r other f failed =>
    exact List.forall_mem_singleton.mpr fun d g same =>
      Except.error.inj same ▸ c.turnsDown_native op f failed
  | case7 op r other comparator native path =>
    exact List.forall_mem_singleton.mpr (stepTurnsDown_comparisonStep c b path op r)
  | case8 op l r other comparator native field left right =>
    exact List.forall_mem_append.mpr ⟨left, right⟩
  | case9 => exact refused _
  | case10 op y other f failed =>
    refine List.forall_mem_singleton.mpr fun d g same => ?_
    rw [Operator.check] at failed
    split at failed
    · cases failed
      cases same
      exact .inl rfl
    · cases failed
  | case11 => exact refused _
  | case12 name receiver args => exact stepsTurnDown_callSteps c b name receiver args
  | case13 => exact refused _

theorem turnsDown_compileFilter (d : Draft) : TurnsDown (compileFilter c b d) := by
  refine turnsDown_bind (turnsDown_foldlM (fun d step hstep => ?_) d) fun d => ?_
  · exact stepsTurnDown_steps c b c.statement.filter step hstep d
  · exact turnsDown_bind (misuses_optionMapM fun k _ => k.misuses_pathText).turnsDown
      fun _ => turnsDown_ok _

theorem turnsDown_compileOrdering (d : Draft) : TurnsDown (c.compileOrdering d) := by
  have direction (v : Value) : TurnsDown (Direction.ofValue v) := by
    unfold Direction.ofValue
    split
    · exact turnsDown_ok _
    · exact turnsDown_ok _
    · exact turnsDown_ok _
    · exact turnsDown_ok _
    · exact (misuses_error _).turnsDown
  have clause (term : OrderTerm) : TurnsDown (c.sortClause term) := by
    refine turnsDown_bind (direction _) fun _ => turnsDown_bind (c.turnsDown_member _) fun m => ?_
    split
    · exact turnsDown_error rfl
    · exact turnsDown_ok _
  refine turnsDown_foldlM (fun d term _ => turnsDown_bind (clause term) fun clause => ?_) d
  rw [Draft.addSort]
  split
  · exact turnsDown_error rfl
  · exact turnsDown_ok _

theorem turnsDown_compile (plan : ResultPlan) : TurnsDown (c.compile b plan) :=
  turnsDown_bind (turnsDown_compileFilter c b _) fun _ =>
    turnsDown_bind (c.turnsDown_compileOrdering _) fun _ => turnsDown_ok _

theorem turnsDown_readResults (form : Option ResultForm) (projection : List (List Text × Member))
    (xs : List Expr) : TurnsDown (c.readResults form projection xs) := by
  fun_induction readResults c form projection xs with
  | case1 => exact turnsDown_ok _
  | case2 => exact turnsDown_error rfl
  | case3 => exact turnsDown_error rfl
  | case4 form projection name receiver args rest counts alone ih => exact ih
  | case5 => exact turnsDown_error rfl
  | case6 form projection path rest listed found ih => exact ih
  | case7 form projection path rest listed other ih =>
    exact turnsDown_bind (c.turnsDown_member path) fun m => ih m
  | case8 => exact turnsDown_error rfl

theorem turnsDown_plan : TurnsDown c.plan := by
  have source (x : Expr) : TurnsDown (c.checkSource x) := by
    rw [checkSource]
    split
    · exact (misuses_error _).turnsDown
    split
    · exact turnsDown_error rfl
    · exact turnsDown_ok _
  simp only [plan]
  split
  · exact turnsDown_error rfl
  split
  · exact turnsDown_error rfl
  · exact turnsDown_bind (turnsDown_forM source _) fun _ => c.turnsDown_readResults _ _ _

end Candidate

namespace Range

def Unshown (r : Range) (f : Fault) : Prop :=
  ∃ b, (r.first = some b ∨ r.stop = some b) ∧ b.text = .error f

variable {r : Range} {query : Option Text} {f : Fault}

theorem refuse_fails (h : r.refuse query = .error f) : f.isRejection = true ∨ r.Unshown f := by
  have unshown {b : Option Bound} (given : b = r.first ∨ b = r.stop) (h : boundText b = .error f) :
      r.Unshown f := by
    cases b with
    | none => cases h
    | some b => exact ⟨b, given.imp Eq.symm Eq.symm, h⟩
  rcases (bind_eq_error_iff _ _ _).mp h with h | ⟨_, -, h⟩
  · exact .inr (unshown (.inl rfl) h)
  rcases (bind_eq_error_iff _ _ _).mp h with h | ⟨_, -, h⟩
  · exact .inr (unshown (.inr rfl) h)
  · cases h
    exact .inl rfl

theorem window_fails {largest : Bound} (h : r.window largest query = .error f) :
    (f.isRejection = true ∨ ∃ u, f = .misuse u) ∨ r.Unshown f := by
  have negative (b : Option Bound) : TurnsDown (isNegative b) := by
    cases b with
    | none => exact turnsDown_ok _
    | some b => exact (b.misuses_isBelow 0).turnsDown
  have least (b : Bound) : Misuses (largest.least b) := largest.misuses_least b
  rcases (bind_eq_error_iff _ _ _).mp h with h | ⟨below, -, h⟩
  · exact .inl (negative _ f h)
  cases below with
  | true =>
    rcases (bind_eq_error_iff _ _ _).mp h with h | ⟨_, refused, -⟩
    · exact (refuse_fails h).imp_left .inl
    · exact absurd refused (r.refuse_ne_ok query _)
  | false =>
  rcases (bind_eq_error_iff _ _ _).mp h with h | ⟨below, -, h⟩
  · exact .inl (negative _ f h)
  cases below with
  | true =>
    rcases (bind_eq_error_iff _ _ _).mp h with h | ⟨_, refused, -⟩
    · exact (refuse_fails h).imp_left .inl
    · exact absurd refused (r.refuse_ne_ok query _)
  | false =>
  refine .inl (Misuses.turnsDown ?_ f h)
  refine misuses_bind (misuses_optionMapM fun b _ => least b) fun offset =>
    misuses_bind (misuses_optionMapM fun b _ => misuses_bind (least b) fun last => ?_)
      fun _ => misuses_ok _
  cases offset with
  | none => exact misuses_ok _
  | some a => exact Bound.misuses_combine _ _ _ last a

end Range

namespace Statement

theorem turnsDown_candidateIn (s : Statement) (d : Database) : TurnsDown (s.candidateIn d) := by
  rw [candidateIn]
  split
  · exact turnsDown_error rfl
  · split
    · exact turnsDown_error rfl
    · split
      · exact turnsDown_error rfl
      · exact turnsDown_ok _

theorem query_of_candidateIn {s : Statement} {d : Database} {c : Candidate}
    (h : s.candidateIn d = .ok c) : c.query = s.text := by
  obtain ⟨-, name, m, -, -, rfl⟩ := (candidateIn_eq_ok_iff s d c).mp h
  show (s.withAlias d.settings.query).text = s.text
  rw [withAlias]
  split
  · split <;> rfl
  · rfl

/-- What a statement fails with in a range where its transaction is not in its way. -/
inductive FailsWith (s : Statement) (range : Range) : Fault → Prop
  | rejected {f : Fault} (h : f.isRejection = true) : FailsWith s range f
  | misused (u : Misuse) : FailsWith s range (.misuse u)
  | bound {f : Fault} (h : range.Unshown f) : FailsWith s range f
  /-- The store misses a key, or cannot compare, count to or write what it is given. -/
  | stored (u : Misuse) : FailsWith s range ((Fault.misuse u).wrapped .executing s.text)

theorem failsWith_of_turnsDown {α : Type} {x : Except Fault α} (h : TurnsDown x) (s : Statement)
    (range : Range) (f : Fault) (failed : x = .error f) : s.FailsWith range f := by
  rcases h f failed with rejected | ⟨u, rfl⟩
  · exact .rejected rejected
  · exact .misused u

end Statement

def Store.Stumbles (f : Fault) : Prop := ∃ u, f = .misuse u

variable {P : Store → Prop} {transaction : Option Nat}

theorem Execution.faults_stumbles (hP : Store.Faults P transaction Store.Stumbles) (e : Execution)
    (numeric : e.window.IsNumeric) {s : Statement} (text : e.candidate.query = s.text)
    (range : Range) : e.Faults P transaction Store.Stumbles (s.FailsWith range) where
  toFaults := hP
  wrapped f stumbles := by
    obtain ⟨u, rfl⟩ := stumbles
    rw [text]
    exact .stored u
  numeric := numeric
  cut _ f failed := by
    obtain ⟨u, rfl⟩ := misuses_cut e.window _ f failed
    exact .misused u

theorem Database.blames_execute (hP : Store.Faults P transaction Store.Stumbles) (s : Statement)
    (range : Range) (parameters : Parameters) (now : Moment) :
    Blames (Has P) (s.FailsWith range) (execute s range parameters now) := by
  have refused {α : Type} {x : Except Fault α} (h : TurnsDown x) :
      Blames (Has P) (s.FailsWith range) (Attempt.ofExcept x : Attempt Database α) :=
    blames_ofExcept (s.failsWith_of_turnsDown h range)
  refine blames_get_bind fun d hd => ?_
  refine blames_bind (keeps_ofExcept _) (refused (s.turnsDown_candidateIn d)) fun _ c _ _ named =>
    ?_
  have text := s.query_of_candidateIn ((on_ofExcept_eq_ok_iff _ _ _ _).mp named).1
  refine blames_bind (keeps_ofExcept _) (refused c.turnsDown_plan) fun _ plan _ _ _ => ?_
  refine blames_bind (keeps_ofExcept _) (refused (c.turnsDown_compile _ plan))
    fun _ native _ _ _ => ?_
  have compiled : Has P { d with latest := some native } := hd
  refine blames_bind (keeps_set compiled) (blames_of_total fun _ => ⟨_, _, rfl⟩) fun _ _ _ _ _ => ?_
  refine blames_bind (keeps_ofExcept _)
    (refused (native.misuses_text d.heap.misuses_shown).turnsDown) fun _ _ _ _ _ => ?_
  refine blames_bind (keeps_ofExcept _) (refused range.misuses_isEmpty.turnsDown)
    fun _ nowhere _ _ _ => ?_
  split
  · exact blames_pure _
  refine blames_bind (keeps_ofExcept _) (blames_ofExcept fun f failed => ?_) fun _ w _ _ windowed =>
    ?_
  · rcases Range.window_fails failed with (rejected | ⟨u, rfl⟩) | unshown
    · exact .rejected rejected
    · exact .misused u
    · exact .bound unshown
  have numeric := Range.isNumeric_window ((on_ofExcept_eq_ok_iff _ _ _ _).mp windowed).1
  split
  · exact blames_throw (.rejected rfl)
  · exact (Execution.faults_stumbles hP ⟨c, plan, w⟩ numeric text range).blames_run native

end RecordStore
