import RecordStore.Proofs.VisibleObjects
import RecordStore.Proofs.FilterLeaves

/-!
# Queries over visible objects

A statement compiles to the same native query over heaps in which its values, and what they lead to,
are the same. The conditions that it asks for hold visible objects only.
-/

set_option autoImplicit false

namespace RecordStore

variable {visible : ObjectId → Prop}

namespace Expr

mutual

def Within (visible : ObjectId → Prop) : Expr → Prop
  | .literal v => v.Within visible
  | .both l r | .either l r | .compare _ l r | .join l r _ => Within visible l ∧ Within visible r
  | .unary _ x => Within visible x
  | .call _ receiver args => Within visible receiver ∧ WithinEach visible args
  | _ => True

def WithinEach (visible : ObjectId → Prop) : List Expr → Prop
  | [] => True
  | x :: xs => Within visible x ∧ WithinEach visible xs

end

mutual

theorem Within.shown_eq {f g : Value → Except Fault Text} (h : ∀ v, v.Within visible → f v = g v)
    {x : Expr} (hx : x.Within visible) : shown f x = shown g x := by
  cases x with
  | literal v => rw [shown, shown, h v hx]
  | both l r | either l r | compare _ l r | join l r _ =>
    rw [shown, shown, Within.shown_eq h (x := l) hx.1, Within.shown_eq h (x := r) hx.2]
  | unary _ x => rw [shown, shown, Within.shown_eq h (x := x) hx]
  | call _ receiver args =>
    rw [shown, shown, Within.shown_eq h (x := receiver) hx.1, WithinEach.shownEach_eq h hx.2]
  | _ => rw [shown, shown]

theorem WithinEach.shownEach_eq {f g : Value → Except Fault Text}
    (h : ∀ v, v.Within visible → f v = g v)
    {xs : List Expr} (hxs : WithinEach visible xs) : shownEach f xs = shownEach g xs := by
  cases xs with
  | nil => rfl
  | cons x xs => rw [shownEach, shownEach, Within.shown_eq h hxs.1, WithinEach.shownEach_eq h hxs.2]

end

mutual

theorem Within.text_eq {f g : Value → Except Fault Text} (h : ∀ v, v.Within visible → f v = g v)
    {x : Expr} (hx : x.Within visible) : text f x = text g x := by
  cases x with
  | literal v => rw [text, text, h v hx]
  | call _ receiver args =>
    rw [text, text, Within.text_eq h (x := receiver) hx.1, WithinEach.textEach_eq h hx.2]
  | both | either | compare | unary | source | join => rw [text, text, Within.shown_eq h hx]
  | _ => rw [text, text]

theorem WithinEach.textEach_eq {f g : Value → Except Fault Text}
    (h : ∀ v, v.Within visible → f v = g v)
    {xs : List Expr} (hxs : WithinEach visible xs) : textEach f xs = textEach g xs := by
  cases xs with
  | nil => rfl
  | cons x xs => rw [textEach, textEach, Within.text_eq h hxs.1, WithinEach.textEach_eq h hxs.2]

end

end Expr

namespace Value

mutual

theorem Within.stored {v w : Value} (hv : v.Within visible) (h : v.stored = .ok w) :
    w.Within visible := by
  cases v with
  | collection _ items =>
    obtain ⟨stored, made, rfl⟩ := (map_eq_ok_iff _ _ _).mp h
    exact WithinEach.storedEach hv made
  | decimal x =>
    rw [Value.stored] at h
    split at h <;> cases h
    trivial
  | object i =>
    cases h
    exact hv
  | _ =>
    cases h
    trivial

theorem WithinEach.storedEach {vs ws : List Value} (hvs : WithinEach visible vs)
    (h : Value.storedEach vs = .ok ws) : WithinEach visible ws := by
  cases vs with
  | nil =>
    cases h
    trivial
  | cons v vs =>
    obtain ⟨w, made, h⟩ := (bind_eq_ok_iff _ _ _).mp h
    obtain ⟨rest, others, h⟩ := (bind_eq_ok_iff _ _ _).mp h
    cases h
    exact ⟨Within.stored hvs.1 made, WithinEach.storedEach hvs.2 others⟩

end

theorem within_negated {v w : Value} (h : v.negated = .ok w) : w.Within visible := by
  have ofText {t : Text} (h : negated.ofText t = .ok w) : w.Within visible := by
    obtain ⟨n, -, rfl⟩ := (map_eq_ok_iff _ _ _).mp h
    trivial
  cases v with
  | decimal x =>
    rw [negated] at h
    split at h
    · cases h
    split at h <;> cases h
    trivial
  | real | integer | flag =>
    cases h
    trivial
  | text | bytes | byteArray => exact ofText h
  | _ => cases h

end Value

/-- Bindings over heaps that are seen alike, with visible objects for parameters. -/
structure Bindings.SeesAlike (visible : ObjectId → Prop) (b b' : Bindings) : Prop where
  heap : b.heap.SeesAlike visible b'.heap
  parameters : b'.parameters = b.parameters
  now : b'.now = b.now
  registry : b'.registry = b.registry
  within : ∀ p ∈ b.parameters, p.2.Within visible

def FilterStep.Within (visible : ObjectId → Prop) : FilterStep → Prop
  | .condition c => c.value.Within visible
  | _ => True

theorem Parameters.get?_within {ps : Parameters} (h : ∀ p ∈ ps, p.2.Within visible)
    {k : ParameterKey} {v : Value} (found : ps.get? k = some v) : v.Within visible := by
  obtain ⟨p, hp, rfl⟩ := Option.map_eq_some_iff.mp found
  exact h p (List.mem_reverse.mp (List.mem_of_find?_eq_some hp))

namespace Candidate

variable {c : Candidate} {b b' : Bindings} {v : Value} {x : Expr}

theorem text_congr (s : b.SeesAlike visible b') (hx : x.Within visible) :
    x.text b'.heap.shown = x.text b.heap.shown :=
  hx.text_eq fun _ hv => s.heap.shown_eq hv

theorem unsupportedCall_congr {α : Type} (s : b.SeesAlike visible b') (name : Text)
    (hx : x.Within visible) :
    (c.unsupportedCall b' name x : Except Fault α) = c.unsupportedCall b name x := by
  rw [unsupportedCall, unsupportedCall, text_congr s hx]

theorem parameterValue_congr (s : b.SeesAlike visible b') (name : Option Text)
    (position : Option Int) :
    c.parameterValue b' name position = c.parameterValue b name position := by
  rw [parameterValue, parameterValue, s.parameters]

theorem parameterValue_within (s : b.SeesAlike visible b') {name : Option Text}
    {position : Option Int} (h : c.parameterValue b name position = .ok v) : v.Within visible := by
  have given {α : Type} {f : α → ParameterKey} {o : Option α} {w : Value}
      (found : (o.bind fun a => b.parameters.get? (f a)) = some w) : w.Within visible := by
    obtain ⟨a, -, found⟩ := Option.bind_eq_some_iff.mp found
    exact Parameters.get?_within s.within found
  rw [parameterValue] at h
  split at h
  · rename_i byName
    cases h
    exact given byName
  · rename_i byPosition _
    cases h
    exact given byPosition
  · rename_i byName
    cases h
    exact given byName
  · exact absurd h (bind_error_ne_ok _ _ _)

theorem operandValue_congr (s : b.SeesAlike visible b') (hx : x.Within visible) :
    c.operandValue b' x = c.operandValue b x := by
  cases x with
  | field path => rw [operandValue, operandValue, s.parameters]
  | parameter name position => exact parameterValue_congr s name position
  | both l r | either l r | compare _ l r => rw [operandValue, operandValue, text_congr s hx.2]
  | call name receiver args =>
    rw [operandValue, operandValue, s.now, unsupportedCall_congr s name hx]
  | unary op y => cases op <;> cases y <;> rfl
  | _ => rfl

theorem operandValue_within (s : b.SeesAlike visible b') (hx : x.Within visible)
    (h : c.operandValue b x = .ok v) : v.Within visible := by
  cases x with
  | field path =>
    rw [operandValue] at h
    split at h
    · rename_i found
      cases h
      exact Parameters.get?_within s.within found
    · cases h
  | literal w =>
    cases h
    exact hx
  | parameter name position => exact parameterValue_within s h
  | call name receiver args =>
    rw [operandValue] at h
    split at h
    · cases h
      trivial
    · exact absurd h (bind_error_ne_ok _ _ _)
  | both | either | compare => exact absurd h (bind_error_ne_ok _ _ _)
  | unary op y =>
    have negation : ∃ w : Value, w.negated = .ok v := by
      cases op with
      | negate =>
        cases y with
        | literal w =>
          rw [operandValue] at h
          split at h
          · exact ⟨w, h⟩
          · cases h
        | _ => cases h
      | _ => cases y <;> cases h
    obtain ⟨w, negated⟩ := negation
    exact Value.within_negated negated
  | _ => cases h

theorem keyOf_congr (s : b.SeesAlike visible b') (hv : v.Within visible) (kind : Text) :
    c.keyOf b' v kind = c.keyOf b v kind := by
  cases v <;> simp only [keyOf, s.heap.shown_eq hv]

theorem parentKey_congr (s : b.SeesAlike visible b') (hv : v.Within visible) :
    c.parentKey b' v = c.parentKey b v := by
  cases v <;> simp only [parentKey, s.heap.shown_eq hv]

theorem relatedIdentity_congr (s : b.SeesAlike visible b') (related : ClassMapping)
    (hv : v.Within visible) :
    c.relatedIdentity b' related v = c.relatedIdentity b related v := by
  cases v <;> simp only [relatedIdentity, s.heap.shown_eq hv, s.heap.attribute?_eq _ hv]

theorem relatedIdentity_within (s : b.SeesAlike visible b') {related : ClassMapping}
    (hv : v.Within visible) {w : Value} (h : c.relatedIdentity b related v = .ok w) :
    w.Within visible := by
  rw [relatedIdentity.eq_def] at h
  split at h
  iterate 5
    cases h
    exact hv
  split at h
  · exact absurd h (bind_error_ne_ok _ _ _)
  · exact absurd h (bind_error_ne_ok _ _ _)
  · rename_i found
    cases h
    obtain ⟨m, -, found⟩ := Option.bind_eq_some_iff.mp found
    exact s.heap.attribute?_within hv found

theorem relatedKey_congr (s : b.SeesAlike visible b') (m : Member) (related : ClassMapping)
    (hv : v.Within visible) : c.relatedKey b' m related v = c.relatedKey b m related v := by
  rw [relatedKey, relatedKey, relatedIdentity_congr s related hv]
  refine bind_congr_of_ok fun w identity => ?_
  rw [keyOf_congr s (relatedIdentity_within s hv identity)]

theorem relationStep_congr (s : b.SeesAlike visible b') (m : Member) (className : ClassName)
    (comparator : Comparator) (hv : v.Within visible) :
    c.relationStep b' m className comparator v = c.relationStep b m className comparator v := by
  simp only [relationStep, s.registry, relatedKey_congr s _ _ hv]

theorem primaryStep_congr (s : b.SeesAlike visible b') (comparator : Comparator)
    (hv : v.Within visible) : c.primaryStep b' comparator v = c.primaryStep b comparator v := by
  cases v with
  | collection _ items =>
    have each := (Value.withinEach_iff items).mp hv
    have keys : (items.map fun item => c.keyOf b' item c.mapping.kind) =
        items.map fun item => c.keyOf b item c.mapping.kind :=
      List.map_congr_left fun item hitem => keyOf_congr s (each item hitem) _
    rw [primaryStep, primaryStep, keys]
  | _ => simp only [primaryStep, keyOf_congr s hv]

theorem memberStep_congr (s : b.SeesAlike visible b') (m : Member) (comparator : Comparator)
    (hv : v.Within visible) : c.memberStep b' m comparator v = c.memberStep b m comparator v := by
  rw [memberStep.eq_def, memberStep.eq_def]
  split
  · exact relationStep_congr s m _ comparator hv
  · rw [parentKey_congr s hv, primaryStep_congr s comparator hv]

theorem comparisonStep_congr (s : b.SeesAlike visible b') (path : List Text) (op : Operator)
    (hx : x.Within visible) : c.comparisonStep b' path op x = c.comparisonStep b path op x := by
  rw [comparisonStep, comparisonStep, operandValue_congr s hx]
  refine bind_congr_of_ok fun comparator _ => bind_congr_of_ok fun v operand => ?_
  have seen := operandValue_within s hx operand
  exact bind_congr_of_ok fun _ _ => bind_congr_of_ok fun m _ => memberStep_congr s m comparator seen

theorem beginningSteps_congr (s : b.SeesAlike visible b') (path : List Text) (beginning : Text) :
    c.beginningSteps b' path beginning = c.beginningSteps b path beginning := by
  have bound (op : Operator) (t : Text) :
      c.comparisonStep b' path op (.literal (.text t)) =
        c.comparisonStep b path op (.literal (.text t)) :=
    comparisonStep_congr s path op (x := .literal (.text t)) trivial
  simp only [beginningSteps, bound]

theorem argumentValue_congr (s : b.SeesAlike visible b') (name : Text) {call : Expr}
    (hx : call.Within visible) (arg : Expr) :
    c.argumentValue b' name call arg = c.argumentValue b name call arg := by
  cases arg with
  | literal v => rfl
  | parameter n p => exact parameterValue_congr s n p
  | _ => exact unsupportedCall_congr s name hx

theorem argumentValue_within (s : b.SeesAlike visible b') {name : Text} {call arg : Expr}
    (ha : arg.Within visible) (h : c.argumentValue b name call arg = .ok v) : v.Within visible := by
  cases arg with
  | literal w =>
    cases h
    exact ha
  | parameter n p => exact parameterValue_within s h
  | _ => exact absurd h (bind_error_ne_ok _ _ _)

theorem beginning_congr (s : b.SeesAlike visible b') (name : Text) (hv : v.Within visible) :
    c.beginning b' name v = c.beginning b name v := by
  simp only [beginning, s.heap.typeName_eq hv]

theorem callSteps_congr (s : b.SeesAlike visible b') (name : Text) {receiver : Expr}
    {args : List Expr} (hx : (Expr.call name receiver args).Within visible) :
    c.callSteps b' name receiver args = c.callSteps b name receiver args := by
  have refused : (c.unsupportedCall b' name (.call name receiver args) : Except Fault FilterStep) =
      c.unsupportedCall b name (.call name receiver args) := unsupportedCall_congr s name hx
  rw [callSteps.eq_def, callSteps.eq_def]
  simp only [refused]
  split
  · rename_i arg
    have ha : arg.Within visible := hx.2.1
    split
    · split
      · rw [comparisonStep_congr s _ _ ha]
      · rename_i n p path
        rw [comparisonStep_congr s _ _ (x := .parameter n p) trivial]
      · rfl
    split
    · split
      · rename_i path
        have asked :
            (c.argumentValue b' name (.call name (.field path) [arg]) arg).bind
                (c.beginning b' name) =
              (c.argumentValue b name (.call name (.field path) [arg]) arg).bind
                (c.beginning b name) := by
          rw [argumentValue_congr s name hx]
          exact bind_congr_of_ok fun v argument =>
            beginning_congr s name (argumentValue_within s ha argument)
        rw [asked]
        split
        · exact beginningSteps_congr s _ _
        · rfl
      · rfl
    · rfl
  · rfl

theorem steps_congr (s : b.SeesAlike visible b') (hx : x.Within visible) :
    c.steps b' x = c.steps b x := by
  fun_induction steps c b x with
  | case3 l r left right => rw [steps, left hx.1, right hx.2]
  | case6 op l r other f refused => rw [steps_compare, if_neg other, refused]
  | case7 op r other comparator native path =>
    rw [steps_compare, if_neg other, native]
    exact congrArg ([·]) (comparisonStep_congr s path op hx.2)
  | case8 op l r other comparator native field left right =>
    rw [steps_compare, if_neg other, native]
    dsimp only
    split
    · exact (field _ rfl).elim
    · rw [left hx.1, right hx.2]
  | case10 op y other f refused => rw [steps, if_neg other, refused]
  | case11 op y other _ checked => rw [steps, if_neg other, checked]
  | case12 name receiver args => exact callSteps_congr s name hx
  | case13 => rw [steps] <;> assumption
  | _ => rfl

theorem conditionValue_within {m : Member} {w : Value} (hv : v.Within visible)
    (h : c.conditionValue m v = .ok w) : w.Within visible := by
  rw [conditionValue.eq_def] at h
  split at h
  · cases h
  · split at h
    · split at h <;> cases h
      trivial
    · cases h
      trivial
  · exact hv.stored h

theorem relationStep_within {m : Member} {className : ClassName} {comparator : Comparator}
    {step : FilterStep} (h : c.relationStep b m className comparator v = .ok step) :
    step.Within visible := by
  rw [relationStep] at h
  split at h
  · cases h
  obtain ⟨key, -, h⟩ := (bind_eq_ok_iff _ _ _).mp h
  split at h
  · split at h
    · cases h
    · rw [ancestorStep] at h
      split at h
      · cases h
      · cases h
        trivial
  split at h
  · cases h
  split at h
  · cases h
  split at h <;> cases h
  trivial

theorem memberStep_within {m : Member} {comparator : Comparator} {step : FilterStep}
    (hv : v.Within visible) (h : c.memberStep b m comparator v = .ok step) :
    step.Within visible := by
  rw [memberStep.eq_def] at h
  split at h
  · exact relationStep_within h
  split at h
  · obtain ⟨k, -, h⟩ := (bind_eq_ok_iff _ _ _).mp h
    rw [ancestorStep.eq_def] at h
    split at h
    · cases h
    split at h <;> cases h
    trivial
  split at h
  · rw [primaryStep.eq_def] at h
    split at h
    · cases h
      trivial
    · obtain ⟨k, -, h⟩ := (bind_eq_ok_iff _ _ _).mp h
      cases h
      exact Value.within_ofKey? k
  · obtain ⟨w, made, h⟩ := (bind_eq_ok_iff _ _ _).mp h
    cases h
    exact conditionValue_within hv made

theorem comparisonStep_within (s : b.SeesAlike visible b') {path : List Text} {op : Operator}
    (hx : x.Within visible) {step : FilterStep} (h : c.comparisonStep b path op x = .ok step) :
    step.Within visible := by
  obtain ⟨comparator, -, h⟩ := (bind_eq_ok_iff _ _ _).mp h
  obtain ⟨v, operand, h⟩ := (bind_eq_ok_iff _ _ _).mp h
  obtain ⟨_, -, h⟩ := (bind_eq_ok_iff _ _ _).mp h
  obtain ⟨m, -, h⟩ := (bind_eq_ok_iff _ _ _).mp h
  exact memberStep_within (operandValue_within s hx operand) h

theorem beginningSteps_within (s : b.SeesAlike visible b') {path : List Text} {beginning : Text}
    {step : FilterStep} (h : .ok step ∈ c.beginningSteps b path beginning) :
    step.Within visible := by
  have bound {op : Operator} {t : Text}
      (h : .ok step = c.comparisonStep b path op (.literal (.text t))) : step.Within visible :=
    comparisonStep_within s (x := .literal (.text t)) trivial h.symm
  rw [beginningSteps] at h
  rcases List.mem_cons.mp h with h | h
  · exact bound h
  split at h
  · cases List.mem_singleton.mp h
  · cases h
  · exact bound (List.mem_singleton.mp h)

theorem callSteps_within (s : b.SeesAlike visible b') {name : Text} {receiver : Expr}
    {args : List Expr} (hx : (Expr.call name receiver args).Within visible) {step : FilterStep}
    (h : .ok step ∈ c.callSteps b name receiver args) : step.Within visible := by
  have refused (h : .ok step ∈ [c.unsupportedCall b name (.call name receiver args)]) :
      step.Within visible :=
    absurd (List.mem_singleton.mp h).symm (bind_error_ne_ok _ _ _)
  rw [callSteps.eq_def] at h
  dsimp only at h
  split at h
  · rename_i arg
    have ha : arg.Within visible := hx.2.1
    split at h
    · split at h
      · exact comparisonStep_within s ha (List.mem_singleton.mp h).symm
      · rename_i n p path
        exact comparisonStep_within s (x := .parameter n p) trivial (List.mem_singleton.mp h).symm
      · exact refused h
    split at h
    · split at h
      · split at h
        · exact beginningSteps_within s h
        · cases List.mem_singleton.mp h
      · exact refused h
    · exact refused h
  · exact refused h

theorem steps_within (s : b.SeesAlike visible b') (hx : x.Within visible) {step : FilterStep}
    (h : .ok step ∈ c.steps b x) : step.Within visible := by
  fun_induction steps c b x with
  | case3 l r left right =>
    rcases List.mem_append.mp h with h | h
    · exact left hx.1 h
    · exact right hx.2 h
  | case7 op r other comparator native path =>
    exact comparisonStep_within s hx.2 (List.mem_singleton.mp h).symm
  | case8 op l r other comparator native field left right =>
    rcases List.mem_append.mp h with h | h
    · exact left hx.1 h
    · exact right hx.2 h
  | case12 name receiver args => exact callSteps_within s hx h
  | case1 | case2 => cases h
  | _ => cases List.mem_singleton.mp h

end Candidate

def Draft.Within (visible : ObjectId → Prop) (d : Draft) : Prop :=
  ∀ c ∈ d.conditions, c.value.Within visible

theorem FilterStep.apply_within {step : FilterStep} {d d' : Draft} (hd : d.Within visible)
    (hs : step.Within visible) (h : step.apply d = .ok d') : d'.Within visible := by
  cases step with
  | condition c =>
    obtain ⟨-, rfl⟩ := (apply_condition _ _ _).mp h
    intro x hx
    rcases List.mem_append.mp hx with hx | hx
    · exact hd x hx
    · rw [List.mem_singleton.mp hx]
      exact hs
  | ancestor k =>
    obtain ⟨-, -, rfl⟩ := (apply_ancestor _ _ _).mp h
    exact hd
  | lookup comparator keys =>
    obtain ⟨-, -, ks, -, rfl⟩ := (apply_lookup _ _ _ _).mp h
    exact hd

theorem FilterSteps.run_within {steps : FilterSteps} {d d' : Draft} (hd : d.Within visible)
    (hs : ∀ step, .ok step ∈ steps → step.Within visible) (h : steps.run d = .ok d') :
    d'.Within visible := by
  induction steps generalizing d with
  | nil =>
    cases h
    exact hd
  | cons step rest ih =>
    obtain ⟨next, applied, others⟩ := (bind_eq_ok_iff _ _ _).mp h
    obtain ⟨taken, rfl, applied⟩ := (bind_eq_ok_iff _ _ _).mp applied
    refine ih (taken.apply_within hd (hs taken (.head _)) applied) (fun x hx => ?_) others
    exact hs x (.tail _ hx)

namespace Candidate

variable {c : Candidate} {b b' : Bindings}

theorem compile_congr (s : b.SeesAlike visible b') (hx : c.statement.filter.Within visible)
    (plan : ResultPlan) : c.compile b' plan = c.compile b plan := by
  rw [compile, compile, compileFilter, compileFilter, steps_congr s hx]

theorem compile_within (s : b.SeesAlike visible b') (hx : c.statement.filter.Within visible)
    {plan : ResultPlan} {q : Selection} (h : c.compile b plan = .ok (.selection q)) :
    ∀ condition ∈ q.conditions, condition.value.Within visible := by
  obtain ⟨filtered, hf, h⟩ := (bind_eq_ok_iff _ _ _).mp h
  obtain ⟨ordered, ho, h⟩ := (bind_eq_ok_iff _ _ _).mp h
  have started : c.start.Within visible := List.forall_mem_nil _
  have seen : filtered.Within visible :=
    FilterSteps.run_within started (fun _ h => steps_within s hx h)
      ((compileFilter_eq_ok_iff_run c b c.start filtered).mp hf).1
  have frozen : ordered.freeze (plan.form = .keysOnly || c.statement.isDelete) = .selection q :=
    Except.ok.inj h
  rw [Draft.freeze] at frozen
  split at frozen
  · cases frozen
  · cases frozen
    rw [(compileOrdering_frame ho).2.1]
    exact seen

end Candidate
end RecordStore
