import RecordStore.Proofs.FilterLeaves

/-!
# Operands that are written out

An operand can be given by a parameter, or by a path that has the name of one. Writing its value in
its place changes nothing: the filter compiles to the same draft, or it cannot be compiled either
way.
-/

set_option autoImplicit false

namespace RecordStore

/-- The value that a parameter is bound to: by its position, unless that is bound to null, and else
by its name. A position that is bound to null counts where the name is not bound. -/
def Parameters.bound? (ps : Parameters) (name : Option Text) (position : Option Int) :
    Option Value :=
  let named := name.bind fun t => ps.get? (.name t)
  match position.bind fun n => ps.get? (.position n) with
  | none => named
  | some .null => some (named.getD .null)
  | some v => some v

namespace Expr

variable (ps : Parameters)

def parameterWritten : Expr → Expr
  | .parameter name position => (ps.bound? name position).elim (.parameter name position) .literal
  | x => x

def operandWritten : Expr → Expr
  | .field path => (ps.get? (.name (dotted path))).elim (.field path) .literal
  | x => parameterWritten ps x

def argumentsWritten (name : Text) (receiver : Expr) : List Expr → List Expr
  | [arg] =>
    if name = "contains" then [if receiver.isField then operandWritten ps arg else arg]
    else if name = "startsWith" || name = "matches" then [parameterWritten ps arg]
    else [arg]
  | args => args

mutual

/-- A tree with the values of bound operands in their places: on the right side of comparisons with
a path on their left, and in the calls that filters are made of. -/
def written : Expr → Expr
  | .both l r => .both (written l) (written r)
  | .either l r => .either (written l) (written r)
  | .compare op l r =>
    .compare op (written l) (if l.isField then operandWritten ps (written r) else written r)
  | .unary op x => .unary op (written x)
  | .call name receiver args =>
    .call name (written receiver) (argumentsWritten ps name receiver (writtenEach args))
  | .join l r aliasName => .join (written l) (written r) aliasName
  | .field path => .field path
  | .literal v => .literal v
  | .parameter name position => .parameter name position
  | .source className aliasName => .source className aliasName
  | .absent => .absent

def writtenEach : List Expr → List Expr
  | [] => []
  | x :: xs => written x :: writtenEach xs

end

end Expr

theorem toOption_eq_iff {α : Type} {x y : Except Fault α} :
    x.toOption = y.toOption ↔
      (∃ f g, x = .error f ∧ y = .error g) ∨ ∃ a, x = .ok a ∧ y = .ok a := by
  cases x <;> cases y <;> simp [Except.toOption, eq_comm]

/-- What is made of a value does not depend on why there is none. -/
theorem toOption_bind_congr {α β : Type} {x y : Except Fault α} (h : x.toOption = y.toOption)
    (f : α → Except Fault β) : (x >>= f).toOption = (y >>= f).toOption := by
  rcases toOption_eq_iff.mp h with ⟨_, _, rfl, rfl⟩ | ⟨a, rfl, rfl⟩
  · rfl
  · rfl

theorem toOption_bind_error {α β : Type} (x : Except Fault α) (f : α → Fault) :
    (x >>= fun a => .error (f a) : Except Fault β).toOption = none := by
  cases x <;> rfl

theorem FilterSteps.toOption_run_congr {steps others : FilterSteps}
    (h : steps.map Except.toOption = others.map Except.toOption) (d : Draft) :
    (run steps d).toOption = (run others d).toOption := by
  induction steps generalizing others d with
  | nil =>
    obtain rfl := List.map_eq_nil_iff.mp h.symm
    rfl
  | cons s rest ih =>
    obtain ⟨t, others, rfl, first, later⟩ := List.map_eq_cons_iff.mp h.symm
    rw [run_cons, run_cons]
    rcases toOption_eq_iff.mp (toOption_bind_congr first.symm fun s => s.apply d) with
      ⟨_, _, failed, failed'⟩ | ⟨next, taken, taken'⟩
    · rw [failed, failed']
      rfl
    · rw [taken, taken']
      exact ih later.symm next

namespace Candidate

variable (c : Candidate) (b : Bindings)

theorem toOption_unsupportedCall {α : Type} (name : Text) (call : Expr) :
    (unsupportedCall c b name call : Except Fault α).toOption = none :=
  toOption_bind_error _ _

theorem refused_alike (name : Text) (call call' : Expr) :
    ([unsupportedCall c b name call] : FilterSteps).map Except.toOption =
      ([unsupportedCall c b name call'] : FilterSteps).map Except.toOption := by
  simp only [List.map_cons, toOption_unsupportedCall]

theorem toOption_parameterValue (name : Option Text) (position : Option Int) :
    (parameterValue c b name position).toOption = b.parameters.bound? name position := by
  rw [parameterValue, Parameters.bound?]
  generalize (position.bind fun n => b.parameters.get? (.position n)) = placed
  generalize (name.bind fun t => b.parameters.get? (.name t)) = named
  cases placed with
  | none =>
    cases named with
    | none => exact toOption_bind_error _ _
    | some v => rfl
  | some v => cases v <;> cases named <;> rfl

theorem toOption_operandValue_parameter (name : Option Text) (position : Option Int) :
    (operandValue c b (Expr.parameterWritten b.parameters (.parameter name position))).toOption =
      (operandValue c b (.parameter name position)).toOption := by
  have value : (operandValue c b (.parameter name position)).toOption = _ :=
    toOption_parameterValue c b name position
  rw [Expr.parameterWritten]
  cases bound : b.parameters.bound? name position with
  | none => rfl
  | some v =>
    rw [value, bound]
    rfl

theorem toOption_operandValue (x : Expr) :
    (operandValue c b (Expr.operandWritten b.parameters (x.written b.parameters))).toOption =
      (operandValue c b x).toOption := by
  cases x with
  | field path =>
    rw [Expr.written, Expr.operandWritten]
    cases bound : b.parameters.get? (.name (Expr.dotted path)) with
    | none => rfl
    | some v =>
      simp only [operandValue, bound]
      rfl
  | parameter name position => exact toOption_operandValue_parameter c b name position
  | unary op x =>
    cases op with
    | negate => cases x <;> rfl
    | _ => rfl
  | call name receiver args =>
    simp only [Expr.written, Expr.operandWritten, Expr.parameterWritten, operandValue]
    split
    · rfl
    · rw [toOption_unsupportedCall, toOption_unsupportedCall]
  | both | either | compare =>
    exact (toOption_bind_error _ _).trans (toOption_bind_error _ _).symm
  | _ => rfl

theorem toOption_comparisonStep (path : List Text) (op : Operator) {right other : Expr}
    (h : (operandValue c b other).toOption = (operandValue c b right).toOption) :
    (comparisonStep c b path op other).toOption = (comparisonStep c b path op right).toOption := by
  rw [comparisonStep, comparisonStep]
  cases Operator.native (some op) c.query with
  | error f => rfl
  | ok comparator => exact toOption_bind_congr h _

theorem toOption_argumentValue (name : Text) (call written arg : Expr) :
    (argumentValue c b name written
        (Expr.parameterWritten b.parameters (arg.written b.parameters))).toOption =
      (argumentValue c b name call arg).toOption := by
  cases arg with
  | parameter n p =>
    have value : (argumentValue c b name call (.parameter n p)).toOption = _ :=
      toOption_parameterValue c b n p
    rw [Expr.written, Expr.parameterWritten, value]
    cases bound : b.parameters.bound? n p with
    | none => exact (toOption_parameterValue c b n p).trans bound
    | some v => rfl
  | literal v => rfl
  | _ => exact (toOption_unsupportedCall ..).trans (toOption_unsupportedCall ..).symm

theorem toOption_begun (path : List Text) {x y : Except Fault Text}
    (h : x.toOption = y.toOption) :
    (match x with
      | .ok t => beginningSteps c b path t
      | .error f => [.error f]).map Except.toOption =
    (match y with
      | .ok t => beginningSteps c b path t
      | .error f => [.error f]).map Except.toOption := by
  rcases toOption_eq_iff.mp h with ⟨_, _, rfl, rfl⟩ | ⟨t, rfl, rfl⟩
  · rfl
  · rfl

theorem toOption_callSteps (name : Text) (receiver : Expr) (args : List Expr) :
    (callSteps c b name (receiver.written b.parameters)
        (Expr.argumentsWritten b.parameters name receiver
          (Expr.writtenEach b.parameters args))).map Except.toOption =
      (callSteps c b name receiver args).map Except.toOption := by
  match args with
  | [] => exact refused_alike c b name _ _
  | _ :: _ :: _ => exact refused_alike c b name _ _
  | [arg] =>
    simp only [Expr.writtenEach, Expr.argumentsWritten]
    by_cases contains : name = "contains"
    · simp only [callSteps, if_pos contains]
      cases receiver with
      | field path =>
        have step := toOption_comparisonStep c b path .equal (toOption_operandValue c b arg)
        exact congrArg (fun s => [s]) step
      | parameter n p =>
        cases arg with
        | field path => rfl
        | _ => exact refused_alike c b name _ _
      | _ => exact refused_alike c b name _ _
    · rw [if_neg contains]
      by_cases begins : (name = "startsWith" || name = "matches") = true
      · simp only [callSteps, if_neg contains, if_pos begins]
        cases receiver with
        | field path =>
          exact toOption_begun c b path (toOption_bind_congr (toOption_argumentValue c b name
            (.call name (.field path) [arg])
            (.call name (.field path) [.parameterWritten b.parameters (arg.written b.parameters)])
            arg) (c.beginning b name))
        | _ => exact refused_alike c b name _ _
      · simp only [callSteps, if_neg contains, if_neg begins]
        exact refused_alike c b name _ _

theorem toOption_steps (x : Expr) :
    (steps c b (x.written b.parameters)).map Except.toOption =
      (steps c b x).map Except.toOption := by
  cases x with
  | both l r =>
    rw [Expr.written, steps, steps, List.map_append, List.map_append, toOption_steps l,
      toOption_steps r]
  | compare op l r =>
    have left := toOption_steps l
    have right := toOption_steps r
    rw [Expr.written, steps_compare, steps_compare]
    split
    · rfl
    cases Operator.native (some op) c.query with
    | error f => rfl
    | ok comparator =>
      cases l with
      | field path =>
        have step := toOption_comparisonStep c b path op (toOption_operandValue c b r)
        exact congrArg (fun s => [s]) step
      | _ =>
        exact List.map_append.trans
          ((congrArg₂ (· ++ ·) left right).trans List.map_append.symm)
  | unary op x =>
    rw [Expr.written, steps, steps]
  | call name receiver args => exact toOption_callSteps c b name receiver args
  | _ => rfl

/-- Writing the values of bound operands in their places changes nothing about a filter: either it
cannot be compiled, with them or without, or it asks for the same conditions, the same ancestor and
the same keys. -/
theorem compileFilter_written (x : Expr) (d : Draft) :
    (∃ f g, (c.withFilter x).compileFilter b d = .error f ∧
        (c.withFilter (x.written b.parameters)).compileFilter b d = .error g) ∨
      ∃ compiled, (c.withFilter x).compileFilter b d = .ok compiled ∧
        (c.withFilter (x.written b.parameters)).compileFilter b d = .ok compiled := by
  have run (x : Expr) :
      (c.withFilter x).compileFilter b d = (steps c b x).run d >>= Draft.logged := by
    have alike : Alike (c.withFilter x) c := ⟨rfl, rfl, rfl⟩
    rw [← steps_alike alike]
    rfl
  rw [← toOption_eq_iff, run, run]
  exact toOption_bind_congr (FilterSteps.toOption_run_congr (toOption_steps c b x) d).symm _

example : (Expr.compare .equal (.field ["name"]) (.parameter (some "n") none)).written
    [(.name "n", .text "Ann")] = .compare .equal (.field ["name"]) (.literal (.text "Ann")) := rfl

end Candidate
end RecordStore
