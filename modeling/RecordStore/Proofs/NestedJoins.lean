import RecordStore.Proofs.Counting

/-!
# Joins in sources

The sources of a statement are looked through for joins. Every part of an expression is among those
that are looked at next, so a join is found at any depth and in any place. Sources without a join
leave no trace in the plan.
-/

set_option autoImplicit false

namespace RecordStore
namespace Expr

variable {x e : Expr}

/-- Whether an expression stands directly below another one. -/
inductive IsPart : Expr → Expr → Prop
  | bothLeft (l r : Expr) : IsPart l (.both l r)
  | bothRight (l r : Expr) : IsPart r (.both l r)
  | eitherLeft (l r : Expr) : IsPart l (.either l r)
  | eitherRight (l r : Expr) : IsPart r (.either l r)
  | compareLeft (op : Operator) (l r : Expr) : IsPart l (.compare op l r)
  | compareRight (op : Operator) (l r : Expr) : IsPart r (.compare op l r)
  | operand (op : Operator) (x : Expr) : IsPart x (.unary op x)
  | receiver (name : Text) (receiver : Expr) (args : List Expr) :
    IsPart receiver (.call name receiver args)
  | argument {x : Expr} (name : Text) (receiver : Expr) {args : List Expr} (listed : x ∈ args) :
    IsPart x (.call name receiver args)
  | joinLeft (l r : Expr) (aliasName : Option Text) : IsPart l (.join l r aliasName)
  | joinRight (l r : Expr) (aliasName : Option Text) : IsPart r (.join l r aliasName)

/-- An expression occurs in itself and wherever it occurs in a part. -/
inductive Occurs (x : Expr) : Expr → Prop
  | here : Occurs x x
  | inside {part e : Expr} (isPart : IsPart part e) (occurs : Occurs x part) : Occurs x e

def HasJoin (e : Expr) : Prop := ∃ l r aliasName, Occurs (.join l r aliasName) e

theorem mem_children_iff : x ∈ e.children ↔ IsPart x e ∧ x.isAbsent = false := by
  constructor
  · intro h
    cases e with
    | both l r | either l r | compare op l r | join l r aliasName =>
      obtain ⟨rfl | rfl, present⟩ : (x = l ∨ x = r) ∧ x.isAbsent = false := by
        simpa [children] using h
      all_goals exact ⟨by constructor, present⟩
    | unary op y =>
      obtain ⟨rfl, present⟩ : x = y ∧ x.isAbsent = false := by simpa [children] using h
      exact ⟨.operand op x, present⟩
    | call name receiver args =>
      obtain ⟨rfl | listed, present⟩ : (x = receiver ∨ x ∈ args) ∧ x.isAbsent = false := by
        simpa [children] using h
      · exact ⟨.receiver name x args, present⟩
      · exact ⟨.argument name receiver listed, present⟩
    | _ => cases h
  · rintro ⟨isPart, present⟩
    cases isPart <;> simp [children, *]

theorem sizeOf_lt_of_isPart (h : IsPart x e) : sizeOf x < sizeOf e := by
  cases h with
  | argument name receiver listed =>
    have within := List.sizeOf_lt_of_mem listed
    simp only [call.sizeOf_spec]
    omega
  | _ => simp <;> omega

theorem walkEach_eq (xs : List Expr) : walkEach xs = xs.flatMap walk := by
  induction xs with
  | nil => rfl
  | cons x rest ih => rw [walkEach, ih, List.flatMap_cons]

theorem flatMap_walk_present (xs : List Expr) :
    (xs.filter (!·.isAbsent)).flatMap walk = xs.flatMap walk := by
  induction xs with
  | nil => rfl
  | cons x rest ih =>
    cases x with
    | absent => exact ih
    | _ => exact congrArg (walk _ ++ ·) ih

/-- An expression is looked at first, and then what stands directly below it. -/
theorem walk_eq (present : e.isAbsent = false) : e.walk = e :: e.children.flatMap walk := by
  cases e with
  | absent => cases present
  | both l r | either l r | compare op l r | unary op y | call name receiver args
  | join l r aliasName =>
    simp [children, walk, walkEach_eq, flatMap_walk_present]
  | _ => rfl

theorem occurs_of_mem_walk {e : Expr} (h : x ∈ e.walk) : Occurs x e := by
  have present : e.isAbsent = false := by
    cases e with
    | absent => exact absurd h List.not_mem_nil
    | _ => rfl
  rw [walk_eq present, List.mem_cons, List.mem_flatMap] at h
  obtain rfl | ⟨part, next, found⟩ := h
  · exact .here
  · have isPart := (mem_children_iff.mp next).1
    exact .inside isPart (occurs_of_mem_walk found)
termination_by sizeOf e
decreasing_by exact sizeOf_lt_of_isPart isPart

theorem mem_walk_of_occurs (h : Occurs x e) (present : x.isAbsent = false) : x ∈ e.walk := by
  induction h with
  | here =>
    rw [walk_eq present]
    exact .head _
  | @inside part e isPart occurs ih =>
    -- a part that is left out has nothing in it
    have shown : part.isAbsent = false := by
      cases part with
      | absent => cases ih
      | _ => rfl
    have standing : e.isAbsent = false := by cases isPart <;> rfl
    rw [walk_eq standing]
    exact .tail _ (List.mem_flatMap.mpr ⟨part, mem_children_iff.mpr ⟨isPart, shown⟩, ih⟩)

theorem any_isJoin_iff : e.walk.any (·.isJoin) = true ↔ e.HasJoin := by
  rw [List.any_eq_true]
  constructor
  · rintro ⟨x, found, isJoin⟩
    cases x with
    | join l r aliasName => exact ⟨l, r, aliasName, occurs_of_mem_walk found⟩
    | _ => cases isJoin
  · rintro ⟨l, r, aliasName, occurs⟩
    exact ⟨_, mem_walk_of_occurs occurs rfl, rfl⟩

end Expr

namespace Candidate

variable (c : Candidate)

def sourcedFrom (c : Candidate) (sources : List Expr) : Candidate :=
  { c with statement := { c.statement with sources := sources } }

/-- The fault of a statement with a join. -/
def joinFault (c : Candidate) : Fault := .unsupportedFeature .join c.query

theorem member_ne_joinFault (path : List Text) : c.member path ≠ .error c.joinFault := by
  have descended (m : Option Member) (rest : List Text) :
      ClassMapping.descend c.query m rest ≠ .error c.joinFault := by
    fun_induction ClassMapping.descend c.query m rest with
    | case4 m name rest parts embedded ih => exact ih
    | _ => nofun
  have reached : c.mapping.memberAt (c.statement.stripAlias path) c.query ≠ .error c.joinFault := by
    cases c.statement.stripAlias path with
    | nil => nofun
    | cons name rest => exact descended _ _
  intro failed
  obtain failed | ⟨m, -, failed⟩ := (bind_eq_error_iff _ _ _).mp failed
  · exact reached failed
  · cases m <;> cases failed

theorem readResults_ne_joinFault (form : Option ResultForm)
    (projection : List (List Text × Member)) (results : List Expr) :
    c.readResults form projection results ≠ .error c.joinFault := by
  intro failed
  induction results generalizing form projection with
  | nil => cases failed
  | cons x rest ih =>
    cases x with
    | call name receiver args =>
      rw [readResults] at failed
      split at failed
      · cases failed
      split at failed
      · cases failed
      · exact ih _ _ failed
    | field path =>
      rw [readResults] at failed
      split at failed
      · cases failed
      split at failed
      · exact ih _ _ failed
      · obtain failed | ⟨m, -, failed⟩ := (bind_eq_error_iff _ _ _).mp failed
        · exact c.member_ne_joinFault path failed
        · exact ih _ _ failed
    | _ => cases failed

theorem forM_checkSource {sources : List Expr}
    (present : ∀ source ∈ sources, source.isAbsent = false) :
    ((∃ source ∈ sources, source.HasJoin) ∧
      sources.forM c.checkSource = .error c.joinFault) ∨
    ((¬ ∃ source ∈ sources, source.HasJoin) ∧ sources.forM c.checkSource = .ok ()) := by
  induction sources with
  | nil => exact .inr ⟨by simp, rfl⟩
  | cons source rest ih =>
    obtain ⟨here, present⟩ := List.forall_mem_cons.mp present
    by_cases join : source.HasJoin
    · have refused : c.checkSource source = .error c.joinFault := by
        rw [checkSource, if_neg (by simp [here]), if_pos (Expr.any_isJoin_iff.mpr join)]
        rfl
      have stopped : (source :: rest).forM c.checkSource = .error c.joinFault := by
        show c.checkSource source >>= _ = _
        rw [refused]
        rfl
      exact .inl ⟨⟨source, .head _, join⟩, stopped⟩
    · have passed : c.checkSource source = .ok () := by
        rw [checkSource, if_neg (by simp [here]), if_neg (mt Expr.any_isJoin_iff.mp join)]
      have onward : (source :: rest).forM c.checkSource = rest.forM c.checkSource := by
        show c.checkSource source >>= _ = _
        rw [passed]
        rfl
      rw [onward]
      simpa [join] using ih present

/-- Without grouping and conditions on groups, a statement is turned down for a join if and only if
one occurs anywhere in its sources, and otherwise its plan, or the fault that stands in for it, is
that of the statement without sources. -/
theorem plan_sources (c : Candidate) (ungrouped : c.statement.grouping = [])
    (unlimited : c.statement.having.isAbsent = true)
    (present : ∀ source ∈ c.statement.sources, source.isAbsent = false) :
    (c.plan = .error c.joinFault ↔ ∃ source ∈ c.statement.sources, source.HasJoin) ∧
    ((¬ ∃ source ∈ c.statement.sources, source.HasJoin) → c.plan = (c.sourcedFrom []).plan) := by
  have checked : c.checkClauses = c.statement.sources.forM c.checkSource := by
    rw [checkClauses, if_neg (by simp [ungrouped]), if_neg (by simp [unlimited])]
  have unsourced : (c.sourcedFrom []).plan = c.readResults none [] c.statement.results := by
    have alike : Alike (c.sourcedFrom []) c := ⟨rfl, rfl, rfl⟩
    have passed : (c.sourcedFrom []).checkClauses = .ok () := by
      rw [checkClauses, if_neg (by simp [sourcedFrom, ungrouped]),
        if_neg (by simp [sourcedFrom, unlimited])]
      rfl
    rw [plan_eq, passed]
    exact readResults_alike alike none [] c.statement.results
  rw [unsourced, plan_eq, checked]
  obtain ⟨join, refused⟩ | ⟨free, passed⟩ := c.forM_checkSource present
  · rw [refused]
    exact ⟨iff_of_true rfl join, fun free => absurd join free⟩
  · rw [passed]
    exact ⟨iff_of_false (c.readResults_ne_joinFault none [] _) free, fun _ => rfl⟩

def nestedJoin : Candidate where
  statement :=
    { candidate := some (.record "Task"), filter := .absent, ordering := [], results := []
      sources := [.source (some (.record "Task")) (some "this"),
        .call "least" (.field ["this"]) [.literal (.integer 1), .unary .not (.compare .equal
          (.join (.source (some (.record "Task")) (some "t")) (.field ["t", "owner"]) none)
          .absent)]]
      grouping := [], having := .absent, aliasName := some "this", kind := .select, text := none
      extensions := [] }
  mapping := Registry.mappingOf (.record "Task") ⟨"Task", [("id", false)]⟩
    [.plain ⟨"id", .integer, true, false, none, none, false, false⟩] none

theorem plan_sources_nestedJoin :
    (nestedJoin.statement.grouping = [] ∧ nestedJoin.statement.having.isAbsent = true ∧
      ∀ source ∈ nestedJoin.statement.sources, source.isAbsent = false) ∧
    nestedJoin.plan = .error (.unsupportedFeature .join none) := by
  have present : ∀ source ∈ nestedJoin.statement.sources, source.isAbsent = false := by decide
  refine ⟨⟨rfl, rfl, present⟩, (nestedJoin.plan_sources rfl rfl present).1.mpr ?_⟩
  -- the join stands in the second argument, below the negation and on the left of the comparison
  exact ⟨_, .tail _ (.head _), _, _, _, .inside (.argument _ _ (.tail _ (.head _)))
    (.inside (.operand _ _) (.inside (.compareLeft _ _ _) .here))⟩

end Candidate
end RecordStore
