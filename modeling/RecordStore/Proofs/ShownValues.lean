import RecordStore.Proofs.Scanning
import RecordStore.Proofs.WholeRanges
import RecordStore.Query.Expr

/-!
# Faults of showing and comparing values

What keeps a value from being shown is that something in it is misused. So it is with what is
written of values, and with what keeps the store from comparing them.
-/

set_option autoImplicit false

namespace RecordStore

theorem Text.misuses_numeral (n : Int) : Misuses (numeral n) := by
  rw [numeral]
  split
  · exact misuses_error _
  · exact misuses_ok _

theorem Identity.misuses_text (i : Identity) : Misuses i.text := by
  cases i with
  | number n => exact Text.misuses_numeral n
  | _ => exact misuses_ok _

namespace Key

theorem misuses_pathText (k : Key) : Misuses k.pathText :=
  misuses_bind (misuses_mapM fun s _ => misuses_bind s.2.misuses_text fun _ => misuses_ok _)
    fun _ => misuses_ok _

theorem misuses_text (k : Key) : Misuses k.text := by
  induction k with
  | root kind i => exact misuses_bind i.misuses_text fun _ => misuses_ok _
  | child p kind i ih =>
    exact misuses_bind i.misuses_text fun _ => misuses_bind ih fun _ => misuses_ok _

end Key

namespace Value

mutual

theorem misuses_shownWith {object : ObjectId → Except Fault Text} (h : ∀ i, Misuses (object i))
    (v : Value) : Misuses (v.shownWith object) := by
  cases v with
  | integer n =>
    rw [shownWith]
    exact Text.misuses_numeral n
  | key k =>
    rw [shownWith]
    exact k.misuses_text
  | choice type member value =>
    rw [shownWith]
    exact misuses_bind (misuses_shownWith h value) fun _ => misuses_ok _
  | object i =>
    rw [shownWith]
    exact h i
  | collection c items =>
    rw [shownWith]
    exact misuses_bind (misuses_shownEach h items) fun _ => misuses_ok _
  | _ =>
    rw [shownWith]
    exact misuses_ok _

theorem misuses_shownEach {object : ObjectId → Except Fault Text} (h : ∀ i, Misuses (object i))
    (vs : List Value) : Misuses (shownEach object vs) := by
  cases vs with
  | nil =>
    rw [shownEach]
    exact misuses_ok _
  | cons v rest =>
    rw [shownEach]
    exact misuses_bind (misuses_shownWith h v) fun _ =>
      misuses_bind (misuses_shownEach h rest) fun _ => misuses_ok _

end

end Value

namespace Heap

theorem misuses_shownObject (h : Heap) (depth : Nat) (outer : List ObjectId) (i : ObjectId) :
    Misuses (h.shownObject depth outer i) := by
  induction depth generalizing outer i with
  | zero => exact misuses_ok _
  | succ depth ih =>
    rw [shownObject]
    split
    · exact misuses_ok _
    refine misuses_bind (misuses_mapM fun f _ => ?_) fun _ => misuses_ok _
    have found : Misuses ((h.object i).value f.1) := by
      rw [Object.value]
      split
      · exact misuses_ok _
      · exact misuses_error _
    exact misuses_bind found fun v =>
      misuses_bind (v.misuses_shownWith (ih (i :: outer))) fun _ => misuses_ok _

theorem misuses_shown (h : Heap) (v : Value) : Misuses (h.shown v) :=
  v.misuses_shownWith (h.misuses_shownObject _ _)

end Heap

namespace Expr

theorem misuses_positionText (position : Option Int) : Misuses (positionText position) := by
  cases position with
  | none => exact misuses_ok _
  | some n => exact Text.misuses_numeral n

theorem misuses_parameterText (name : Option Text) (position : Option Int) :
    Misuses (parameterText name position) := by
  cases name with
  | some t => exact misuses_ok _
  | none => exact misuses_bind (misuses_positionText position) fun _ => misuses_ok _

variable {value : Value → Except Fault Text}

mutual

theorem misuses_shown (h : ∀ v, Misuses (value v)) (x : Expr) : Misuses (x.shown value) := by
  cases x with
  | both l r | either l r | compare op l r | join l r aliasName =>
    rw [shown]
    exact misuses_bind (misuses_shown h l) fun _ =>
      misuses_bind (misuses_shown h r) fun _ => misuses_ok _
  | unary op x =>
    rw [shown]
    exact misuses_bind (misuses_shown h x) fun _ => misuses_ok _
  | call name receiver args =>
    rw [shown]
    exact misuses_bind (misuses_shown h receiver) fun _ =>
      misuses_bind (misuses_shownEach h args) fun _ => misuses_ok _
  | literal v =>
    rw [shown]
    exact misuses_bind (h v) fun _ => misuses_ok _
  | parameter name position =>
    rw [shown]
    exact misuses_bind (misuses_positionText position) fun _ => misuses_ok _
  | field | source | absent =>
    rw [shown]
    exact misuses_ok _

theorem misuses_shownEach (h : ∀ v, Misuses (value v)) (xs : List Expr) :
    Misuses (shownEach value xs) := by
  cases xs with
  | nil =>
    rw [shownEach]
    exact misuses_ok _
  | cons x rest =>
    rw [shownEach]
    exact misuses_bind (misuses_shown h x) fun _ =>
      misuses_bind (misuses_shownEach h rest) fun _ => misuses_ok _

end

mutual

theorem misuses_text (h : ∀ v, Misuses (value v)) (x : Expr) : Misuses (x.text value) := by
  cases x with
  | call name receiver args =>
    rw [text]
    refine misuses_bind (misuses_textEach h args) fun _ => ?_
    dsimp only
    split
    · exact misuses_ok _
    · exact misuses_bind (misuses_text h receiver) fun _ => misuses_ok _
  | field | absent =>
    rw [text]
    exact misuses_ok _
  | literal v =>
    rw [text]
    exact h v
  | parameter name position =>
    rw [text]
    exact misuses_parameterText name position
  | _ =>
    rw [text]
    exact misuses_shown h _

theorem misuses_textEach (h : ∀ v, Misuses (value v)) (xs : List Expr) :
    Misuses (textEach value xs) := by
  cases xs with
  | nil =>
    rw [textEach]
    exact misuses_ok _
  | cons x rest =>
    rw [textEach]
    exact misuses_bind (misuses_text h x) fun _ =>
      misuses_bind (misuses_textEach h rest) fun _ => misuses_ok _

end

end Expr

section Queries

variable {shown : Value → Except Fault Text} (h : ∀ v, Misuses (shown v))
include h

theorem Selection.misuses_text (q : Selection) : Misuses (q.text shown) :=
  misuses_bind (misuses_mapM fun c _ => misuses_bind (h c.value) fun _ => misuses_ok _) fun _ =>
    misuses_bind (misuses_optionMapM fun k _ => k.misuses_pathText) fun _ => misuses_ok _

theorem NativeQuery.misuses_text (native : NativeQuery) : Misuses (native.text shown) := by
  cases native with
  | selection q => exact q.misuses_text h
  | lookup kind keys =>
    refine misuses_bind (misuses_mapM fun k _ => ?_) fun _ => misuses_ok _
    cases k with
    | none => exact misuses_ok _
    | some k => exact k.misuses_text

end Queries

def IsMisuse (problem? : Option Fault) : Prop := ∀ f, problem? = some f → ∃ u, f = .misuse u

theorem isMisuse_none : IsMisuse none := nofun

theorem isMisuse_some (u : Misuse) : IsMisuse (some (.misuse u)) := by
  rintro f ⟨⟩
  exact ⟨u, rfl⟩

theorem isMisuse_or {a b : Option Fault} (ha : IsMisuse a) (hb : IsMisuse b) :
    IsMisuse (a.or b) := by
  intro f h
  rcases Option.or_eq_some_iff.mp h with h | ⟨-, h⟩
  · exact ha f h
  · exact hb f h

section Lists

variable {α : Type} {fault? : α → Option Fault} (h : ∀ a, IsMisuse (fault? a))
include h

theorem isMisuse_findSome? (as : List α) : IsMisuse (as.findSome? fault?) := by
  intro f found
  obtain ⟨a, -, failed⟩ := List.exists_of_findSome?_eq_some found
  exact h a f failed

theorem isMisuse_firstFault (isLast : α → Bool) (as : List α) :
    IsMisuse (firstFault fault? isLast as) := by
  induction as with
  | nil => exact isMisuse_none
  | cons a rest ih =>
    rw [firstFault]
    refine isMisuse_or (h a) ?_
    split
    · exact isMisuse_none
    · exact ih

end Lists

namespace Standing

theorem isMisuse_clash? (s t : Standing) : IsMisuse (s.clash? t) := by
  unfold clash?
  split
  · split
    · exact isMisuse_none
    · exact isMisuse_some _
  · exact isMisuse_none

theorem isMisuse_extremeClash? (direction : Direction) (s : Standing) (rest : List Standing) :
    IsMisuse (extremeClash? direction s rest) := by
  induction rest generalizing s with
  | nil => exact isMisuse_none
  | cons x rest ih => exact isMisuse_or (x.isMisuse_clash? s) (ih _)

theorem isMisuse_clashAmong? (standings : List Standing) : IsMisuse (clashAmong? standings) := by
  induction standings with
  | nil => exact isMisuse_none
  | cons s rest ih => exact isMisuse_or (isMisuse_findSome? s.isMisuse_clash? rest) ih

end Standing

section Problems

variable {shown : Value → Except Fault Text} (h : ∀ v, Misuses (shown v))
include h

theorem Standing.isMisuse_fault? (v : Value) : IsMisuse (ofValue shown v).fault? := by
  have other (v : Value) : IsMisuse (Standing.other (shown v)).fault? := by
    rcases text : shown v with f | t
    · obtain ⟨u, rfl⟩ := h v f text
      exact isMisuse_some u
    · exact isMisuse_none
  cases v with
  | decimal | choice | object | collection => exact other _
  | _ => exact isMisuse_none

theorem Condition.isMisuse_problem? (c : Condition) (item : Value) :
    IsMisuse (c.problem? shown item) := by
  refine isMisuse_or (Standing.isMisuse_fault? h item) ?_
  split
  · exact isMisuse_none
  · exact Standing.isMisuse_clash? _ _

theorem Record.isMisuse_problem? (r : Record) (c : Condition) : IsMisuse (r.problem? shown c) := by
  rw [problem?]
  split
  · exact isMisuse_none
  · exact isMisuse_or (Standing.isMisuse_fault? h c.value)
      (isMisuse_firstFault (c.isMisuse_problem? h) _ _)

theorem Record.isMisuse_standingProblem? (c : SortClause) (r : Record) :
    IsMisuse (r.standingProblem? shown c) := by
  intro f failed
  rw [standingProblem?] at failed
  have faults : ∀ s ∈ r.standings shown c.property, IsMisuse s.fault? := by
    intro s hs
    rw [standings] at hs
    split at hs
    · cases hs
    · obtain ⟨item, -, rfl⟩ := List.mem_map.mp hs
      exact Standing.isMisuse_fault? h item
  split at failed
  · cases failed
  · rename_i s rest standings
    rcases Option.or_eq_some_iff.mp failed with failed | ⟨-, failed⟩
    · obtain ⟨x, hx, failed⟩ := List.exists_of_findSome?_eq_some failed
      exact faults x (standings ▸ hx) f failed
    · exact s.isMisuse_extremeClash? c.direction rest f failed

namespace Selection

theorem isMisuse_problem? (q : Selection) (rs : List Record) : IsMisuse (q.problem? shown rs) := by
  have tried (r : Record) : IsMisuse (q.trialProblem? shown r) := by
    rw [trialProblem?]
    split
    · exact isMisuse_firstFault (r.isMisuse_problem? h) _ _
    · exact isMisuse_none
  have sorted (rs : List Record) (clauses : List SortClause) :
      IsMisuse (q.sortProblem? shown rs clauses) := by
    induction clauses with
    | nil => exact isMisuse_none
    | cons c rest ih =>
      exact isMisuse_or ih (isMisuse_or (isMisuse_findSome? (Record.isMisuse_standingProblem? h c)
        _)
        (Standing.isMisuse_clashAmong? _))
  exact isMisuse_or (isMisuse_findSome? tried rs) (sorted _ _)

theorem misuses_matching (q : Selection) (rs : List Record) : Misuses (q.matching shown rs) := by
  intro f failed
  rw [matching] at failed
  split at failed
  · rename_i g problem
    cases failed
    exact q.isMisuse_problem? h rs f problem
  · cases failed

end Selection

def Window.IsNumeric (w : Window) : Prop :=
  ∀ b, w.offset = some b ∨ w.limit = some b → b.quantity?.isSome = true

omit h in
theorem Bound.misuses_text {b : Bound} (number : b.quantity?.isSome = true) : Misuses b.text := by
  cases b with
  | integer n => exact Text.misuses_numeral n
  | other shown => cases number
  | _ => exact misuses_ok _

omit h in
theorem Window.misuses_start {w : Window} (numeric : w.IsNumeric) : Misuses w.start.text := by
  have number : w.start.quantity?.isSome = true := by
    rw [start, Bound.unlessZero]
    split
    · rfl
    · cases offset : w.offset with
      | none => rfl
      | some b => exact numeric b (.inl offset)
  exact Bound.misuses_text number

theorem Store.misuses_note (q : Selection) {w : Window} (numeric : w.IsNumeric) :
    Misuses (note shown q w) :=
  misuses_bind (q.misuses_text h) fun _ => misuses_bind (w.misuses_start numeric) fun _ =>
    misuses_bind (misuses_optionMapM fun b hb => b.misuses_text (numeric b (.inr hb)))
      fun _ => misuses_ok _

theorem Store.misuses_scanned (q : Selection) {w : Window} (numeric : w.IsNumeric) (keysOnly : Bool)
    (rs : List Record) : Misuses (scanned shown q w keysOnly rs) :=
  misuses_bind (q.misuses_matching h rs) fun _ =>
    misuses_bind (misuses_note h q numeric) fun _ => misuses_ok _

end Problems

/-! The bounds of a range that has a window are numbers, or its bounds could not be compared. -/

theorem Bound.quantity?_of_isBelow {a b : Bound} {below : Bool} (h : a.isBelow b = .ok below) :
    a.quantity?.isSome = true ∧ b.quantity?.isSome = true := by
  rw [isBelow] at h
  split at h
  · rename_i p q ha hb
    simp [ha, hb]
  · cases h

theorem Bound.quantity?_of_least {a b c : Bound} (h : a.least b = .ok c) :
    c.quantity?.isSome = true := by
  obtain ⟨below, compared, h⟩ := (bind_eq_ok_iff _ _ _).mp h
  obtain ⟨hb, ha⟩ := quantity?_of_isBelow compared
  split at h <;> cases h
  · exact hb
  · exact ha

theorem Bound.quantity?_of_subtract {a b c : Bound} (h : a.subtract b = .ok c) :
    c.quantity?.isSome = true := by
  rw [subtract, combine] at h
  split at h
  · cases h
    rfl
  split at h
  · obtain ⟨x, -, h⟩ := (bind_eq_ok_iff _ _ _).mp h
    obtain ⟨y, -, h⟩ := (bind_eq_ok_iff _ _ _).mp h
    cases difference : x.subtract y with
    | error signal =>
      rw [difference] at h
      cases h
    | ok d =>
      rw [difference] at h
      cases h
      rfl
  · obtain ⟨x, -, h⟩ := (bind_eq_ok_iff _ _ _).mp h
    obtain ⟨y, -, h⟩ := (bind_eq_ok_iff _ _ _).mp h
    cases h
    rfl

theorem Range.refuse_ne_ok (r : Range) (query : Option Text) (x : Unit) :
    r.refuse query ≠ .ok x := by
  intro h
  obtain ⟨_, -, h⟩ := (bind_eq_ok_iff _ _ _).mp h
  obtain ⟨_, -, h⟩ := (bind_eq_ok_iff _ _ _).mp h
  cases h

theorem Range.isNumeric_window {r : Range} {largest : Bound} {query : Option Text} {w : Window}
    (h : r.window largest query = .ok w) : w.IsNumeric := by
  obtain ⟨below, -, h⟩ := (bind_eq_ok_iff _ _ _).mp h
  cases below with
  | true =>
    obtain ⟨_, refused, -⟩ := (bind_eq_ok_iff _ _ _).mp h
    exact absurd refused (r.refuse_ne_ok query _)
  | false =>
  obtain ⟨below, -, h⟩ := (bind_eq_ok_iff _ _ _).mp h
  cases below with
  | true =>
    obtain ⟨_, refused, -⟩ := (bind_eq_ok_iff _ _ _).mp h
    exact absurd refused (r.refuse_ne_ok query _)
  | false =>
  obtain ⟨offset, hoffset, h⟩ := (bind_eq_ok_iff _ _ _).mp h
  obtain ⟨limit, hlimit, h⟩ := (bind_eq_ok_iff _ _ _).mp h
  cases h
  rintro b (rfl | rfl)
  · obtain ⟨a, -, least⟩ := optionMapM_eq_some hoffset
    exact Bound.quantity?_of_least least
  · obtain ⟨a, -, limited⟩ := optionMapM_eq_some hlimit
    obtain ⟨last, least, limited⟩ := (bind_eq_ok_iff _ _ _).mp limited
    cases offset with
    | none =>
      cases limited
      exact Bound.quantity?_of_least least
    | some start => exact Bound.quantity?_of_subtract limited

end RecordStore
