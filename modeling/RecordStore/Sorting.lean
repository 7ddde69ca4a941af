/-!
# Sorting by runs

A row is cut into runs, which are merged with their neighbours. A boundary between two runs has a
depth in the halvings of the row, and of two boundaries the deeper one goes first. Where some items
stand in no order to each other, the result depends on which items are compared, and so on all of
this.

Items that belong before a place are looked for outwards from a position, in steps that double, and
then by halving what is left. Where some items stand in no order to each other, the place found
depends on which items are looked at.

A run is a part of a row whose items follow each other in order. A run that is too short is made
longer by putting in the items behind it, each found its place by halving, behind all that it is not
found to precede.

Two runs are merged item by item, until one of them has come first so often in a row that it pays to
search how many of its items come first. How often that is changes from merge to merge. The shorter
of the runs is taken apart: the first run from its front, or the second one from its end.
-/

set_option autoImplicit false

namespace RecordStore
namespace Sorting

section Search

variable {α : Type}

def halve (isBefore : Nat → Bool) (low high : Nat) : Nat :=
  if low < high then
    let middle := low + (high - low) / 2
    if isBefore middle then halve isBefore (middle + 1) high else halve isBefore low middle
  else low
  termination_by high - low

/-- The last step that goes on and the first that does not, which is the limit at most. Each step is
one more than twice the step before. -/
def stride (goesOn : Nat → Bool) (limit : Nat) : (fuel last step : Nat) → Nat × Nat
  | 0, last, step => (last, min step limit)
  | fuel + 1, last, step =>
    if step < limit && goesOn step then stride goesOn limit fuel step (2 * step + 1)
    else (last, min step limit)

def reach (isBefore : α → Bool) (items : List α) (position : Nat) : Nat :=
  let row := items.toArray
  let test (i : Nat) : Bool := row[i]?.any isBefore
  if test position then
    let (last, step) := stride (fun k => test (position + k)) (row.size - position) row.size 0 1
    halve test (position + last + 1) (position + step)
  else
    let (last, step) := stride (fun k => !test (position - k)) (position + 1) row.size 0 1
    halve test (position + 1 - step) (position - last)

end Search

section Runs

variable {α : Type} (precedes : α → α → Bool)

def insert (items : List α) (a : α) : List α :=
  let row := items.toArray
  items.insertIdx (halve (fun i => !row[i]?.any (precedes a)) 0 row.size) a

def runFrom (goesOn : α → α → Bool) (a : α) : List α → List α × List α
  | [] => ([], [])
  | b :: rest =>
    if goesOn a b then
      let (run, others) := runFrom goesOn b rest
      (b :: run, others)
    else ([], b :: rest)

/-- The items up to the first that breaks the run, in order, and the others. A run goes down if its
second item precedes its first. -/
def firstRun : List α → List α × List α
  | a :: b :: rest =>
    if precedes b a then
      let (run, others) := runFrom (fun x y => precedes y x) b rest
      ((a :: b :: run).reverse, others)
    else
      let (run, others) := runFrom (fun x y => !precedes y x) b rest
      (a :: b :: run, others)
  | items => (items, [])

def longRun (length : Nat) (items : List α) : List α × List α :=
  let (run, others) := firstRun precedes items
  let count := length - run.length
  ((others.take count).foldl (insert precedes) run, others.drop count)

end Runs

section Merges

variable {α : Type}

/-- How the items of a merge are taken: from the run that is taken apart, and from the other. -/
structure Taking (α : Type) where
  /-- Whether an item of the other run comes before one of the run that is taken apart. -/
  takesOther : α → α → Bool
  /-- Whether the runs are taken from their ends. -/
  fromEnd : Bool

namespace Taking

/-- How many items at the start of a row come first; from the end the row is searched backwards. -/
def lead (t : Taking α) (comesFirst : α → Bool) (items : List α) : Nat :=
  if t.fromEnd then
    items.length - reach (fun a => !comesFirst a) items.reverse (items.length - 1)
  else reach comesFirst items 0

end Taking

structure Merging (α : Type) where
  /-- The items that are merged, the last first. -/
  done : List α
  /-- What is left of the run that is taken apart, whose last item comes last of all. -/
  own : List α
  other : List α
  /-- After how many items in a row from one run the search begins. -/
  patience : Nat

namespace Merging

def worthwhile : Nat := 7

def isOver (m : Merging α) : Bool := m.other.isEmpty || m.own.length ≤ 1

def result (m : Merging α) : List α :=
  if m.other.isEmpty then m.done.reverse ++ m.own else m.done.reverse ++ m.other ++ m.own

def takeOwn (m : Merging α) (n : Nat) : Merging α :=
  { m with done := (m.own.take n).reverse ++ m.done, own := m.own.drop n }

def takeOther (m : Merging α) (n : Nat) : Merging α :=
  { m with done := (m.other.take n).reverse ++ m.done, other := m.other.drop n }

def andThen (m : Merging α) (next : Merging α → Merging α) : Merging α :=
  if m.isOver then m else next m

def ownLead (t : Taking α) (m : Merging α) : Nat :=
  m.other.head?.elim 0 (fun b => t.lead (fun a => !t.takesOther a b) m.own)

def otherLead (t : Taking α) (m : Merging α) : Nat :=
  m.own.head?.elim 0 (fun a => t.lead (t.takesOther a) m.other)

/-- A search in the one run and in the other; behind the items found comes one of the run that was
not searched. From the end the second run is searched first. -/
def search (t : Taking α) (m : Merging α) : Merging α × Bool :=
  let m := { m with patience := if m.patience > 1 then m.patience - 1 else m.patience }
  if t.fromEnd then
    let n := m.otherLead t
    let m := ((m.takeOther n).andThen (·.takeOwn 1))
    let k := if m.isOver then 0 else m.ownLead t
    let m := m.andThen (fun m => (m.takeOwn k).andThen (·.takeOther 1))
    (m, n ≥ worthwhile || k ≥ worthwhile)
  else
    let n := m.ownLead t
    let m := ((m.takeOwn n).andThen (·.takeOther 1))
    let k := if m.isOver then 0 else m.otherLead t
    let m := m.andThen (fun m => (m.takeOther k).andThen (·.takeOwn 1))
    (m, n ≥ worthwhile || k ≥ worthwhile)

/-- Merges on, given how many items in a row have come from each run; none while searching. Each
step takes an item at least, but for the steps between taking and searching. -/
def go (t : Taking α) : (fuel : Nat) → (inRow : Option (Nat × Nat)) → Merging α → Merging α
  | 0, _, m => m
  | fuel + 1, inRow, m =>
    match inRow, m.own, m.other with
    | _, _, [] => m
    | _, [], _ => m
    | _, [_], _ => m
    | some (own, other), a :: _, b :: _ =>
      let taken := t.takesOther a b
      let inRow := if taken then (0, other + 1) else (own + 1, 0)
      let m := if taken then m.takeOther 1 else m.takeOwn 1
      if !m.isOver && max inRow.1 inRow.2 ≥ m.patience then
        go t fuel none { m with patience := m.patience + 1 }
      else go t fuel (some inRow) m
    | none, _, _ =>
      let (m, goesOn) := m.search t
      if m.isOver then m
      else if goesOn then go t fuel none m
      else go t fuel (some (0, 0)) { m with patience := m.patience + 1 }

def merge (t : Taking α) (own other : List α) (patience : Nat) : List α × Nat :=
  let m : Merging α := ⟨[], own, other, patience⟩
  let m := go t (2 * (own.length + other.length) + 2) (some (0, 0)) (m.takeOther 1)
  (m.result, m.patience)

end Merging

variable (precedes : α → α → Bool)

/-- Merges two runs. Items that are in place already, at the start of the first run and at the end
of the second, are left there. -/
def mergeRuns (first second : List α) (patience : Nat) : List α × Nat :=
  match second.head? with
  | none => (first, patience)
  | some b =>
    let (start, first) := first.splitAt (reach (fun a => !precedes b a) first 0)
    match first.getLast? with
    | none => (start ++ second, patience)
    | some a =>
      let count := reach (fun x => precedes x a) second (second.length - 1)
      let (second, rest) := second.splitAt count
      if second.isEmpty then (start ++ first ++ rest, patience)
      else
        let (merged, patience) :=
          if first.length ≤ second.length then
            Merging.merge ⟨fun x y => precedes y x, false⟩ first second patience
          else
            let (merged, patience) :=
              Merging.merge ⟨precedes, true⟩ second.reverse first.reverse patience
            (merged.reverse, patience)
        (start ++ merged ++ rest, patience)

end Merges

section Stacks

variable {α : Type}

/-- How long a run is to be: the length of the row, halved and rounded up if anything is lost, until
it is below 64. -/
def runLength (length : Nat) (isRounded : Bool) : Nat :=
  if length < 64 then length + isRounded.toNat
  else runLength (length / 2) (isRounded || length % 2 = 1)

def depthBetween (length : Nat) : (fuel low high : Nat) → Nat
  | 0, _, _ => 0
  | fuel + 1, low, high =>
    if low ≥ length then 1 + depthBetween length fuel (2 * (low - length)) (2 * (high - length))
    else if high ≥ length then 1
    else 1 + depthBetween length fuel (2 * low) (2 * high)

structure Run (α : Type) where
  items : List α
  start : Nat
  /-- The depth of the boundary behind the run. -/
  depth : Nat

namespace Run

def merge (precedes : α → α → Bool) (a b : Run α) (patience : Nat) : Run α × Nat :=
  let (items, patience) := mergeRuns precedes a.items b.items patience
  (⟨items, a.start, a.depth⟩, patience)

end Run

/-- The runs so far, the last first, and how patient merges are. -/
structure Stack (α : Type) where
  runs : List (Run α)
  patience : Nat

namespace Stack

variable (precedes : α → α → Bool)

def settle (depth : Nat) : (fuel : Nat) → Stack α → Stack α
  | 0, s => s
  | fuel + 1, s =>
    match s.runs with
    | b :: a :: rest =>
      if a.depth > depth then
        let (run, patience) := a.merge precedes b s.patience
        settle depth fuel ⟨run :: rest, patience⟩
      else s
    | _ => s

def push (length : Nat) (s : Stack α) (run : Run α) : Stack α :=
  match s.runs with
  | [] => { s with runs := [run] }
  | last :: _ =>
    let low := 2 * last.start + last.items.length
    let depth := depthBetween length (length + 64) low
      (low + last.items.length + run.items.length)
    let s := s.settle precedes depth s.runs.length
    match s.runs with
    | [] => { s with runs := [run] }
    | last :: rest => { s with runs := run :: { last with depth := depth } :: rest }

/-- Merges what is left: the last two runs, or the two before the last if the first of them is
shorter than the last. -/
def finish : (fuel : Nat) → Stack α → List α
  | 0, s => s.runs.reverse.flatMap (·.items)
  | fuel + 1, s =>
    match s.runs with
    | c :: b :: a :: rest =>
      if a.items.length < c.items.length then
        let (run, patience) := a.merge precedes b s.patience
        finish fuel ⟨c :: run :: rest, patience⟩
      else
        let (run, patience) := b.merge precedes c s.patience
        finish fuel ⟨run :: a :: rest, patience⟩
    | [c, b] => (b.merge precedes c s.patience).1.items
    | [c] => c.items
    | [] => []

end Stack

variable (precedes : α → α → Bool)

/-- Cuts a row into runs from a position on and merges them. Each run has an item at least. -/
def sortFrom (length : Nat) : (fuel position : Nat) → Stack α → List α → List α
  | 0, _, s, _ => s.finish precedes s.runs.length
  | _ + 1, _, s, [] => s.finish precedes s.runs.length
  | fuel + 1, position, s, items =>
    let (run, others) := longRun precedes (runLength length false) items
    sortFrom length fuel (position + run.length)
      (s.push precedes length ⟨run, position, 0⟩) others

def sort (items : List α) : List α :=
  sortFrom precedes items.length (items.length + 1) 0 ⟨[], Merging.worthwhile⟩ items

end Stacks

end Sorting
end RecordStore
