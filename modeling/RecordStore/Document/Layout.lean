import RecordStore.Document.Word
import RecordStore.Number.Shortest

/-!
# The layout of scalars

A text is written without quotes where the word then stands for it, in single quotes if all of it
can be printed, and in double quotes with escapes if not. A line that has run past its width goes
on at the next space, and the next line is indented.
-/

set_option autoImplicit false

namespace RecordStore
namespace Document

def width : Nat := 80

/-- What is written, and the column where writing goes on. -/
structure Pen where
  written : List CodePoint
  column : Nat

namespace Pen

def put (p : Pen) (cs : List CodePoint) : Pen := ⟨p.written ++ cs, p.column + cs.length⟩

def turn (p : Pen) (indent : Nat) : Pen := ⟨p.written ++ newline :: spaces indent, indent⟩

def isPastWidth (p : Pen) : Bool := width < p.column

end Pen

inductive Grain where
  | space | lineBreak | other
  deriving DecidableEq

def Grain.of (c : CodePoint) : Grain :=
  if isSpace c then .space else if isBreak c then .lineBreak else .other

def runs (cs : List CodePoint) : List (List CodePoint) :=
  cs.splitBy (fun a b => Grain.of a = Grain.of b)

def putBreaks (p : Pen) (indent : Nat) (run : List CodePoint) : Pen :=
  let more := if run.head? = some newline then [newline] else []
  ⟨p.written ++ more ++ run ++ spaces indent, indent⟩

def putRuns (indent : Nat) (folds : Bool) (quoted : List CodePoint → List CodePoint) :
    (isFirst : Bool) → Pen → List (List CodePoint) → Pen
  | _, p, [] => p
  | isFirst, p, run :: rest =>
    let isInside := !isFirst && !rest.isEmpty
    let p :=
      match run.head?.map Grain.of with
      | some .space =>
        if folds && isInside && run.length = 1 && p.isPastWidth then p.turn indent else p.put run
      | some .lineBreak => putBreaks p indent run
      | _ => p.put (quoted run)
    putRuns indent folds quoted false p rest

def doubled (cs : List CodePoint) : List CodePoint :=
  cs.flatMap (fun c => if isAmong "'" c then [c, c] else [c])

def capitalHex (width n : Nat) : List CodePoint :=
  (Hex.digits width n).map (fun c => if 0x61 ≤ c.val then CodePoint.ofNat (c.val - 0x20) else c)

def escape? (c : CodePoint) : Option (List CodePoint) :=
  match escapes.lookup c.val with
  | some x => some (Quoted.chars "\\" ++ [CodePoint.ofChar x])
  | none =>
    if c.val < 0x10000 && !isHidden c then none
    else if c.val < 0x100 then some (Quoted.chars "\\x" ++ capitalHex 2 c.val)
    else if c.val < 0x10000 then some (Quoted.chars "\\u" ++ capitalHex 4 c.val)
    else some (Quoted.chars "\\U" ++ capitalHex 8 c.val)

def backslash : List CodePoint := Quoted.chars "\\"

/-- Ends the line by a backslash. A space that the next line starts with gets another, since spaces
there do not count otherwise. -/
def turnEscaped (p : Pen) (indent : Nat) (next : Option CodePoint) : Pen :=
  let p := (p.put backslash).turn indent
  if next.any isSpace then p.put backslash else p

/-- Writes the inside of double quotes. Characters that need no escape wait until one does or until
a space; a line past its width is broken before a space or behind an escape. -/
def putEscaped (indent : Nat) (folds : Bool) :
    (isFirst : Bool) → (waiting : List CodePoint) → Pen → List CodePoint → Pen
  | _, waiting, p, [] => p.put waiting
  | isFirst, waiting, p, c :: rest =>
    let mayTurn := folds && !isFirst && !rest.isEmpty
    let p' := p.put waiting
    match escape? c with
    | some e =>
      let p' := p'.put e
      if mayTurn && width + 1 < p'.column then
        putEscaped indent folds false [] (turnEscaped p' indent rest.head?) rest
      else putEscaped indent folds false [] p' rest
    | none =>
      if mayTurn && (isSpace c || waiting.isEmpty) && p'.isPastWidth then
        putEscaped indent folds false [c] (turnEscaped p' indent (some c)) rest
      else putEscaped indent folds false (waiting ++ [c]) p rest

/-! ## Styles -/

def hasMark : (previous : CodePoint) → List CodePoint → Bool
  | _, [] => false
  | p, c :: rest =>
    (isAmong ":" c && endsHere rest) || (isAmong "#" c && isGap p) || hasMark c rest

def isMarked (t : Text) : Bool :=
  match t.points with
  | [] => false
  | c :: rest =>
    t.startsWith "---" || t.startsWith "..." || isAmong "#,[]\x7b\x7d&*!|>'\"%@\x60" c ||
      (isAmong "?:-" c && endsHere rest) || hasMark c rest

inductive Style where
  | plain | single | double
  deriving DecidableEq

def hasLooseBreak : List CodePoint → Bool
  | c :: d :: rest =>
    (isBreak c && isSpace d) || (isSpace c && isBreak d) || hasLooseBreak (d :: rest)
  | _ => false

def styleOf (t : Text) : Style :=
  let cs := t.points
  let isEdge (c : CodePoint) : Bool := isSpace c || isBreak c
  if cs.any isHidden || hasLooseBreak cs then .double
  else if cs.isEmpty || cs.any isBreak || cs.head?.any isEdge || cs.getLast?.any isEdge ||
      isMarked t || Word.kindOf t ≠ .text then .single
  else .plain

/-- A text written from a column on, whose further lines have an indent. It is kept on one line if
it may not be folded. -/
def writeText (column indent : Nat) (folds : Bool) (t : Text) : Text :=
  let p : Pen := ⟨[], column⟩
  let quote (s : String) (inside : Pen → Pen) : Text :=
    ⟨((inside (p.put (Quoted.chars s))).put (Quoted.chars s)).written⟩
  match styleOf t with
  | .plain => ⟨(putRuns indent folds id true p (runs t.points)).written⟩
  | .single => quote "'" (putRuns indent folds doubled true · (runs t.points))
  | .double => quote "\"" (putEscaped indent folds true [] · t.points)

def writeReal (x : Double) : Text :=
  match x.parts with
  | .nan => ".nan"
  | .infinite negative => if negative then "-.inf" else ".inf"
  | .finite _ _ _ =>
    match x.text.points.span (fun c => !isAmong "e" c) with
    | (digits, power) =>
      if power.isEmpty || digits.any (isAmong ".") then x.text
      else ⟨digits ++ Quoted.chars ".0" ++ power⟩

end Document
end RecordStore
