import RecordStore.Document.Character

/-!
# The tokens of documents

A document is read as a row of tokens. Where lines are indented further than those above, a
collection begins, and where they are indented less, it ends. A word turns out to be the name of an
entry only when a colon follows it on its line, so the tokens before the word are put in then.
-/

set_option autoImplicit false

namespace RecordStore
namespace Document

inductive Directive where
  | version (major : Nat)
  | handle (handle leading : Text)
  | unknown
  deriving DecidableEq

inductive Token where
  | directive (d : Directive)
  | documentStart | documentEnd
  | blockSequence | blockMapping | blockEnd
  | flowSequence | flowSequenceEnd | flowMapping | flowMappingEnd
  | blockEntry | flowEntry
  | key | value
  | anchor (name : Text)
  | reference (name : Text)
  /-- Without a handle the name is whole. -/
  | tag (handle : Option Text) (name : Text)
  | scalar (t : Text) (isPlain : Bool)
  | streamEnd
  /-- A place from which no token can be read. -/
  | broken (problem : DocumentProblem)
  deriving DecidableEq

def Token.directive? : Token → Option Directive
  | .directive d => some d
  | _ => none

def plainBreak (c : CodePoint) : CodePoint := if c.val = 0x85 then newline else c

/-- Line breaks between words: one newline counts as a space, and of more the first does not
count. -/
def joint (first : CodePoint) (more : List CodePoint) : List CodePoint :=
  if first ≠ newline then first :: more else if more.isEmpty then [space] else more

/-! ## Scalars in quotes -/

/-- What has been passed since the last character that is no blank. -/
inductive Passed where
  | nothing
  | blanks (cs : List CodePoint)
  | breaks (first : CodePoint) (more : List CodePoint)
  /-- Line breaks behind one that does not count. -/
  | further (more : List CodePoint)

namespace Passed

def text : Passed → List CodePoint
  | .nothing => []
  | .blanks cs => cs
  | .breaks first more => joint first more
  | .further more => more

def blank (c : CodePoint) : Passed → Passed
  | .nothing => .blanks [c]
  | .blanks cs => .blanks (cs ++ [c])
  | p => p

def lineBreak (c : CodePoint) : Passed → Passed
  | .nothing | .blanks _ => .breaks (plainBreak c) []
  | .breaks first more => .breaks first (more ++ [plainBreak c])
  | .further more => .further (more ++ [plainBreak c])

end Passed

def escapeWidth? (c : CodePoint) : Option Nat :=
  if isAmong "x" c then some 2
  else if isAmong "u" c then some 4
  else if isAmong "U" c then some 8
  else none

def readEscape (cs : List CodePoint) : Except DocumentProblem (CodePoint × Nat) :=
  match cs.head?, cs.head?.bind escapeWidth? with
  | some _, some width =>
    let digits := (cs.drop 1).take width
    match Hex.natural? digits with
    | some n =>
      if digits.length < width then .error .token
      else if n < 0x110000 then .ok (CodePoint.ofNat n, width + 1)
      else .error (if n < 0x80000000 then .codePoint else .hugeNumber)
    | none => .error .token
  | some c, none =>
    let known := escapes ++ [(0x2F, '/'), (0x20, ' '), (0x09, '\t'), (0xA0, '_')]
    match known.find? (fun e => e.2.toNat == c.val) with
    | some e => .ok (CodePoint.ofNat e.1, 1)
    | none => .error .token
  | none, _ => .error .token

def readQuoted (isDouble : Bool) : (skip : Nat) → Passed → List CodePoint →
    Except DocumentProblem (List CodePoint × List CodePoint)
  | _, _, [] => .error .token
  | skip + 1, p, _ :: rest => readQuoted isDouble skip p rest
  | 0, p, c :: rest => do
    let behind (before : List CodePoint) (skip : Nat) (p : Passed) := do
      let (t, left) ← readQuoted isDouble skip p rest
      return (before ++ t, left)
    if isBlank c then readQuoted isDouble 0 (p.blank c) rest
    else if isBreak c then
      if isDivider rest then throw .token else readQuoted isDouble 0 (p.lineBreak c) rest
    else if isDouble then
      if isAmong "\"" c then return (p.text, rest)
      else if isAmong "\\" c then
        if rest.head?.any isBreak then
          if isDivider (rest.drop 1) then throw .token else behind p.text 1 (.further [])
        else
          let (e, width) ← readEscape rest
          behind (p.text ++ [e]) width .nothing
      else behind (p.text ++ [c]) 0 .nothing
    else if isAmong "'" c then
      if rest.head?.any (isAmong "'") then behind (p.text ++ [c]) 1 .nothing
      else return (p.text, rest)
    else behind (p.text ++ [c]) 0 .nothing

/-! ## Scalars without quotes -/

/-- Blanks and line breaks that may end a word or stand inside it. -/
inductive Pause where
  | nothing
  | spaces (cs : List CodePoint)
  | breaks (first : CodePoint) (more : List CodePoint) (column : Nat)

namespace Pause

def text : Pause → List CodePoint
  | .nothing => []
  | .spaces cs => cs
  | .breaks first more _ => joint first more

def isNothing : Pause → Bool
  | .nothing => true
  | _ => false

def hasBreak : Pause → Bool
  | .breaks _ _ _ => true
  | _ => false

def space (c : CodePoint) : Pause → Pause
  | .nothing => .spaces [c]
  | .spaces cs => .spaces (cs ++ [c])
  | .breaks first more column => .breaks first more (column + 1)

def lineBreak (c : CodePoint) : Pause → Pause
  | .breaks first more _ => .breaks first (more ++ [plainBreak c]) 0
  | _ => .breaks (plainBreak c) [] 0

def isOutside (indent : Int) : Pause → Bool
  | .breaks _ _ column => column < indent
  | _ => false

end Pause

def endsWord (inFlow : Bool) (c : CodePoint) (rest : List CodePoint) : Bool :=
  isGap c || (inFlow && isAmong ",?[]\x7b\x7d" c) ||
    (isAmong ":" c && (endsHere rest || (inFlow && rest.head?.any (isAmong ",[]\x7b\x7d"))))

structure PlainRead where
  text : List CodePoint
  /-- What is left behind the word and the pause after it. -/
  left : List CodePoint
  /-- Whether a line ended in that pause. -/
  endsLine : Bool

def readPlain (inFlow : Bool) (indent : Int) : Pause → List CodePoint → PlainRead
  | p, [] => ⟨[], [], p.hasBreak⟩
  | p, c :: rest =>
    let stop : PlainRead := ⟨[], c :: rest, p.hasBreak⟩
    if isSpace c then readPlain inFlow indent (p.space c) rest
    else if isBreak c then
      if isDivider rest then ⟨[], rest, true⟩ else readPlain inFlow indent (p.lineBreak c) rest
    else if endsWord inFlow c rest || (!p.isNothing && isAmong "#" c) ||
        (!inFlow && p.isOutside indent) then stop
    else
      let r := readPlain inFlow indent .nothing rest
      { r with text := p.text ++ c :: r.text }

/-! ## Scalars in blocks -/

abbrev Line := List CodePoint × Option CodePoint

def linesOf : List CodePoint → List Line
  | [] => [([], none)]
  | c :: rest =>
    if isBreak c then ([], some (plainBreak c)) :: linesOf rest
    else
      match linesOf rest with
      | [] => [([c], none)]
      | l :: more => (c :: l.1, l.2) :: more

def indentOf (l : Line) : Nat := (l.1.takeWhile isSpace).length

def skipVoid (indent : Nat) : List Line → List CodePoint × List Line
  | [] => ([], [])
  | l :: rest =>
    match l.2 with
    | some b =>
      if l.1.length ≤ indent && l.1.all isSpace then
        let (breaks, left) := skipVoid indent rest
        (b :: breaks, left)
      else ([], l :: rest)
    | none => ([], l :: rest)

/-- Whether a line belongs to the block: it is indented, and there is something behind the
indent. -/
def isInside (indent : Nat) (l : Line) : Bool := indent ≤ indentOf l && indent < l.1.length

inductive Chomping where
  | strip | clip | keep
  deriving DecidableEq

structure BlockHeader where
  folds : Bool
  chomping : Chomping
  /-- How far the lines are indented, if the header says it. -/
  increment : Option Nat

def readBlock (h : BlockHeader) (indent : Nat) (breaks : List CodePoint) :
    List Line → List CodePoint × List Line
  | [] => (if h.chomping = .keep then breaks else [], [])
  | l :: rest =>
    if isInside indent l then
      let content := l.1.drop indent
      let isOpen (cs : List CodePoint) : Bool := !cs.head?.any isBlank
      let (further, after) := skipVoid indent rest
      let goesOn := after.head?.any (isInside indent)
      let last : List CodePoint := l.2.toList
      let joined : List CodePoint :=
        if !goesOn then (if h.chomping = .strip then [] else last)
        else if h.folds && l.2 = some newline && isOpen content &&
            after.head?.any (fun n => isOpen (n.1.drop indent)) then
          (if further.isEmpty then [space] else [])
        else last
      let (text, left) := readBlock h indent [] rest
      (breaks ++ content ++ joined ++ text, left)
    else if l.2.isSome && l.1.length ≤ indent && l.1.all isSpace then
      readBlock h indent (breaks ++ l.2.toList) rest
    else (if h.chomping = .keep then breaks else [], l :: rest)

end Document
end RecordStore
