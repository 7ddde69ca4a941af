import RecordStore.Document.Tag

/-!
# Reading tokens

The reader goes through a document once. It keeps how far the open collections are indented, how
many brackets are open, and where a name may have begun: if a colon turns up on the same line, the
token that makes it a name is put in there.
-/

set_option autoImplicit false

namespace RecordStore
namespace Document

structure NameStart where
  /-- The number of tokens before it. -/
  token : Nat
  /-- Whether nothing but a name can stand there. -/
  isRequired : Bool
  index : Nat
  line : Nat
  column : Nat

structure Scan where
  rest : List CodePoint
  index : Nat
  line : Nat
  column : Nat
  /-- The number of open brackets. -/
  level : Nat
  /-- The column of the innermost open collection, or -1. -/
  indent : Int
  /-- The columns of the collections around it. -/
  outer : List Int
  /-- Whether a name can begin here. -/
  mayName : Bool
  /-- By the number of brackets around it. -/
  names : List (Nat × NameStart)
  tokens : Array Token

namespace Scan

def start (cs : List CodePoint) : Scan :=
  { rest := cs, index := 0, line := 0, column := 0, level := 0, indent := -1, outer := []
    mayName := true, names := [], tokens := #[] }

def inFlow (s : Scan) : Bool := s.level != 0

def push (s : Scan) (t : Token) : Scan := { s with tokens := s.tokens.push t }

def insert (s : Scan) (at_ : Nat) (ts : List Token) : Scan :=
  { s with tokens := s.tokens.extract 0 at_ ++ ts.toArray ++ s.tokens.extract at_ s.tokens.size }

def pass : Nat → Scan → Scan
  | 0, s => s
  | n + 1, s =>
    match s.rest with
    | [] => s
    | c :: rest =>
      let s := { s with rest := rest, index := s.index + 1 }
      pass n <|
        if isBreak c then { s with line := s.line + 1, column := 0 }
        else if isOrderMark c then s
        else { s with column := s.column + 1 }

def passTo (s : Scan) (left : List CodePoint) : Scan := s.pass (s.rest.length - left.length)

def passGap : (fuel : Nat) → Scan → Scan
  | 0, s => s
  | fuel + 1, s =>
    let left := s.rest.dropWhile isSpace
    let left :=
      if left.head?.any (isAmong "#") then left.dropWhile (!isBreak ·) else left
    let s := s.passTo left
    if s.rest.head?.any isBreak then
      let s := s.pass 1
      passGap fuel (if s.inFlow then s else { s with mayName := true })
    else s

/-- Passes on to the next token. Only the mark of documents can stand before everything else. -/
def passToToken (s : Scan) : Scan :=
  let s := if s.index = 0 && s.rest.head?.any isOrderMark then s.pass 1 else s
  s.passGap (s.rest.length + 1)

def nameAt? (s : Scan) : Option NameStart := s.names.lookup s.level

def farthestColon : Nat := 1024

def forgetStale (s : Scan) : Except DocumentProblem Scan :=
  let isStale (n : NameStart) : Bool := n.line ≠ s.line || n.index + farthestColon < s.index
  if s.names.any (fun n => isStale n.2 && n.2.isRequired) then .error .token
  else .ok { s with names := s.names.filter (fun n => !isStale n.2) }

def forgetName (s : Scan) : Except DocumentProblem Scan :=
  if s.nameAt?.any (·.isRequired) then .error .token
  else .ok { s with names := s.names.filter (fun n => n.1 ≠ s.level) }

def noteName (s : Scan) : Except DocumentProblem Scan :=
  if s.mayName then do
    let isRequired := !s.inFlow && s.indent = s.column
    let n : NameStart := ⟨s.tokens.size, isRequired, s.index, s.line, s.column⟩
    let s ← s.forgetName
    return { s with names := (s.level, n) :: s.names }
  else .ok s

def unwind (s : Scan) (column : Int) : Scan :=
  if s.inFlow then s
  else
    let rec go (s : Scan) (indent : Int) : List Int → Scan
      | [] => { s with indent := indent, outer := [] }
      | i :: outer =>
        if column < indent then go (s.push .blockEnd) i outer
        else { s with indent := indent, outer := i :: outer }
    go s s.indent s.outer

def indentTo (s : Scan) (column : Nat) : Scan × Bool :=
  if s.indent < column then ({ s with indent := column, outer := s.indent :: s.outer }, true)
  else (s, false)

def beginBlock (s : Scan) (t : Token) : Scan :=
  let (s, isNew) := s.indentTo s.column
  if isNew then s.push t else s

def take (s : Scan) (n : Nat) (t : Token) : Scan := (s.pass n).push t

abbrev Reading := Except DocumentProblem (Token × List CodePoint)

def Reading.ofOption (read : Option (Token × List CodePoint)) : Reading :=
  (read.map Except.ok).getD (.error .token)

def takeNode (s : Scan) (read : Reading) : Except DocumentProblem Scan := do
  let s ← s.noteName
  let (t, left) ← read
  return { (s.passTo left).push t with mayName := false }

def openFlow (s : Scan) (t : Token) : Except DocumentProblem Scan := do
  let s ← s.noteName
  return { s with level := s.level + 1, mayName := true }.take 1 t

def closeFlow (s : Scan) (t : Token) : Except DocumentProblem Scan := do
  let s ← s.forgetName
  return { s with level := s.level - 1, mayName := false }.take 1 t

def blockEntry (s : Scan) : Except DocumentProblem Scan :=
  if s.inFlow || s.mayName then do
    let s := if s.inFlow then s else s.beginBlock .blockSequence
    return ({ ← s.forgetName with mayName := true }.take 1 .blockEntry)
  else .error .token

def key (s : Scan) : Except DocumentProblem Scan :=
  if s.inFlow || s.mayName then do
    let s := if s.inFlow then s else s.beginBlock .blockMapping
    return ({ ← s.forgetName with mayName := !s.inFlow }.take 1 .key)
  else .error .token

def value (s : Scan) : Except DocumentProblem Scan :=
  match s.nameAt? with
  | some n =>
    let s := { s with names := s.names.filter (fun n => n.1 ≠ s.level), mayName := false }
    let (s, isNew) := if s.inFlow then (s, false) else s.indentTo n.column
    .ok ((s.insert n.token (if isNew then [.blockMapping, .key] else [.key])).take 1 .value)
  | none =>
    if s.inFlow || s.mayName then do
      let s := if s.inFlow then s else s.beginBlock .blockMapping
      return ({ ← s.forgetName with mayName := !s.inFlow }.take 1 .value)
    else .error .token

def divider (s : Scan) (read : Reading) : Except DocumentProblem Scan := do
  let s ← (s.unwind (-1)).forgetName
  let (t, left) ← read
  return { (s.passTo left).push t with mayName := false }

def readName? (make : Text → Token) (cs : List CodePoint) : Option (Token × List CodePoint) :=
  let (name, left) := cs.span isNameLetter
  if name.isEmpty || !(endsHere left || left.head?.any (isAmong "?:,]\x7d%@\x60")) then none
  else some (make ⟨name⟩, left)

def chomping? (c : CodePoint) : Option Chomping :=
  if isAmong "+" c then some .keep else if isAmong "-" c then some .strip else none

def increment? (c : CodePoint) : Option Nat := (Hex.value? c).filter (fun n => 0 < n && n < 10)

def readHeader? (folds : Bool) (cs : List CodePoint) : Option (BlockHeader × List CodePoint) :=
  let signs := cs.takeWhile (!isGap ·)
  let rest := cs.drop signs.length
  let header : Option BlockHeader :=
    match signs with
    | [] => some ⟨folds, .clip, none⟩
    | [c] =>
      match chomping? c, increment? c with
      | some ch, _ => some ⟨folds, ch, none⟩
      | none, some n => some ⟨folds, .clip, some n⟩
      | none, none => none
    | [c, d] =>
      match chomping? c, increment? d, increment? c, chomping? d with
      | some ch, some n, _, _ => some ⟨folds, ch, some n⟩
      | _, _, some n, some ch => some ⟨folds, ch, some n⟩
      | _, _, _, _ => none
    | _ => none
  header.bind (fun h => (readRemark? rest).map (fun left => (h, left)))

/-- The lines of a block: the first that holds something, or the header, says how far they are
indented. -/
def readBlockScalar? (folds : Bool) (indent : Int) (cs : List CodePoint) :
    Option (Token × List CodePoint) := do
  let (h, body) ← readHeader? folds cs
  let least := (max (indent + 1) 1).toNat
  let lines := linesOf body
  let voids := lines.takeWhile (fun l => l.1.all isSpace)
  let seen := (lines.take (voids.length + 1)).map indentOf
  let (column, breaks, lines) : Nat × List CodePoint × List Line :=
    match h.increment with
    | some n =>
      let column := least + n - 1
      let (breaks, left) := skipVoid column lines
      (column, breaks, left)
    | none =>
      (seen.foldl max least, voids.filterMap (·.2), lines.drop voids.length)
  let (text, left) := readBlock h column breaks lines
  let size := left.foldl (fun n l => n + l.1.length + l.2.toList.length) 0
  return (.scalar ⟨text⟩ false, body.drop (body.length - size))

def blockScalar (s : Scan) (folds : Bool) (cs : List CodePoint) : Except DocumentProblem Scan := do
  let s ← s.forgetName
  let (t, left) ← Reading.ofOption (readBlockScalar? folds s.indent cs)
  return { (s.passTo left).push t with mayName := true }

def quoted (s : Scan) (isDouble : Bool) (cs : List CodePoint) : Except DocumentProblem Scan :=
  s.takeNode ((readQuoted isDouble 0 .nothing cs).map (fun (t, left) => (.scalar ⟨t⟩ false, left)))

def plain (s : Scan) : Except DocumentProblem Scan := do
  let s ← s.noteName
  let r := readPlain s.inFlow (s.indent + 1) .nothing s.rest
  return { (s.passTo r.left).push (.scalar ⟨r.text⟩ true) with mayName := r.endsLine }

def canBegin (inFlow : Bool) (c : CodePoint) (rest : List CodePoint) : Bool :=
  !(isGap c || isAmong "-?:,[]\x7b\x7d#&*!|>'\"%@\x60" c) ||
    (!endsHere rest && (isAmong "-" c || (!inFlow && isAmong "?:" c)))

def token (s : Scan) (c : CodePoint) (rest : List CodePoint) : Except DocumentProblem Scan :=
  let atStart := s.column = 0
  let isMark (m : String) : Bool := isAmong m c && (s.inFlow || endsHere rest)
  if isAmong "%" c && atStart then s.divider (.ofOption (readDirective? rest))
  else if isAmong "-" c && atStart && isDivider s.rest then
    s.divider (.ok (.documentStart, rest.drop 2))
  else if isAmong "." c && atStart && isDivider s.rest then
    s.divider (.ok (.documentEnd, rest.drop 2))
  else if isAmong "[" c then s.openFlow .flowSequence
  else if isAmong "\x7b" c then s.openFlow .flowMapping
  else if isAmong "]" c then s.closeFlow .flowSequenceEnd
  else if isAmong "\x7d" c then s.closeFlow .flowMappingEnd
  else if isAmong "," c then do return ({ ← s.forgetName with mayName := true }.take 1 .flowEntry)
  else if isAmong "-" c && endsHere rest then s.blockEntry
  else if isMark "?" then s.key
  else if isMark ":" then s.value
  else if isAmong "*" c then s.takeNode (.ofOption (readName? .reference rest))
  else if isAmong "&" c then s.takeNode (.ofOption (readName? .anchor rest))
  else if isAmong "!" c then s.takeNode (.ofOption (readTag? rest))
  else if isAmong "|>" c && !s.inFlow then s.blockScalar (isAmong ">" c) rest
  else if isAmong "'" c then s.quoted false rest
  else if isAmong "\"" c then s.quoted true rest
  else if canBegin s.inFlow c rest then s.plain
  else .error .token

def broken (s : Scan) (at_ : Nat) (p : DocumentProblem) : Array Token :=
  (s.tokens.extract 0 at_).push (.broken p)

def waiting (s : Scan) : Nat := s.names.foldl (fun n name => min n name.2.token) s.tokens.size

def step (s : Scan) : Except DocumentProblem Scan := do
  let s ← s.passToToken.forgetStale
  let s := s.unwind s.column
  match s.rest with
  | [] => return (← (s.unwind (-1)).forgetName).push .streamEnd
  | c :: rest => s.token c rest

/-- Reads on to the end. Each token takes at least one character. A problem stands in the place of
the token that was asked for when it was met; `asked` is the token before this. -/
def run : (fuel asked : Nat) → Scan → Array Token
  | 0, _, s => s.tokens
  | fuel + 1, asked, s =>
    match s.forgetStale with
    | .error p => s.broken asked p
    | .ok s =>
      match s.step with
      | .error p => s.broken s.waiting p
      | .ok next => if next.tokens.back? = some .streamEnd then next.tokens else
        run fuel s.waiting next

end Scan

def tokensOf (t : Text) : List Token :=
  (Scan.run (t.length + 1) 0 (Scan.start t.points)).toList

end Document
end RecordStore
