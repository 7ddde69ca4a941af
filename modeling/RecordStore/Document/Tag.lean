import RecordStore.Document.Token
import RecordStore.Text.Utf8

/-!
# Tags and directives

A tag names the type of a node: by a handle and the rest of the name, or by the whole name between
angle brackets. Bytes of UTF-8 can stand in it as percent signs with two hexadecimal digits. The
directives before a document say its version and what the handles stand for.
-/

set_option autoImplicit false

namespace RecordStore
namespace Document

def closesHere (rest : List CodePoint) : Bool :=
  rest.head?.all (fun c => isGap c && c.val != 0x09)

def isNameLetter (c : CodePoint) : Bool :=
  let n := c.val
  (0x30 ≤ n && n ≤ 0x39) || (0x41 ≤ n && n ≤ 0x5A) || (0x61 ≤ n && n ≤ 0x7A) || isAmong "-_" c

def isTagLetter (c : CodePoint) : Bool := isNameLetter c || isAmong ";/?:@&=+$,.!~*'()[]" c

def readBytes? : List CodePoint → Option (Bytes × List CodePoint)
  | c :: m :: n :: rest =>
    if isAmong "%" c then do
      let b ← Hex.natural? [m, n]
      let (bs, left) ← readBytes? rest
      return (UInt8.ofNat b :: bs, left)
    else some ([], c :: m :: n :: rest)
  | cs => if cs.head?.any (isAmong "%") then none else some ([], cs)

def readLetters? : (fuel : Nat) → List CodePoint → Option (List CodePoint × List CodePoint)
  | 0, cs => some ([], cs)
  | fuel + 1, cs =>
    let (letters, left) := cs.span isTagLetter
    if left.head?.any (isAmong "%") then do
      let (bs, left) ← readBytes? left
      let t ← Utf8.decodeStrict? bs
      let (more, left) ← readLetters? fuel left
      return (letters ++ t.points ++ more, left)
    else some (letters, left)

def readTypeName? (cs : List CodePoint) : Option (Text × List CodePoint) := do
  let (letters, left) ← readLetters? (cs.length + 1) cs
  if letters.isEmpty then none else return (⟨letters⟩, left)

def afterSign? (sign : String) : List CodePoint → Option (List CodePoint)
  | c :: rest => if isAmong sign c then some rest else none
  | [] => none

def readHandle? (cs : List CodePoint) : Option (Text × List CodePoint) := do
  let rest ← afterSign? "!" cs
  if rest.head?.any isSpace then return ("!", rest)
  else
    let (letters, left) := rest.span isNameLetter
    let left ← afterSign? "!" left
    return ("!" ++ ⟨letters⟩ ++ "!", left)

def readTag? (cs : List CodePoint) : Option (Token × List CodePoint) := do
  let (tag, left) ←
    if cs.head?.any (isAmong "<") then do
      let (name, left) ← readTypeName? (cs.drop 1)
      let left ← afterSign? ">" left
      pure (Token.tag none name, left)
    else if endsHere cs then pure (.tag none "!", cs)
    else
      let isShort := !(cs.takeWhile (fun c => !closesHere [c])).any (isAmong "!")
      let (handle, rest) : Text × List CodePoint ←
        if isShort then pure ("!", cs) else readHandle? (CodePoint.ofChar '!' :: cs)
      let (name, left) ← readTypeName? rest
      pure (.tag (some handle) name, left)
  if closesHere left then return (tag, left) else none

def readRemark? (cs : List CodePoint) : Option (List CodePoint) :=
  let left := cs.dropWhile isSpace
  let left := if left.head?.any (isAmong "#") then left.dropWhile (!isBreak ·) else left
  match left with
  | [] => some []
  | c :: rest => if isBreak c then some rest else none

def readDigits? (cs : List CodePoint) : Option (Nat × List CodePoint) :=
  let (digits, left) := cs.span (fun c => 0x30 ≤ c.val && c.val ≤ 0x39)
  if digits.isEmpty then none
  else some (digits.foldl (fun n c => n * 10 + (c.val - 0x30)) 0, left)

def readVersion? (cs : List CodePoint) : Option (Directive × List CodePoint) := do
  let (major, left) ← readDigits? (cs.dropWhile isSpace)
  let (_, left) ← readDigits? (← afterSign? "." left)
  if closesHere left then return (.version major, left) else none

def readHandleMeaning? (cs : List CodePoint) : Option (Directive × List CodePoint) := do
  let (handle, left) ← readHandle? (cs.dropWhile isSpace)
  if !left.head?.any isSpace then none
  let (name, left) ← readTypeName? (left.dropWhile isSpace)
  if closesHere left then return (.handle handle name, left) else none

/-- A directive behind its mark, up to the end of its line. Those that are not known do not
count. -/
def readDirective? (cs : List CodePoint) : Option (Token × List CodePoint) := do
  let (name, left) := cs.span isNameLetter
  if name.isEmpty || !closesHere left then none
  let (d, left) ←
    if name = Quoted.chars "YAML" then readVersion? left
    else if name = Quoted.chars "TAG" then readHandleMeaning? left
    else pure (.unknown, left.dropWhile (!isBreak ·))
  return (.directive d, ← readRemark? left)

end Document
end RecordStore
