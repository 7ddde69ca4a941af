import RecordStore.Text.Quoted

/-!
# The characters of documents

Documents part words by spaces, tabs and line breaks. There are four line breaks: the newline, the
next line, and the separators of lines and of paragraphs.
-/

set_option autoImplicit false

namespace RecordStore

/-- What can be wrong with a document, by the step of its reading that cannot go on. -/
inductive DocumentProblem where
  /-- A character that documents cannot hold. -/
  | character
  /-- A place where no token can be read. -/
  | token
  /-- An escape for a number that no code point has. -/
  | codePoint
  /-- An escape for a number that is far too great for a code point. -/
  | hugeNumber
  /-- Nodes that lie too deep in each other. -/
  | depth
  /-- Tokens that make no node. -/
  | arrangement
  /-- A name that no node or more than one node has, or more than one document. -/
  | reference
  /-- A node that stands for no value. -/
  | meaning
  deriving DecidableEq

namespace Document

def isAmong (s : String) (c : CodePoint) : Bool := s.toList.any (fun x => x.toNat == c.val)

def isSpace (c : CodePoint) : Bool := c.val == 0x20

def isBlank (c : CodePoint) : Bool := c.val == 0x20 || c.val == 0x09

def isBreak (c : CodePoint) : Bool :=
  c.val == 0x0A || c.val == 0x85 || c.val == 0x2028 || c.val == 0x2029

def isGap (c : CodePoint) : Bool := isBlank c || isBreak c || c.val == 0x00 || c.val == 0x0D

def endsHere (rest : List CodePoint) : Bool := rest.head?.all isGap

def isPrinted (c : CodePoint) : Bool :=
  let n := c.val
  isBreak c || n == 0x09 || n == 0x0D || (0x20 ≤ n && n ≤ 0x7E) || (0xA0 ≤ n && n ≤ 0xD7FF) ||
    (0xE000 ≤ n && n ≤ 0xFFFD) || 0x10000 ≤ n

def isOrderMark (c : CodePoint) : Bool := c.val == 0xFEFF

/-- Whether a character is written by an escape: those that cannot stand in a document, the tab and
the carriage return, the mark of documents, and the last code point. -/
def isHidden (c : CodePoint) : Bool :=
  !isPrinted c || c.val == 0x09 || c.val == 0x0D || isOrderMark c || c.val == 0x10FFFF

def space : CodePoint := ⟨0x20, by decide⟩

def newline : CodePoint := ⟨0x0A, by decide⟩

def spaces (n : Nat) : List CodePoint := List.replicate n space

/-- Whether a line starts with three dashes or dots that are a word of their own: those part one
document from the next. -/
def isDivider (cs : List CodePoint) : Bool :=
  (cs.take 3 = Quoted.chars "---" || cs.take 3 = Quoted.chars "...") && endsHere (cs.drop 3)

def escapes : List (Nat × Char) :=
  [(0x00, '0'), (0x07, 'a'), (0x08, 'b'), (0x09, 't'), (0x0A, 'n'), (0x0B, 'v'), (0x0C, 'f'),
    (0x0D, 'r'), (0x1B, 'e'), (0x22, '"'), (0x5C, '\\'), (0x85, 'N'), (0x2028, 'L'),
    (0x2029, 'P')]

def unixLines : List CodePoint → List CodePoint
  | [] => []
  | c :: rest =>
    if c.val = 0x0D then
      if rest.head? = some newline then unixLines rest else newline :: unixLines rest
    else c :: unixLines rest

end Document
end RecordStore
