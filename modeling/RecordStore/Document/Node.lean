import RecordStore.Document.Scan
import RecordStore.Fault

/-!
# The nodes of documents

A document holds one node: a scalar, a sequence of nodes, or a mapping from nodes to nodes. A node
can have a name, by which it can stand in other places, too. Where nothing is given, an empty scalar
stands.
-/

set_option autoImplicit false

namespace RecordStore
namespace Document

inductive Node where
  /-- Plain scalars stand for what they are written like, others for texts. -/
  | scalar (tag : Option Text) (isPlain : Bool) (t : Text)
  | sequence (tag : Option Text) (items : List Node)
  | mapping (tag : Option Text) (entries : List (Node × Node))
  /-- A node inside itself. -/
  | endless

instance : Inhabited Node := ⟨.scalar none true Text.empty⟩

namespace Node

def empty : Node := .scalar none true Text.empty

/-- What nodes are read from: the tokens that are left, and the nodes with names, where a node that
is being read has a name but is not there yet. -/
structure Source where
  tokens : List Token
  named : List (Text × Option Node)
  /-- What the handles of tags stand for. -/
  handles : List (Text × Text)
  /-- How many nodes are being read, each in the one before. -/
  depth : Nat

abbrev Reader (α : Type) := StateT Source (Except DocumentProblem) α

def peek : Reader Token := do return (← get).tokens.head?.getD .streamEnd

def skip : Reader Unit := modify (fun s => { s with tokens := s.tokens.drop 1 })

def skipIf (t : Token) : Reader Bool := do
  if (← peek) = t then
    skip
    return true
  else return false

def unexpected {α : Type} : Reader α := do
  match ← peek with
  | .broken p => throw p
  | _ => throw .arrangement

def knownHandles : List (Text × Text) := [("!", "!"), ("!!", "tag:yaml.org,2002:")]

def typeName (handle : Option Text) (name : Text) : Reader Text := do
  match handle with
  | none => return name
  | some h =>
    match ((← get).handles ++ knownHandles).lookup h with
    | some leading => return leading ++ name
    | none => throw .arrangement

structure Properties where
  anchor : Option Text
  /-- The handle and the name of the tag. -/
  tag : Option (Option Text × Text)

def takeAnchor : Reader (Option Text) := do
  match ← peek with
  | .anchor name =>
    skip
    return some name
  | _ => return none

def takeTag : Reader (Option (Option Text × Text)) := do
  match ← peek with
  | .tag handle name =>
    skip
    return some (handle, name)
  | _ => return none

def properties : Reader Properties := do
  match ← takeAnchor with
  | some name => return ⟨some name, ← takeTag⟩
  | none =>
    match ← takeTag with
    | some tag => return ⟨← takeAnchor, some tag⟩
    | none => return ⟨none, none⟩

def setNamed (name : Option Text) (n : Option Node) : Reader Unit :=
  match name with
  | none => return ()
  | some name => modify (fun s => { s with named := (name, n) :: s.named })

def remembered (name : Text) : Reader Node := do
  match (← get).named.lookup name with
  | some n => return n.getD .endless
  | none => throw .reference

def announce (name : Option Text) : Reader Unit := do
  match name with
  | none => return ()
  | some n =>
    if let .broken p ← peek then throw p
    if ((← get).named.lookup n).isSome then throw .reference
    setNamed name none

def deepest : Nat := 489

def inside {α : Type} (r : Reader α) : Reader α := do
  let depth := (← get).depth
  if deepest ≤ depth then throw .depth
  modify (fun s => { s with depth := depth + 1 })
  let a ← r
  modify (fun s => { s with depth := depth })
  return a

mutual

/-- Reads a node. Block collections cannot stand in brackets, and only behind a name can the dashes
of a sequence stand in the column of the mapping. A tag that is a mark alone leaves open what the
node is, also where it is written in quotes. -/
def read (isBlock mayBeFlush : Bool) : (fuel : Nat) → Reader Node
  | 0 => unexpected
  | fuel + 1 => do
    match ← peek with
    | .reference name =>
      skip
      remembered name
    | _ =>
      let p ← properties
      let tag ← p.tag.mapM (fun (handle, name) => typeName handle name)
      announce p.anchor
      let n ← inside (readContent isBlock mayBeFlush (p.anchor.isSome || tag.isSome) tag fuel)
      setNamed p.anchor (some n)
      return n

def readContent (isBlock mayBeFlush mayBeEmpty : Bool) (given : Option Text) :
    (fuel : Nat) → Reader Node
  | 0 => unexpected
  | fuel + 1 => do
    let isOpen := given = some "!"
    let tag := if isOpen then none else given
    match ← peek, isBlock, mayBeFlush with
    | .scalar t isPlain, _, _ =>
      skip
      return .scalar tag (isPlain || isOpen) t
    | .flowSequence, _, _ =>
      skip
      return .sequence tag (← readFlowItems true fuel)
    | .flowMapping, _, _ =>
      skip
      return .mapping tag (← readFlowEntries true fuel)
    | .blockSequence, true, _ =>
      skip
      return .sequence tag (← readItems false fuel)
    | .blockMapping, true, _ =>
      skip
      return .mapping tag (← readEntries fuel)
    | .blockEntry, _, true => return .sequence tag (← readItems true fuel)
    | _, _, _ => if mayBeEmpty then return .scalar tag true Text.empty else unexpected

/-- The items behind dashes. A sequence in the column of its mapping ends without a mark. -/
def readItems (isFlush : Bool) : (fuel : Nat) → Reader (List Node)
  | 0 => unexpected
  | fuel + 1 => do
    if ← skipIf .blockEntry then
      let n ← match ← peek with
        | .blockEntry | .blockEnd => pure empty
        | .key | .value => if isFlush then pure empty else read true false fuel
        | _ => read true false fuel
      return n :: (← readItems isFlush fuel)
    else if isFlush then return []
    else if ← skipIf .blockEnd then return []
    else unexpected

def readPart (fuel : Nat) : Reader Node := do
  match ← peek with
  | .key | .value | .blockEnd => return empty
  | _ =>
    match fuel with
    | 0 => unexpected
    | fuel + 1 => read true true fuel

def readEntries : (fuel : Nat) → Reader (List (Node × Node))
  | 0 => unexpected
  | fuel + 1 => do
    if ← skipIf .key then
      let k ← readPart fuel
      let v ← if ← skipIf .value then readPart fuel else pure empty
      return (k, v) :: (← readEntries fuel)
    else if ← skipIf .blockEnd then return []
    else unexpected

def readFlowPart (close : Token) (fuel : Nat) : Reader Node := do
  let t ← peek
  if t = .value || t = .flowEntry || t = close then return empty
  else
    match fuel with
    | 0 => unexpected
    | fuel + 1 => read false false fuel

def readFlowValue (close : Token) (fuel : Nat) : Reader Node := do
  if ← skipIf .value then
    let t ← peek
    if t = .flowEntry || t = close then return empty
    else
      match fuel with
      | 0 => unexpected
      | fuel + 1 => read false false fuel
  else return empty

def readFlowItems (isFirst : Bool) : (fuel : Nat) → Reader (List Node)
  | 0 => unexpected
  | fuel + 1 => do
    if ← skipIf .flowSequenceEnd then return []
    if !isFirst then
      if !(← skipIf .flowEntry) then unexpected
    if ← skipIf .flowSequenceEnd then return []
    let n ←
      if ← skipIf .key then do
        let k ← readFlowPart .flowSequenceEnd fuel
        let v ← readFlowValue .flowSequenceEnd fuel
        pure (.mapping none [(k, v)])
      else read false false fuel
    return n :: (← readFlowItems false fuel)

def readFlowEntries (isFirst : Bool) : (fuel : Nat) → Reader (List (Node × Node))
  | 0 => unexpected
  | fuel + 1 => do
    if ← skipIf .flowMappingEnd then return []
    if !isFirst then
      if !(← skipIf .flowEntry) then unexpected
    if ← skipIf .flowMappingEnd then return []
    let e ←
      if ← skipIf .key then do
        let k ← readFlowPart .flowMappingEnd fuel
        let v ← readFlowValue .flowMappingEnd fuel
        pure (k, v)
      else do
        let k ← read false false fuel
        pure (k, empty)
    return e :: (← readFlowEntries false fuel)

end

def skipAll (t : Token) : Reader Unit :=
  modify (fun s => { s with tokens := s.tokens.dropWhile (· = t) })

def readRoot : Reader Node := do
  let n := (← get).tokens.length
  read true false (3 * n + 3)

/-- Adds what a directive says to the version and the handles that are known. Each of them can be
said once, and the version has to begin with one. -/
def declare (known : Bool × List (Text × Text)) : Directive → Reader (Bool × List (Text × Text))
  | .version major => if known.1 || major ≠ 1 then throw .arrangement else return (true, known.2)
  | .handle handle leading =>
    if (known.2.lookup handle).isSome then throw .arrangement
    else return (known.1, (handle, leading) :: known.2)
  | .unknown => return known

def readStart : Reader Unit := do
  let (directives, tokens) := (← get).tokens.span (·.directive?.isSome)
  let (_, handles) ← (directives.filterMap Token.directive?).foldlM declare (false, [])
  modify (fun s => { s with tokens := tokens, handles := handles })
  if !(← skipIf .documentStart) then unexpected

def readDocument : Reader (Option Node) := do
  match ← peek with
  | .directive _ | .documentStart | .streamEnd => do
    if (← peek) = .streamEnd then return none
    readStart
    match ← peek with
    | .directive _ | .documentStart | .documentEnd | .streamEnd => return some empty
    | _ => some <$> readRoot
  | _ => some <$> readRoot

def readEnd : Reader Unit := do
  skipAll .documentEnd
  if (← peek) ≠ .streamEnd then
    readStart
    throw .reference

def ofText (t : Text) : Except DocumentProblem (Option Node) :=
  if t.points.all isPrinted then
    let reading : Reader (Option Node) := do
      let n ← readDocument
      readEnd
      return n
    (reading.run ⟨tokensOf t, [], [], 0⟩).map (·.1)
  else .error .character

end Node
end Document
end RecordStore
