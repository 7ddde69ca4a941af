import RecordStore.Json.Basic
import RecordStore.Number.Numeral

/-!
# Reading JSON

Text is cut into lexemes, and the lexemes are put together one after the other while the lists and
objects that are still open wait. Words for doubles that are not finite are numbers, a number with a
fraction or an exponent is a double, and whole numbers have at most as many digits as numerals.
-/

set_option autoImplicit false

namespace RecordStore
namespace Json

/-- The parts of JSON text that stand between blanks. -/
inductive Lexeme where
  | openList | closeList | openObject | closeObject | comma | colon
  | scalar (j : Json)

def isBlank (c : CodePoint) : Bool :=
  c.val == 0x20 || c.val == 0x09 || c.val == 0x0A || c.val == 0x0D

def isDigit (c : CodePoint) : Bool := 0x30 ≤ c.val && c.val ≤ 0x39

def unit? (a b c d : CodePoint) : Option CodePoint :=
  (Hex.natural? [a, b, c, d]).map CodePoint.ofNat

def escaped? (c : CodePoint) : Option CodePoint :=
  match c.val with
  | 0x22 => some c
  | 0x5C => some c
  | 0x2F => some c
  | 0x62 => some (CodePoint.ofNat 0x08)
  | 0x66 => some (CodePoint.ofNat 0x0C)
  | 0x6E => some (CodePoint.ofNat 0x0A)
  | 0x72 => some (CodePoint.ofNat 0x0D)
  | 0x74 => some (CodePoint.ofNat 0x09)
  | _ => none

def quoted? : List CodePoint → Option (List CodePoint × List CodePoint)
  | [] => none
  | c :: rest =>
    if c.val = 0x22 then some ([], rest)
    else if c.val = 0x5C then
      match rest with
      | [] => none
      | e :: rest =>
        if e.val = 0x75 then
          match rest with
          | h :: i :: j :: k :: rest => do
            let u ← unit? h i j k
            let (read, rest) ← quoted? rest
            return (u :: read, rest)
          | _ => none
        else do
          let p ← escaped? e
          let (read, rest) ← quoted? rest
          return (p :: read, rest)
    else if c.val < 0x20 then none
    else do
      let (read, rest) ← quoted? rest
      return (c :: read, rest)

def isHigh (c : CodePoint) : Bool := 0xD800 ≤ c.val && c.val < 0xDC00
def isLow (c : CodePoint) : Bool := 0xDC00 ≤ c.val && c.val < 0xE000

def joinUnits : List CodePoint → List CodePoint
  | h :: l :: rest =>
    if isHigh h && isLow l then
      CodePoint.ofNat (0x10000 + (h.val - 0xD800) * 0x400 + (l.val - 0xDC00)) :: joinUnits rest
    else h :: joinUnits (l :: rest)
  | cs => cs

def natural (ds : List CodePoint) : Nat := ds.foldl (fun n c => n * 10 + (c.val - 0x30)) 0

def wholePart? (cs : List CodePoint) : Option (List CodePoint × List CodePoint) :=
  match cs with
  | [] => none
  | c :: rest =>
    if c.val = 0x30 then some ([c], rest)
    else if isDigit c then some (cs.takeWhile isDigit, cs.dropWhile isDigit)
    else none

def afterFraction : List CodePoint → List CodePoint
  | p :: d :: rest =>
    if p.val = 0x2E ∧ isDigit d then rest.dropWhile isDigit else p :: d :: rest
  | cs => cs

def isSign (c : CodePoint) : Bool := c.val == 0x2B || c.val == 0x2D

def afterExponent (cs : List CodePoint) : List CodePoint :=
  match cs with
  | e :: rest =>
    if e.val = 0x65 ∨ e.val = 0x45 then
      match rest with
      | s :: d :: tail =>
        if isDigit s then (d :: tail).dropWhile isDigit
        else if isSign s && isDigit d then tail.dropWhile isDigit
        else cs
      | [d] => if isDigit d then [] else cs
      | [] => cs
    else cs
  | [] => cs

def nearest (negative : Bool) (cs : List CodePoint) : Double :=
  let x := (Double.ofString? (Text.mk cs).asString).getD .nan
  if negative then x.negate else x

/-- A number; one with a fraction or an exponent is no whole number, whatever its value. -/
def number? (negative : Bool) (cs : List CodePoint) : Option (Json × List CodePoint) := do
  let (ds, rest) ← wholePart? cs
  let tail := afterExponent (afterFraction rest)
  if tail.length < rest.length then
    return (.real (nearest negative (cs.take (cs.length - tail.length))), tail)
  else if ds.length > Numeral.maxDigits then none
  else return (.integer (if negative then -(natural ds : Int) else natural ds), rest)

def word? (w : String) (j : Json) (cs : List CodePoint) : Option (Json × List CodePoint) :=
  let ps := w.toList.map CodePoint.ofChar
  if ps.isPrefixOf cs then some (j, cs.drop ps.length) else none

def scalar? (c : CodePoint) (rest : List CodePoint) : Option (Json × List CodePoint) :=
  match c.val with
  | 0x22 => do
    let (read, rest) ← quoted? rest
    return (.text ⟨joinUnits read⟩, rest)
  | 0x2D => (word? "Infinity" (.real (Double.infinity true)) rest).or (number? true rest)
  | 0x6E => word? "ull" .null rest
  | 0x74 => word? "rue" (.flag true) rest
  | 0x66 => word? "alse" (.flag false) rest
  | 0x4E => word? "aN" (.real .nan) rest
  | 0x49 => word? "nfinity" (.real (Double.infinity false)) rest
  | _ => number? false (c :: rest)

def lexeme? (c : CodePoint) (rest : List CodePoint) : Option (Lexeme × List CodePoint) :=
  match c.val with
  | 0x5B => some (.openList, rest)
  | 0x5D => some (.closeList, rest)
  | 0x7B => some (.openObject, rest)
  | 0x7D => some (.closeObject, rest)
  | 0x2C => some (.comma, rest)
  | 0x3A => some (.colon, rest)
  | _ => (scalar? c rest).map (fun p => (.scalar p.1, p.2))

theorem quoted?_length {cs read rest : List CodePoint} (h : quoted? cs = some (read, rest)) :
    rest.length < cs.length := by
  fun_induction quoted? cs generalizing read rest <;>
    simp_all [bind, Option.bind_eq_some_iff, pure] <;> grind

theorem wholePart?_length {cs ds rest : List CodePoint} (h : wholePart? cs = some (ds, rest)) :
    rest.length < cs.length := by
  unfold wholePart? at h
  split at h
  · simp at h
  · rename_i c tail
    split at h
    · simp at h; simp [← h.2]
    · split at h
      · rename_i hd
        simp only [Option.some.injEq, Prod.mk.injEq] at h
        rw [← h.2, List.dropWhile_cons_of_pos hd]
        have := (List.dropWhile_sublist isDigit (l := tail)).length_le
        simp; omega
      · simp at h

theorem number?_length {negative : Bool} {cs : List CodePoint} {d : Json}
    {rest : List CodePoint} (h : number? negative cs = some (d, rest)) :
    rest.length < cs.length := by
  simp only [number?, bind, Option.bind_eq_some_iff] at h
  obtain ⟨⟨ds, tail⟩, hw, h⟩ := h
  have := wholePart?_length hw
  grind

theorem word?_length {w : String} {d e : Json} {cs rest : List CodePoint}
    (h : word? w d cs = some (e, rest)) : rest.length ≤ cs.length := by
  unfold word? at h
  grind

theorem scalar?_length {c : CodePoint} {rest tail : List CodePoint} {d : Json}
    (h : scalar? c rest = some (d, tail)) : tail.length ≤ rest.length := by
  unfold scalar? at h
  split at h
  · simp only [bind, Option.bind_eq_some_iff] at h
    obtain ⟨⟨read, tail'⟩, hq, h⟩ := h
    have := quoted?_length hq
    grind
  · rw [Option.or_eq_some_iff] at h
    rcases h with h | ⟨-, h⟩
    · exact word?_length h
    · exact Nat.le_of_lt (number?_length h)
  iterate 5 exact word?_length h
  · have := number?_length h
    simp at this
    omega

theorem lexeme?_length {c : CodePoint} {rest tail : List CodePoint} {l : Lexeme}
    (h : lexeme? c rest = some (l, tail)) : tail.length ≤ rest.length := by
  unfold lexeme? at h
  split at h
  iterate 6 (simp at h; simp [h.2])
  simp only [Option.map_eq_some_iff, Prod.mk.injEq] at h
  obtain ⟨⟨d, t⟩, hs, -, rfl⟩ := h
  exact scalar?_length hs

def lexemes? : List CodePoint → Option (List Lexeme)
  | [] => some []
  | c :: rest =>
    if isBlank c then lexemes? rest
    else
      match h : lexeme? c rest with
      | none => none
      | some (l, tail) =>
        have := lexeme?_length h
        (lexemes? tail).map (l :: ·)
termination_by cs => cs.length

inductive Expected where
  | value
  | valueOrClose
  | separator
  | name
  | nameOrClose
  | colon
  | finish (j : Json)

/-- A list or an object that is not closed yet, with what is in it so far, the last first. An entry
is an object after one more name. -/
inductive Frame where
  | list (before : List Json)
  | object (before : List (Text × Json))
  | entry (before : List (Text × Json)) (name : Text)

def place (j : Json) : List Frame → List Frame × Expected
  | [] => ([], .finish j)
  | .list before :: outer => (.list (j :: before) :: outer, .separator)
  | .entry before name :: outer => (.object ((name, j) :: before) :: outer, .separator)
  | .object before :: outer => (.object before :: outer, .separator)

def step? : List Frame → Expected → Lexeme → Option (List Frame × Expected)
  | fs, .value, .scalar j | fs, .valueOrClose, .scalar j => some (place j fs)
  | fs, .value, .openList | fs, .valueOrClose, .openList => some (.list [] :: fs, .valueOrClose)
  | fs, .value, .openObject | fs, .valueOrClose, .openObject =>
    some (.object [] :: fs, .nameOrClose)
  | .list before :: fs, .valueOrClose, .closeList
  | .list before :: fs, .separator, .closeList => some (place (.list before.reverse) fs)
  | .object before :: fs, .nameOrClose, .closeObject
  | .object before :: fs, .separator, .closeObject =>
    some (place (.object (byName before.reverse)) fs)
  | .list before :: fs, .separator, .comma => some (.list before :: fs, .value)
  | .object before :: fs, .separator, .comma => some (.object before :: fs, .name)
  | .object before :: fs, .name, .scalar (.text t)
  | .object before :: fs, .nameOrClose, .scalar (.text t) => some (.entry before t :: fs, .colon)
  | fs, .colon, .colon => some (fs, .value)
  | _, _, _ => none

def run? : List Frame → Expected → List Lexeme → Option Json
  | _, .finish j, [] => some j
  | _, _, [] => none
  | fs, e, l :: rest =>
    match step? fs e l with
    | none => none
    | some (fs', e') => run? fs' e' rest

def isDeeper (limit : Nat) (fs : List Frame) (e : Expected) : List CodePoint → Bool
  | [] => false
  | c :: rest =>
    if isBlank c then isDeeper limit fs e rest
    else
      match h : lexeme? c rest with
      | none => false
      | some (l, tail) =>
        have := lexeme?_length h
        match step? fs e l with
        | none => false
        | some (fs', e') => limit < fs'.length || isDeeper limit fs' e' tail
termination_by cs => cs.length

def deepest : Nat := 985

def isTooDeep (t : Text) : Bool := isDeeper deepest [] .value t.points

def read? (t : Text) : Option Json := (lexemes? t.points).bind (run? [] .value)

end Json
end RecordStore
