import Mathlib.Algebra.Group.Nat.Defs
import Mathlib.Data.List.Chain
import RecordStore.Json.Basic
import RecordStore.Json.Reader
import RecordStore.Proofs.EscapedBytes

/-!
# Reading printed JSON

What is printed is cut into its lexemes again: a quoted text into the units of its code points,
which are joined where no surrogates of the text itself would be, and a whole number into its
digits, which end where a list goes on or is closed. The machine then goes through the lexemes of
lists with few of them open at once.
-/

set_option autoImplicit false

namespace RecordStore

theorem CodePoint.val_ofChar (c : Char) : (ofChar c).val = c.toNat := rfl

namespace Hex

theorem value?_digit (n : Nat) : value? (digit n) = some (n % 16) := by
  have all : ∀ m : Fin 16, value? (digit m.val) = some m.val := by decide
  have same : digit n = digit (n % 16) := by rw [digit, digit, Nat.mod_mod]
  rw [same]
  exact all ⟨n % 16, Nat.mod_lt n (by decide)⟩

theorem natural?_digits {u : Nat} (h : u < 0x10000) : natural? (digits 4 u) = some u := by
  simp only [natural?, digits, List.nil_append, List.cons_append, List.foldlM_cons,
    List.foldlM_nil, value?_digit, Option.map_some, Option.bind_eq_bind, Option.bind_some,
    Option.pure_def, Option.some.injEq]
  omega

theorem digit_lt (n : Nat) : (digit n).val < 0x80 := by
  rw [digit, CodePoint.val_ofNat (by split <;> omega)]
  split <;> omega

theorem digits_lt (width n : Nat) : ∀ c ∈ digits width n, c.val < 0x80 := by
  induction width generalizing n with
  | zero => simp [digits]
  | succ w ih =>
    rw [digits, List.forall_mem_append]
    exact ⟨ih (n / 16), by simpa using digit_lt n⟩

end Hex

namespace Json

def unitPoints (c : CodePoint) : List CodePoint := (units c).map CodePoint.ofNat

theorem unitPoints_of_lt {c : CodePoint} (h : c.val < 0x10000) : unitPoints c = [c] := by
  rw [unitPoints, units, if_pos h, List.map_singleton, CodePoint.ofNat_val]

theorem units_lt {c : CodePoint} {u : Nat} (h : u ∈ units c) : u < 0x10000 := by
  have hc := c.isLt
  rw [units] at h
  split at h
  · simp at h
    omega
  · simp at h
    omega

theorem quoted?_plain {c : CodePoint} (rest : List CodePoint)
    (h : 0x20 ≤ c.val ∧ c.val ≠ 0x22 ∧ c.val ≠ 0x5C) :
    quoted? (c :: rest) = (quoted? rest).map (fun p => (c :: p.1, p.2)) := by
  rw [quoted?.eq_def]
  simp only [h.2.1, h.2.2, Nat.not_lt.mpr h.1, if_false]
  cases quoted? rest <;> rfl

theorem quoted?_unit {u : Nat} (rest : List CodePoint) (h : u < 0x10000) :
    quoted? (Quoted.chars "\\u" ++ Hex.digits 4 u ++ rest) =
      (quoted? rest).map (fun p => (CodePoint.ofNat u :: p.1, p.2)) := by
  have read := Hex.natural?_digits h
  have chars : Quoted.chars "\\u" = [⟨0x5C, by decide⟩, ⟨0x75, by decide⟩] := by decide
  rw [chars]
  simp only [Hex.digits, List.nil_append, List.cons_append] at read ⊢
  rw [quoted?.eq_def]
  simp [unit?, read]
  cases quoted? rest <;> rfl

theorem quoted?_mark {e c : CodePoint} (rest : List CodePoint) (h : e.val ≠ 0x75)
    (read : escaped? e = some c) :
    quoted? (⟨0x5C, by decide⟩ :: e :: rest) = (quoted? rest).map (fun p => (c :: p.1, p.2)) := by
  rw [quoted?.eq_def]
  simp [h, read]
  cases quoted? rest <;> rfl

theorem quoted?_units {us : List Nat} (h : ∀ u ∈ us, u < 0x10000) (rest : List CodePoint) :
    quoted? (us.flatMap (fun u => Quoted.chars "\\u" ++ Hex.digits 4 u) ++ rest) =
      (quoted? rest).map (fun p => (us.map CodePoint.ofNat ++ p.1, p.2)) := by
  induction us with
  | nil => simp
  | cons u us ih =>
    obtain ⟨hu, hus⟩ := List.forall_mem_cons.mp h
    rw [List.flatMap_cons, List.append_assoc, quoted?_unit _ hu, ih hus, Option.map_map]
    rfl

theorem quoted?_escape (c : CodePoint) (rest : List CodePoint) :
    quoted? (escape c ++ rest) = (quoted? rest).map (fun p => (unitPoints c ++ p.1, p.2)) := by
  have mark {n m : Nat} (hc : c.val = n) (hn : n < 0x80) (hm : m < 0x80) (h75 : m ≠ 0x75)
      (read : escaped? (CodePoint.ofNat m) = some (CodePoint.ofNat n)) :
      quoted? ([⟨0x5C, by decide⟩, CodePoint.ofNat m] ++ rest) =
        (quoted? rest).map (fun p => (unitPoints c ++ p.1, p.2)) := by
    have point : CodePoint.ofNat n = c := by rw [← hc, CodePoint.ofNat_val]
    rw [point] at read
    rw [unitPoints_of_lt (by omega)]
    exact quoted?_mark rest (by rw [CodePoint.val_ofNat (by omega)]; exact h75) read
  unfold escape
  split
  · rename_i h
    exact mark h (m := 0x22) (by decide) (by decide) (by decide) (by decide)
  · rename_i h
    exact mark h (m := 0x5C) (by decide) (by decide) (by decide) (by decide)
  · rename_i h
    exact mark h (m := 0x6E) (by decide) (by decide) (by decide) (by decide)
  · rename_i h
    exact mark h (m := 0x72) (by decide) (by decide) (by decide) (by decide)
  · rename_i h
    exact mark h (m := 0x74) (by decide) (by decide) (by decide) (by decide)
  · rename_i h
    exact mark h (m := 0x62) (by decide) (by decide) (by decide) (by decide)
  · rename_i h
    exact mark h (m := 0x66) (by decide) (by decide) (by decide) (by decide)
  · split
    · rename_i plain
      rw [unitPoints_of_lt (by omega)]
      exact quoted?_plain rest ⟨plain.1, by assumption, by assumption⟩
    · exact quoted?_units (fun u => units_lt) rest

theorem chars_lt {s : String} (h : s.toList.all (·.toNat < 0x80) = true) :
    ∀ c ∈ Quoted.chars s, c.val < 0x80 := by
  simpa [Quoted.chars, CodePoint.ofChar] using h

theorem escape_lt (c : CodePoint) : ∀ d ∈ escape c, d.val < 0x80 := by
  unfold escape
  split
  iterate 7 exact chars_lt (by decide)
  split
  · rename_i plain
    rw [List.forall_mem_singleton]
    omega
  · simp only [List.forall_mem_flatMap, List.forall_mem_append]
    exact fun u _ => ⟨chars_lt (by decide), Hex.digits_lt 4 u⟩

theorem quoted?_flatMap_escape (cs rest : List CodePoint) :
    quoted? (cs.flatMap escape ++ Quoted.doubleQuote :: rest) =
      some (cs.flatMap unitPoints, rest) := by
  induction cs with
  | nil =>
    rw [List.flatMap_nil, List.nil_append, quoted?.eq_def]
    rfl
  | cons c cs ih =>
    rw [List.flatMap_cons, List.append_assoc, quoted?_escape, ih]
    rfl

/-- No high surrogate stands right before a low one. -/
def IsUnpaired (cs : List CodePoint) : Prop :=
  cs.IsChain (fun h l => (isHigh h && isLow l) = false)

instance (cs : List CodePoint) : Decidable (IsUnpaired cs) :=
  inferInstanceAs (Decidable (cs.IsChain _))

theorem joinUnits_cons {h : CodePoint} {cs : List CodePoint}
    (apart : ∀ l ∈ cs.head?, (isHigh h && isLow l) = false) :
    joinUnits (h :: cs) = h :: joinUnits cs := by
  cases cs with
  | nil => rfl
  | cons l rest => rw [joinUnits, if_neg (by simp [apart l rfl])]

theorem unitPoints_of_le {c : CodePoint} (h : 0x10000 ≤ c.val) :
    ∃ high low, unitPoints c = [high, low] ∧ isHigh high = true ∧ isLow low = true ∧
      isLow high = false ∧
      CodePoint.ofNat (0x10000 + (high.val - 0xD800) * 0x400 + (low.val - 0xDC00)) = c := by
  have hc := c.isLt
  have high := CodePoint.val_ofNat (n := 0xD800 + (c.val - 0x10000) / 0x400) (by omega)
  have low := CodePoint.val_ofNat (n := 0xDC00 + (c.val - 0x10000) % 0x400) (by omega)
  refine ⟨_, _, by rw [unitPoints, units, if_neg (by omega)]; rfl, ?_, ?_, ?_, ?_⟩
  · simp [isHigh, high]
    omega
  · simp [isLow, low]
    omega
  · simp [isLow, high]
    omega
  · rw [high, low]
    have joined : 0x10000 + (0xD800 + (c.val - 0x10000) / 0x400 - 0xD800) * 0x400 +
        (0xDC00 + (c.val - 0x10000) % 0x400 - 0xDC00) = c.val := by
      omega
    rw [joined, CodePoint.ofNat_val]

theorem isLow_head_flatMap_unitPoints {cs : List CodePoint} {l : CodePoint}
    (h : l ∈ (cs.flatMap unitPoints).head?) (low : isLow l = true) : l ∈ cs.head? := by
  cases cs with
  | nil => cases h
  | cons c cs =>
    by_cases small : c.val < 0x10000
    · rw [List.flatMap_cons, unitPoints_of_lt small] at h
      exact h
    · obtain ⟨high, low', units, -, -, apart, -⟩ := unitPoints_of_le (Nat.not_lt.mp small)
      rw [List.flatMap_cons, units] at h
      obtain rfl := Option.some.inj h
      rw [apart] at low
      cases low

theorem joinUnits_unitPoints {cs : List CodePoint} (h : IsUnpaired cs) :
    joinUnits (cs.flatMap unitPoints) = cs := by
  induction cs with
  | nil => rfl
  | cons c cs ih =>
    have rest := ih h.tail
    rw [List.flatMap_cons]
    by_cases small : c.val < 0x10000
    · rw [unitPoints_of_lt small, List.singleton_append, joinUnits_cons, rest]
      intro l hl
      cases low : isLow l with
      | false => exact Bool.and_false _
      | true =>
        have next := isLow_head_flatMap_unitPoints hl low
        rw [← low]
        exact h.rel_head? next
    · obtain ⟨high, low, units, isHigh, isLow, -, joined⟩ := unitPoints_of_le (Nat.not_lt.mp small)
      rw [units, List.cons_append, List.singleton_append, joinUnits, isHigh, isLow, Bool.and_self,
        if_pos rfl, joined, rest]

def numeral (n : Nat) : List CodePoint := (Nat.toDigits 10 n).map CodePoint.ofChar

theorem points_ofInt_of_nonneg {n : Int} (h : 0 ≤ n) : (Text.ofInt n).points =
    numeral n.natAbs := by
  have abs : n.toNat = n.natAbs := by omega
  rw [Text.ofInt, Text.ofString, Int.toString_eq_repr, Int.repr_eq_if, if_pos h, abs,
    Nat.toList_repr]
  rfl

theorem points_ofInt_of_neg {n : Int} (h : ¬ 0 ≤ n) :
    (Text.ofInt n).points = ⟨0x2D, by decide⟩ :: numeral n.natAbs := by
  have abs : (-n).toNat = n.natAbs := by omega
  rw [Text.ofInt, Text.ofString, Int.toString_eq_repr, Int.repr_eq_if, if_neg h, abs,
    String.toList_append, List.map_append, Nat.toList_repr]
  rfl

theorem isDigit_numeral (n : Nat) : ∀ c ∈ numeral n, isDigit c = true := by
  intro c hc
  obtain ⟨d, hd, rfl⟩ := List.mem_map.mp hc
  have digit := Nat.isDigit_of_mem_toDigits (by decide) (by decide) hd
  rw [Char.isDigit_iff_toNat] at digit
  rw [isDigit, Bool.and_eq_true, decide_eq_true_eq, decide_eq_true_eq]
  exact digit

theorem natural_numeral (n : Nat) : natural (numeral n) = n := by
  have read := Nat.ofDigitChars_ten_toDigits (n := n)
  rw [Nat.ofDigitChars_eq_foldl] at read
  rw [natural, numeral, List.foldl_map]
  simpa [CodePoint.val_ofChar, Nat.mul_comm] using read

theorem numeral_eq_cons (n : Nat) : ∃ c cs, numeral n = c :: cs ∧ (c.val = 0x30 → n = 0) := by
  induction n using Nat.strongRecOn with
  | _ n ih =>
  by_cases small : n < 10
  · refine ⟨CodePoint.ofChar n.digitChar, [], ?_, fun h => ?_⟩
    · rw [numeral, Nat.toDigits_of_lt_base small]
      rfl
    · rw [CodePoint.val_ofChar, Nat.toNat_digitChar_of_lt_ten small] at h
      omega
  · obtain ⟨c, cs, first, zero⟩ := ih (n / 10) (by omega)
    rw [numeral, List.map_eq_cons_iff] at first
    obtain ⟨d, ds, digits, rfl, rfl⟩ := first
    refine ⟨CodePoint.ofChar d, (ds ++ [(n % 10).digitChar]).map CodePoint.ofChar, ?_, fun h => ?_⟩
    · rw [numeral, Nat.toDigits_of_base_le (by decide) (Nat.not_lt.mp small), digits]
      rfl
    · have := zero h
      omega

def IsDelimited (rest : List CodePoint) : Prop := ∀ c ∈ rest.head?, c.val = 0x2C ∨ c.val = 0x5D

section Delimited

variable {rest : List CodePoint} (delimited : IsDelimited rest)
include delimited

theorem takeWhile_delimited (n : Nat) :
    (numeral n ++ rest).takeWhile isDigit = numeral n ∧
      (numeral n ++ rest).dropWhile isDigit = rest := by
  have stop : ∀ c ∈ rest.head?, isDigit c = false := by
    intro c hc
    have := delimited c hc
    simp [isDigit]
    omega
  rw [List.takeWhile_append_of_pos (isDigit_numeral n),
    List.dropWhile_append_of_pos (isDigit_numeral n)]
  cases rest with
  | nil => simp
  | cons c rest => simp [stop c rfl]

theorem wholePart?_numeral (n : Nat) : wholePart? (numeral n ++ rest) = some (numeral n, rest) := by
  obtain ⟨c, cs, first, zero⟩ := numeral_eq_cons n
  obtain ⟨take, drop⟩ := takeWhile_delimited delimited n
  have digit := isDigit_numeral n c (by simp [first])
  rw [first, List.cons_append] at take drop ⊢
  rw [wholePart?]
  split
  · rename_i h
    obtain rfl := zero h
    obtain ⟨rfl, rfl⟩ := List.cons.inj first
    rfl
  · rw [take, drop]

theorem afterExponent_delimited : afterExponent (afterFraction rest) = rest := by
  cases rest with
  | nil => rfl
  | cons c rest =>
    have := delimited c rfl
    have fraction : afterFraction (c :: rest) = c :: rest := by
      cases rest with
      | nil => rfl
      | cons d rest => rw [afterFraction, if_neg (by omega)]
    rw [fraction, afterExponent.eq_def]
    dsimp only
    rw [if_neg (by omega)]

theorem number?_numeral (negative : Bool) {n : Nat} (h : n < 10 ^ Numeral.maxDigits) :
    number? negative (numeral n ++ rest) = some
      (.integer (if negative then -(n : Int) else n), rest) := by
  have length : ¬ (numeral n).length > Numeral.maxDigits := by
    rw [numeral, List.length_map, Nat.not_lt, Nat.length_toDigits_le_iff (by decide) (by decide)]
    exact h
  rw [number?, wholePart?_numeral delimited, Option.bind_eq_bind, Option.bind_some]
  dsimp only
  rw [afterExponent_delimited delimited, if_neg (Nat.lt_irrefl _), if_neg length, natural_numeral]
  rfl

end Delimited

theorem lexemes?_cons {c : CodePoint} {rest tail : List CodePoint} {l : Lexeme}
    (unblank : isBlank c = false) (h : lexeme? c rest = some (l, tail)) :
    lexemes? (c :: rest) = (lexemes? tail).map (l :: ·) := by
  rw [lexemes?, unblank, if_neg (by decide)]
  split
  · rename_i failed
    rw [h] at failed
    cases failed
  · rename_i read
    rw [h] at read
    cases read
    rfl

theorem isBlank_of_isDigit {c : CodePoint} (h : isDigit c = true) : isBlank c = false := by
  simp [isDigit] at h
  simp [isBlank]
  omega

theorem lexeme?_digit {c : CodePoint} (rest : List CodePoint) (h : isDigit c = true) :
    lexeme? c rest = (number? false (c :: rest)).map (fun p => (.scalar p.1, p.2)) := by
  simp [isDigit] at h
  have scalar : scalar? c rest = number? false (c :: rest) := by
    unfold scalar?
    split
    iterate 7 (exfalso; omega)
    rfl
  unfold lexeme?
  split
  iterate 6 (exfalso; omega)
  rw [scalar]

theorem lexemes?_quote {t : Text} (h : IsUnpaired t.points) (rest : List CodePoint) :
    lexemes? ((quote t).points ++ rest) = (lexemes? rest).map (.scalar (.text t) :: ·) := by
  have read : quoted? (t.points.flatMap escape ++ [Quoted.doubleQuote] ++ rest) =
      some (t.points.flatMap unitPoints, rest) := by
    rw [List.append_assoc]
    exact quoted?_flatMap_escape t.points rest
  have lexeme : lexeme? Quoted.doubleQuote
      (t.points.flatMap escape ++ [Quoted.doubleQuote] ++ rest) =
      some (.scalar (.text t), rest) := by
    show ((quoted? _).bind _).map _ = _
    rw [read]
    show some (Lexeme.scalar (.text ⟨joinUnits _⟩), rest) = _
    rw [joinUnits_unitPoints h]
  exact lexemes?_cons rfl lexeme

theorem lexemes?_ofInt {n : Int} (h : n.natAbs < 10 ^ Numeral.maxDigits) {rest : List CodePoint}
    (delimited : IsDelimited rest) :
    lexemes? ((Text.ofInt n).points ++ rest) = (lexemes? rest).map (.scalar (.integer n) :: ·) := by
  obtain ⟨c, cs, first, -⟩ := numeral_eq_cons n.natAbs
  have digit := isDigit_numeral n.natAbs c (by simp [first])
  by_cases nonneg : 0 ≤ n
  · have number := number?_numeral delimited false h
    have abs : (n.natAbs : Int) = n := by omega
    rw [points_ofInt_of_nonneg nonneg]
    rw [first, List.cons_append, if_neg (by decide), abs] at number
    rw [first, List.cons_append]
    refine lexemes?_cons (isBlank_of_isDigit digit) ?_
    rw [lexeme?_digit _ digit, number]
    rfl
  · have number := number?_numeral delimited true h
    have abs : -(n.natAbs : Int) = n := by omega
    have word : word? "Infinity" (.real (Double.infinity true)) (numeral n.natAbs ++ rest) =
        none := by
      refine if_neg fun isPrefix => ?_
      rw [first, List.isPrefixOf_iff_prefix] at isPrefix
      obtain ⟨letter, -⟩ := List.cons_prefix_cons.mp isPrefix
      rw [← letter] at digit
      exact absurd digit (by decide)
    rw [if_pos rfl, abs] at number
    rw [points_ofInt_of_neg nonneg, List.cons_append]
    refine lexemes?_cons (by decide) ?_
    show ((word? _ _ _).or (number? _ _)).map _ = _
    rw [word, number]
    rfl

theorem lexemes?_null (rest : List CodePoint) :
    lexemes? (Quoted.chars "null" ++ rest) = (lexemes? rest).map (.scalar .null :: ·) := by
  have lexeme : lexeme? ⟨0x6E, by decide⟩ (Quoted.chars "ull" ++ rest) =
      some (.scalar .null, rest) := rfl
  exact lexemes?_cons (by decide) lexeme

/-- How the machine goes from one place to another without more than a number of lists and objects
open. -/
inductive Reaches (limit : Nat) :
    List Frame → Expected → List Lexeme → List Frame → Expected → Prop
  | refl (fs : List Frame) (e : Expected) : Reaches limit fs e [] fs e
  | step {fs fs' fs'' : List Frame} {e e' e'' : Expected} {l : Lexeme} {ls : List Lexeme}
      (h : step? fs e l = some (fs', e')) (shallow : fs'.length ≤ limit)
      (rest : Reaches limit fs' e' ls fs'' e'') : Reaches limit fs e (l :: ls) fs'' e''

section Reaching

variable {limit : Nat} {fs fs' fs'' : List Frame} {e e' e'' : Expected} {ls ls' : List Lexeme}

theorem Reaches.trans (h : Reaches limit fs e ls fs' e') (h' : Reaches limit fs' e' ls' fs'' e'') :
    Reaches limit fs e (ls ++ ls') fs'' e'' := by
  induction h with
  | refl => exact h'
  | step h shallow rest ih => exact .step h shallow (ih h')

theorem Reaches.run?_eq {j : Json} (h : Reaches limit fs e ls fs' (.finish j)) :
    run? fs e ls = some j := by
  generalize finish : Expected.finish j = e' at h
  induction h with
  | refl =>
    subst finish
    rw [run?]
  | step h shallow rest ih =>
    rw [run?, h]
    exact ih finish

theorem Reaches.isDeeper_eq (h : Reaches limit fs e ls fs' e') {cs : List CodePoint}
    (lexed : lexemes? cs = some ls) : isDeeper limit fs e cs = false := by
  fun_induction lexemes? cs generalizing fs e ls with
  | case1 => rw [isDeeper]
  | case2 c rest blank ih =>
    rw [isDeeper, if_pos blank]
    exact ih h lexed
  | case3 c rest blank failed => cases lexed
  | case4 c rest blank l tail read shorter ih =>
    obtain ⟨more, lexedTail, rfl⟩ := Option.map_eq_some_iff.mp lexed
    rw [isDeeper, if_neg blank]
    cases h with
    | step h shallow rest =>
      split
      · rfl
      · rename_i read'
        rw [read] at read'
        cases read'
        rw [h]
        show (decide _ || isDeeper limit _ _ tail) = false
        rw [ih rest lexedTail, decide_eq_false (Nat.not_lt.mpr shallow), Bool.or_false]

end Reaching

theorem intercalate_cons {α : Type} (separator first : List α) (rest : List (List α)) :
    separator.intercalate (first :: rest) = first ++ rest.flatMap (separator ++ ·) := by
  induction rest generalizing first with
  | nil => simp
  | cons second rest ih =>
    rw [List.intercalate_cons_cons, ih, List.flatMap_cons, List.append_assoc, List.append_assoc]

theorem map_points_writeEach (items : List Json) :
    (writeEach items).map (·.points) = items.map (fun j => (write j).points) := by
  induction items with
  | nil => rfl
  | cons j items ih => rw [writeEach, List.map_cons, List.map_cons, ih]

theorem points_write_list (first : Json) (items : List Json) :
    (write (.list (first :: items))).points =
      Quoted.chars "[" ++ ((write first).points ++
        (items.flatMap (fun j => Quoted.chars "," ++ (write j).points) ++ Quoted.chars "]")) := by
  have joined : (Text.join "," (writeEach (first :: items))).points =
      (write first).points ++ items.flatMap (fun j => Quoted.chars "," ++ (write j).points) := by
    rw [Text.join, map_points_writeEach, List.map_cons, intercalate_cons, List.flatMap_map]
    rfl
  rw [write, Text.points_append, Text.points_append, joined, List.append_assoc, List.append_assoc]
  rfl

end Json
end RecordStore
