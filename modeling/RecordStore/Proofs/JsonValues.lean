import RecordStore.Proofs.JsonReading

/-!
# What JSON gives

Whatever a JSON text is like, the values read from it can be written and read again: their texts
have no surrogates that would be joined, and their whole numbers have no more digits than can be
read.
-/

set_option autoImplicit false

namespace RecordStore
namespace Json

/-- A value that can come from a text, with what its lists hold. -/
inductive Readable : Json → Prop
  | null : Readable .null
  | flag (b : Bool) : Readable (.flag b)
  | integer {n : Int} (h : n.natAbs < 10 ^ Numeral.maxDigits) : Readable (.integer n)
  | real (x : Double) : Readable (.real x)
  | text {t : Text} (h : IsUnpaired t.points) : Readable (.text t)
  | list {items : List Json} (h : ∀ j ∈ items, Readable j) : Readable (.list items)
  | object (entries : List (Text × Json)) : Readable (.object entries)

theorem isLow_head_joinUnits {cs : List CodePoint} {l : CodePoint} (h : l ∈ (joinUnits cs).head?)
    (low : isLow l = true) : l ∈ cs.head? := by
  fun_cases joinUnits cs with
  | case1 a b rest pair =>
    rw [joinUnits, if_pos pair] at h
    obtain rfl := Option.some.inj h
    simp [isHigh, isLow] at pair low
    rw [CodePoint.val_ofNat (by omega)] at low
    omega
  | case2 a b rest apart =>
    rw [joinUnits, if_neg apart] at h
    exact h
  | case3 cs short =>
    rw [joinUnits] at h
    · exact h
    · exact short

theorem isUnpaired_joinUnits (cs : List CodePoint) : IsUnpaired (joinUnits cs) := by
  fun_induction joinUnits cs with
  | case1 a b rest pair ih =>
    refine ih.cons fun l _ => ?_
    simp [isHigh, isLow] at pair
    have high : isHigh (CodePoint.ofNat (0x10000 + (a.val - 0xD800) * 0x400 + (b.val - 0xDC00))) =
        false := by
      simp [isHigh]
      rw [CodePoint.val_ofNat (by omega)]
      omega
    rw [high, Bool.false_and]
  | case2 a b rest apart ih =>
    refine ih.cons fun l hl => ?_
    cases low : isLow l with
    | false => exact Bool.and_false _
    | true =>
      obtain rfl := Option.some.inj (isLow_head_joinUnits hl low)
      rw [← low]
      exact Bool.eq_false_iff.mpr apart
  | case3 cs short =>
    cases cs with
    | nil => exact .nil
    | cons a cs =>
      cases cs with
      | nil => exact .singleton a
      | cons b rest => exact (short a b rest rfl).elim

theorem natural_lt {ds : List CodePoint} (h : ∀ c ∈ ds, isDigit c = true) :
    natural ds < 10 ^ ds.length := by
  have fold (n : Nat) : ds.foldl (fun n c => n * 10 + (c.val - 0x30)) n < (n + 1) * 10 ^
      ds.length := by
    induction ds generalizing n with
    | nil => simp
    | cons c ds ih =>
      obtain ⟨digit, h⟩ := List.forall_mem_cons.mp h
      simp [isDigit] at digit
      have step : n * 10 + (c.val - 0x30) + 1 ≤ (n + 1) * 10 := by omega
      rw [List.foldl_cons, List.length_cons, Nat.pow_succ', ← Nat.mul_assoc]
      exact Nat.lt_of_lt_of_le (ih h _) (Nat.mul_le_mul_right _ step)
  simpa [natural] using fold 0

theorem isDigit_wholePart? {cs ds rest : List CodePoint} (h : wholePart? cs = some (ds, rest)) :
    ∀ c ∈ ds, isDigit c = true := by
  unfold wholePart? at h
  split at h
  · cases h
  · rename_i c tail
    split at h
    · rename_i zero
      cases h
      simp [isDigit, zero]
    · split at h
      · cases h
        exact List.all_eq_true.mp List.all_takeWhile
      · cases h

theorem readable_number? {negative : Bool} {cs rest : List CodePoint} {j : Json}
    (h : number? negative cs = some (j, rest)) : Readable j := by
  rw [number?] at h
  obtain ⟨⟨ds, tail⟩, whole, h⟩ := Option.bind_eq_some_iff.mp h
  dsimp only at h
  split at h
  · cases h
    exact .real _
  · split at h
    · cases h
    · rename_i length
      cases h
      refine .integer ?_
      have bound := natural_lt (isDigit_wholePart? whole)
      have digits : 10 ^ ds.length ≤ 10 ^ Numeral.maxDigits :=
        Nat.pow_le_pow_right (by decide) (Nat.not_lt.mp length)
      have abs : (if negative then -(natural ds : Int) else natural ds).natAbs = natural ds := by
        split <;> omega
      rw [abs]
      exact Nat.lt_of_lt_of_le bound digits

theorem readable_word? {w : String} {j j' : Json} {cs rest : List CodePoint} (hj : Readable j)
    (h : word? w j cs = some (j', rest)) : Readable j' := by
  rw [word?] at h
  split at h
  · cases h
    exact hj
  · cases h

theorem readable_scalar? {c : CodePoint} {rest tail : List CodePoint} {j : Json}
    (h : scalar? c rest = some (j, tail)) : Readable j := by
  unfold scalar? at h
  split at h
  · obtain ⟨⟨read, more⟩, -, h⟩ := Option.bind_eq_some_iff.mp h
    cases h
    exact .text (isUnpaired_joinUnits read)
  · rcases Option.or_eq_some_iff.mp h with h | ⟨-, h⟩
    · exact readable_word? (.real _) h
    · exact readable_number? h
  · exact readable_word? .null h
  · exact readable_word? (.flag _) h
  · exact readable_word? (.flag _) h
  · exact readable_word? (.real _) h
  · exact readable_word? (.real _) h
  · exact readable_number? h

def Lexeme.IsReadable : Lexeme → Prop
  | .scalar j => Readable j
  | _ => True

theorem isReadable_lexeme? {c : CodePoint} {rest tail : List CodePoint} {l : Lexeme}
    (h : lexeme? c rest = some (l, tail)) : l.IsReadable := by
  unfold lexeme? at h
  split at h
  iterate 6
    cases h
    trivial
  obtain ⟨⟨j, more⟩, read, h⟩ := Option.map_eq_some_iff.mp h
  cases h
  exact readable_scalar? read

theorem isReadable_lexemes? {cs : List CodePoint} {ls : List Lexeme} (h : lexemes? cs = some ls) :
    ∀ l ∈ ls, l.IsReadable := by
  fun_induction lexemes? cs generalizing ls with
  | case1 =>
    cases h
    simp
  | case2 c rest blank ih => exact ih h
  | case3 => cases h
  | case4 c rest blank l tail read shorter ih =>
    obtain ⟨more, lexed, rfl⟩ := Option.map_eq_some_iff.mp h
    rw [List.forall_mem_cons]
    exact ⟨isReadable_lexeme? read, ih lexed⟩

def Frame.IsReadable : Frame → Prop
  | .list before => ∀ j ∈ before, Readable j
  | _ => True

def Expected.IsReadable : Expected → Prop
  | .finish j => Readable j
  | _ => True

theorem isReadable_place {j : Json} {fs : List Frame} (hj : Readable j)
    (h : ∀ f ∈ fs, f.IsReadable) :
    (∀ f ∈ (place j fs).1, f.IsReadable) ∧ (place j fs).2.IsReadable := by
  cases fs with
  | nil => exact ⟨h, hj⟩
  | cons f fs =>
    obtain ⟨hf, hfs⟩ := List.forall_mem_cons.mp h
    cases f with
    | list before =>
      exact ⟨List.forall_mem_cons.mpr ⟨List.forall_mem_cons.mpr ⟨hj, hf⟩, hfs⟩, trivial⟩
    | object before => exact ⟨h, trivial⟩
    | entry before name => exact ⟨List.forall_mem_cons.mpr ⟨trivial, hfs⟩, trivial⟩

theorem isReadable_step? {fs : List Frame} {e : Expected} {l : Lexeme}
    {next : List Frame × Expected} (hl : l.IsReadable) (hfs : ∀ f ∈ fs, f.IsReadable)
    (h : step? fs e l = some next) : (∀ f ∈ next.1, f.IsReadable) ∧ next.2.IsReadable := by
  have empty : (Frame.list []).IsReadable := List.forall_mem_nil _
  have closed {before : List Json} {outer : List Frame}
      (h : ∀ f ∈ Frame.list before :: outer, f.IsReadable) :
      (∀ f ∈ (place (.list before.reverse) outer).1, f.IsReadable) ∧
        (place (.list before.reverse) outer).2.IsReadable := by
    obtain ⟨items, outer⟩ := List.forall_mem_cons.mp h
    exact isReadable_place (.list fun j hj => items j (List.mem_reverse.mp hj)) outer
  unfold step? at h
  split at h <;> cases h
  iterate 2 exact isReadable_place hl hfs
  iterate 2 exact ⟨List.forall_mem_cons.mpr ⟨empty, hfs⟩, trivial⟩
  iterate 2 exact ⟨List.forall_mem_cons.mpr ⟨trivial, hfs⟩, trivial⟩
  iterate 2 exact closed hfs
  iterate 2 exact isReadable_place (.object _) (List.forall_mem_cons.mp hfs).2
  iterate 2 exact ⟨hfs, trivial⟩
  iterate 2 exact ⟨List.forall_mem_cons.mpr ⟨trivial, (List.forall_mem_cons.mp hfs).2⟩, trivial⟩
  exact ⟨hfs, trivial⟩

theorem readable_run? {fs : List Frame} {e : Expected} {ls : List Lexeme} {j : Json}
    (hls : ∀ l ∈ ls, l.IsReadable) (hfs : ∀ f ∈ fs, f.IsReadable) (he : e.IsReadable)
    (h : run? fs e ls = some j) : Readable j := by
  fun_induction run? fs e ls with
  | case1 fs j' =>
    obtain rfl := Option.some.inj h
    exact he
  | case2 => cases h
  | case3 => cases h
  | case4 fs e l rest fs' e' step ih =>
    obtain ⟨hl, hrest⟩ := List.forall_mem_cons.mp hls
    obtain ⟨hfs', he'⟩ := isReadable_step? hl hfs step
    exact ih hrest hfs' he' h

theorem readable_read? {t : Text} {j : Json} (h : read? t = some j) : Readable j := by
  obtain ⟨ls, lexed, h⟩ := Option.bind_eq_some_iff.mp h
  exact readable_run? (e := .value) (isReadable_lexemes? lexed) (by simp) trivial h

end Json
end RecordStore
