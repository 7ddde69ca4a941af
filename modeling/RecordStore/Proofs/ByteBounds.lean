import Mathlib.Data.List.Induction
import RecordStore.Proofs.PrefixBounds

/-!
# Where bytes with a beginning end

Any bytes are read as a text, and the text is encoded as the same bytes again: what is no code point
is escaped byte by byte. So the upper bound of a beginning stands for the bytes that it was read
from. In the order of bytes it is exact: from the beginning up to the bound lie the bytes that have
the beginning, and no others.
-/

set_option autoImplicit false

namespace RecordStore

namespace Utf8

theorem ofNat_eq_of_toNat {n : Nat} {b : UInt8} (h : n = b.toNat) : UInt8.ofNat n = b := by
  rw [h, UInt8.ofNat_toNat]

theorem toNat_of_isTail {b : UInt8} (h : isTail b = true) :
    b.toNat = 0x80 + low b ∧ low b < 0x40 := by
  rw [isTail_iff] at h
  rw [low]
  omega

theorem tail_eq {b : UInt8} (hb : isTail b = true) {n : Nat} (hn : n % 0x40 = low b) :
    tail n = b := by
  have value := (toNat_of_isTail hb).1
  exact ofNat_eq_of_toNat (by omega)

section Widths

variable {b b₁ b₂ b₃ : UInt8}

theorem encodes_one (h : b.toNat < 0x80) : Encodes (CodePoint.ofNat b.toNat) [b] := by
  have value := CodePoint.val_ofNat (n := b.toNat) (by omega)
  have encodes : Encodes (CodePoint.ofNat b.toNat) _ := .one (by omega)
  rwa [ofNat_eq_of_toNat value] at encodes

theorem encodes_two (h : 0xC2 ≤ b.toNat ∧ b.toNat < 0xE0) (h₁ : isTail b₁ = true) :
    Encodes (CodePoint.ofNat ((b.toNat - 0xC0) * 0x40 + low b₁)) [b, b₁] := by
  have low₁ := (toNat_of_isTail h₁).2
  have value := CodePoint.val_ofNat (n := (b.toNat - 0xC0) * 0x40 + low b₁) (by omega)
  have encodes : Encodes (CodePoint.ofNat ((b.toNat - 0xC0) * 0x40 + low b₁)) _ :=
    .two (by omega)
  rwa [value, ofNat_eq_of_toNat (b := b) (by omega), tail_eq h₁ (by omega)] at encodes

theorem encodes_three (h : 0xE0 ≤ b.toNat ∧ b.toNat < 0xF0) (h₁ : allowsSecond b b₁ = true)
    (h₂ : isTail b₂ = true) :
    Encodes (CodePoint.ofNat ((b.toNat - 0xE0) * 0x1000 + low b₁ * 0x40 + low b₂)) [b, b₁, b₂] := by
  obtain ⟨tail₁, least, surrogates, -⟩ := (allowsSecond_iff b b₁).mp h₁
  have byte₁ := toNat_of_isTail tail₁
  have low₂ := (toNat_of_isTail h₂).2
  let n := (b.toNat - 0xE0) * 0x1000 + low b₁ * 0x40 + low b₂
  have value : (CodePoint.ofNat n).val = n := CodePoint.val_ofNat (by omega)
  have encodes : Encodes (CodePoint.ofNat n) _ := .three (by omega) (by omega)
  rwa [value, ofNat_eq_of_toNat (b := b) (by omega), tail_eq tail₁ (by omega),
    tail_eq h₂ (by omega)] at encodes

theorem encodes_four (h : 0xF0 ≤ b.toNat ∧ b.toNat < 0xF5) (h₁ : allowsSecond b b₁ = true)
    (h₂ : isTail b₂ = true) (h₃ : isTail b₃ = true) :
    Encodes (CodePoint.ofNat
      ((b.toNat - 0xF0) * 0x40000 + low b₁ * 0x1000 + low b₂ * 0x40 + low b₃)) [b, b₁, b₂, b₃] := by
  obtain ⟨tail₁, -, -, least, greatest⟩ := (allowsSecond_iff b b₁).mp h₁
  have byte₁ := toNat_of_isTail tail₁
  have low₂ := (toNat_of_isTail h₂).2
  have low₃ := (toNat_of_isTail h₃).2
  let n := (b.toNat - 0xF0) * 0x40000 + low b₁ * 0x1000 + low b₂ * 0x40 + low b₃
  have value : (CodePoint.ofNat n).val = n := CodePoint.val_ofNat (by omega)
  have encodes : Encodes (CodePoint.ofNat n) _ := .four (by omega)
  rwa [value, ofNat_eq_of_toNat (b := b) (by omega), tail_eq tail₁ (by omega),
    tail_eq h₂ (by omega), tail_eq h₃ (by omega)] at encodes

end Widths

theorem encodePoint_stray {b : UInt8} (h : 0x80 ≤ b.toNat) :
    encodePoint (Piece.stray b).codePoint = some [b] := by
  have hb := b.toNat_lt
  have value : (Piece.stray b).codePoint.val = 0xDC00 + b.toNat := CodePoint.val_ofNat (by omega)
  simp only [encodePoint]
  rw [if_neg (by omega), if_neg (by omega), if_pos (by omega),
    ofNat_eq_of_toNat (b := b) (by omega)]

theorem encodePoint_head (b : UInt8) (rest : Bytes) :
    ∃ bs, encodePoint (head b rest).1.codePoint = some bs ∧ b :: rest = bs ++ (head b rest).2 := by
  have point {c : CodePoint} {bs : Bytes} (h : Encodes c bs) (r : Bytes) :
      ∃ bs', encodePoint (Piece.point c).codePoint = some bs' ∧ bs ++ r = bs' ++ r :=
    ⟨bs, encodePoint_of_encodes h, rfl⟩
  have stray (h : 0x80 ≤ b.toNat) :
      ∃ bs, encodePoint (Piece.stray b).codePoint = some bs ∧ b :: rest = bs ++ rest :=
    ⟨[b], encodePoint_stray h, rfl⟩
  unfold head
  dsimp only
  split
  · rename_i one
    exact point (encodes_one one) rest
  rename_i high
  split
  · rename_i two
    split
    · split
      · rename_i tail₁
        exact point (encodes_two two tail₁) _
      · exact stray (by omega)
    · exact stray (by omega)
  split
  · rename_i three
    split
    · split
      · rename_i tails
        rw [Bool.and_eq_true] at tails
        exact point (encodes_three three tails.1 tails.2) _
      · exact stray (by omega)
    · exact stray (by omega)
  split
  · rename_i four
    split
    · split
      · rename_i tails
        rw [Bool.and_eq_true, Bool.and_eq_true] at tails
        exact point (encodes_four four tails.1.1 tails.1.2 tails.2) _
      · exact stray (by omega)
    · exact stray (by omega)
  · exact stray (by omega)

theorem encode?_decode (bs : Bytes) : encode? (decode bs) = some bs := by
  show encodePoints ((pieces bs).map Piece.codePoint) = some bs
  fun_induction pieces bs with
  | case1 => rfl
  | case2 b rest _ ih =>
    obtain ⟨first, encoded, joined⟩ := encodePoint_head b rest
    rw [List.map_cons, encodePoints, encoded, ih, joined]
    rfl

theorem successor?_cases (bs : Bytes) :
    (∃ n, bs = List.replicate n 0xFF ∧ successor? bs = none) ∨
      ∃ before last n, last ≠ 0xFF ∧ bs = before ++ last :: List.replicate n 0xFF ∧
        successor? bs = some (before ++ [last + 1]) := by
  induction bs using List.reverseRecOn with
  | nil => exact .inl ⟨0, rfl, rfl⟩
  | append_singleton init b ih =>
    by_cases top : b = 0xFF
    · subst top
      have same : successor? (init ++ [0xFF]) = successor? init := by simp [successor?]
      rcases ih with ⟨n, rfl, none⟩ | ⟨before, last, n, room, rfl, next⟩
      · exact .inl ⟨n + 1, List.replicate_succ'.symm, same.trans none⟩
      · refine .inr ⟨before, last, n + 1, room, ?_, same.trans next⟩
        rw [List.append_assoc, List.cons_append, List.replicate_succ']
    · exact .inr ⟨init, b, 0, top, rfl, successor?_concat init top⟩

theorem lt_greatest_iff {b : UInt8} : b < 0xFF ↔ b ≠ 0xFF := by
  have hb := b.toNat_lt
  rw [UInt8.lt_iff_toNat_lt, Ne, ← UInt8.toNat_inj]
  show b.toNat < 0xFF ↔ ¬b.toNat = 0xFF
  omega

theorem toNat_raised {b : UInt8} (h : b ≠ 0xFF) : (b + 1).toNat = b.toNat + 1 :=
  toNat_add_one (UInt8.lt_iff_toNat_lt.mp (lt_greatest_iff.mpr h))

end Utf8

namespace Bytes

theorem order_nil_ne_lt (x : Bytes) : order x [] ≠ .lt := compareLex_nil_ne_lt compare x

theorem order_cons_eq_lt_iff {a b : UInt8} {x y : Bytes} :
    order (a :: x) (b :: y) = .lt ↔ a < b ∨ a = b ∧ order x y = .lt := by
  rw [order, compareLex_cons_eq_lt_iff, Std.compare_eq_lt]
  rfl

theorem replicate_prefix_iff {n : Nat} {x : Bytes} :
    List.replicate n 0xFF <+: x ↔ x.order (List.replicate n 0xFF) ≠ .lt := by
  induction n generalizing x with
  | zero => simp [order_nil_ne_lt]
  | succ n ih =>
    rw [List.replicate_succ]
    cases x with
    | nil => simp [order, List.compareLex]
    | cons a x =>
      rw [List.cons_prefix_cons, ih, Ne, Ne, order_cons_eq_lt_iff, not_or, Utf8.lt_greatest_iff,
        not_not, not_and]
      exact ⟨fun h => ⟨h.1.symm, fun _ => h.2⟩, fun h => ⟨h.1.symm, h.2 h.1⟩⟩

/-- From a beginning up to where its last byte below 0xFF is raised lie the bytes that have it. -/
theorem raised_prefix_iff {before x : Bytes} {last : UInt8} {n : Nat} (room : last ≠ 0xFF) :
    before ++ last :: List.replicate n 0xFF <+: x ↔
      x.order (before ++ last :: List.replicate n 0xFF) ≠ .lt ∧
        x.order (before ++ [last + 1]) = .lt := by
  induction before generalizing x with
  | nil =>
    cases x with
    | nil => simp [order, List.compareLex]
    | cons a x =>
      have within : ¬a < last ∧ a < last + 1 ↔ a = last := by
        rw [UInt8.lt_iff_toNat_lt, UInt8.lt_iff_toNat_lt, Utf8.toNat_raised room, ← UInt8.toNat_inj]
        omega
      simp only [List.nil_append, List.cons_prefix_cons, replicate_prefix_iff, Ne,
        order_cons_eq_lt_iff, order_nil_ne_lt, and_false, or_false]
      grind
  | cons b before ih =>
    cases x with
    | nil => simp [order, List.compareLex]
    | cons a x =>
      simp only [List.cons_append, List.cons_prefix_cons, ih, Ne, order_cons_eq_lt_iff]
      by_cases same : a = b
      · subst same
        simp [UInt8.lt_irrefl]
      · have apart : ¬b = a := fun h => same h.symm
        simp only [same, apart, false_and, or_false, false_iff, not_and]
        exact fun late early => late early

end Bytes

namespace Text

/-- Bytes begin with the encoding of a text just if they are not before it and, where the text has
an upper bound, before the encoding of that. There is a bound unless the encoding has no byte below
0xFF, and what the bound is encoded as has the last such byte raised by one. -/
theorem upperBound_exact {p : Text} {bs : Bytes} (encoded : Utf8.encode? p = some bs) :
    p.upperBound ≠ .unencodable ∧
    (p.upperBound = .unbounded ↔ ∀ b ∈ bs, b = 0xFF) ∧
    (∀ upper, p.upperBound = .below upper → ∃ before last raised n,
      bs = before ++ last :: List.replicate n 0xFF ∧ raised.toNat = last.toNat + 1 ∧
        Utf8.encode? upper = some (before ++ [raised])) ∧
    ∀ x : Bytes, bs <+: x ↔ x.order bs ≠ .lt ∧
      ∀ upper limit, p.upperBound = .below upper → Utf8.encode? upper = some limit →
        x.order limit = .lt := by
  rcases Utf8.successor?_cases bs with ⟨n, rfl, none⟩ | ⟨before, last, n, room, rfl, next⟩
  · have bound : p.upperBound = .unbounded := by
      rw [upperBound, encoded]
      dsimp only
      rw [none]
    rw [bound]
    have endless (upper : Text) : UpperBound.unbounded ≠ .below upper := by simp
    refine ⟨by simp, iff_of_true rfl fun b hb => List.eq_of_mem_replicate hb,
      fun upper h => absurd h (endless upper), fun x => ?_⟩
    rw [Bytes.replicate_prefix_iff]
    exact ⟨fun h => ⟨h, fun upper _ bound => absurd bound (endless upper)⟩, And.left⟩
  · have bound : p.upperBound = .below (Utf8.decode (before ++ [last + 1])) := by
      rw [upperBound, encoded]
      dsimp only
      rw [next]
    have same := Utf8.encode?_decode (before ++ [last + 1])
    rw [bound]
    refine ⟨by simp, iff_of_false (by simp) fun all => ?_, fun upper h => ?_, fun x => ?_⟩
    · exact room (all last (List.mem_append_right before (.head _)))
    · cases h
      exact ⟨before, last, last + 1, n, rfl, Utf8.toNat_raised room, same⟩
    · rw [Bytes.raised_prefix_iff room]
      refine and_congr_right fun _ =>
        ⟨fun less upper limit h encoded => ?_, fun all => all _ _ rfl same⟩
      cases h
      obtain rfl := Option.some.inj (same.symm.trans encoded)
      exact less

/-- The letter a with an escaped byte 0xFF behind it ends where the letter b begins. -/
theorem upperBound_exact_escaped :
    let p : Text := ⟨[⟨0x61, by decide⟩, ⟨0xDCFF, by decide⟩]⟩
    p.upperBound = .below (Utf8.decode [0x62]) ∧
      ∀ x : Bytes, [0x61, 0xFF] <+: x ↔ x.order [0x61, 0xFF] ≠ .lt ∧ x.order [0x62] = .lt := by
  intro p
  have bound : p.upperBound = .below (Utf8.decode [0x62]) := rfl
  obtain ⟨-, -, -, between⟩ := @upperBound_exact p [0x61, 0xFF] rfl
  have limit := Utf8.encode?_decode [0x62]
  refine ⟨bound, fun x => (between x).trans (and_congr_right fun _ => ⟨?_, ?_⟩)⟩
  · exact fun all => all _ _ bound limit
  · intro less upper found h encoded
    cases bound.symm.trans h
    cases limit.symm.trans encoded
    exact less

end Text

end RecordStore
