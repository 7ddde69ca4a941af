import Mathlib.Data.List.Basic
import Mathlib.Order.Fin.Basic
import RecordStore.Proofs.EscapedBytes

/-!
# Where texts with a beginning end

The upper bound of a beginning is its encoding with the last byte raised by one. The last code point
becomes the next one if the byte has room for that. If it has none, the bytes of the last code point
are no code point any more, and the bound goes on with a surrogate instead.
-/

set_option autoImplicit false

namespace RecordStore

namespace Utf8

/-- Whether the last byte of a code point can be raised to that of the next code point. -/
def isRaisable (c : CodePoint) : Bool := c.val < 0x7F || (0x80 ≤ c.val && c.val % 0x40 ≠ 0x3F)

theorem successor?_concat (bs : Bytes) {b : UInt8} (h : b ≠ 0xFF) :
    successor? (bs ++ [b]) = some (bs ++ [b + 1]) := by
  simp [successor?, h]

theorem toNat_add_one {b : UInt8} (h : b.toNat < 0xFF) : (b + 1).toNat = b.toNat + 1 := by
  rw [UInt8.toNat_add]
  exact Nat.mod_eq_of_lt (Nat.add_lt_add_right h 1)

theorem tail_add_one {n : Nat} (h : n % 0x40 ≠ 0x3F) : tail n + 1 = tail (n + 1) := by
  apply UInt8.toNat_inj.mp
  rw [toNat_add_one, toNat_tail, toNat_tail]
  · omega
  · rw [toNat_tail]
    omega

theorem isTail_add_one {n : Nat} (h : n % 0x40 = 0x3F) : isTail (tail n + 1) = false := by
  have raised : (tail n + 1).toNat = 0xC0 := by
    rw [toNat_add_one, toNat_tail, h]
    rw [toNat_tail]
    omega
  rw [Bool.eq_false_iff, Ne, isTail_iff, raised]
  decide

theorem ne_of_toNat_lt {b : UInt8} (h : b.toNat < 0xFF) : b ≠ 0xFF := by
  rintro rfl
  exact Nat.lt_irrefl _ h

theorem tail_ne (n : Nat) : tail n ≠ 0xFF := by
  apply ne_of_toNat_lt
  rw [toNat_tail]
  omega

section Raising

variable {c : CodePoint} {bs : Bytes} (h : Encodes c bs)
include h

theorem Encodes.raise (hr : isRaisable c = true) :
    ∃ before last, bs = before ++ [last] ∧ last ≠ 0xFF ∧
      Encodes (CodePoint.ofNat (c.val + 1)) (before ++ [last + 1]) := by
  have hc := c.isLt
  simp [isRaisable] at hr
  cases h with
  | one h =>
    have next := CodePoint.val_ofNat (n := c.val + 1) (by omega)
    have last := toNat_ofNat (n := c.val) (by omega)
    have byte : UInt8.ofNat c.val + 1 = UInt8.ofNat (c.val + 1) := by
      apply UInt8.toNat_inj.mp
      rw [toNat_add_one (by omega), last, toNat_ofNat (by omega)]
    have encodes : Encodes (CodePoint.ofNat (c.val + 1)) _ := .one (by omega)
    rw [next, ← byte] at encodes
    exact ⟨[], _, rfl, ne_of_toNat_lt (by omega), encodes⟩
  | two h =>
    have next := CodePoint.val_ofNat (n := c.val + 1) (by omega)
    have lead : (c.val + 1) / 0x40 = c.val / 0x40 := by omega
    have encodes : Encodes (CodePoint.ofNat (c.val + 1)) _ := .two (by omega)
    rw [next, lead, ← tail_add_one (by omega)] at encodes
    exact ⟨[_], _, rfl, tail_ne _, encodes⟩
  | three h hs =>
    have next := CodePoint.val_ofNat (n := c.val + 1) (by omega)
    have lead : (c.val + 1) / 0x1000 = c.val / 0x1000 := by omega
    have middle : (c.val + 1) / 0x40 = c.val / 0x40 := by omega
    have encodes : Encodes (CodePoint.ofNat (c.val + 1)) _ := .three (by omega) (by omega)
    rw [next, lead, middle, ← tail_add_one (by omega)] at encodes
    exact ⟨[_, _], _, rfl, tail_ne _, encodes⟩
  | four h =>
    have next := CodePoint.val_ofNat (n := c.val + 1) (by omega)
    have lead : (c.val + 1) / 0x40000 = c.val / 0x40000 := by omega
    have second : (c.val + 1) / 0x1000 = c.val / 0x1000 := by omega
    have third : (c.val + 1) / 0x40 = c.val / 0x40 := by omega
    have encodes : Encodes (CodePoint.ofNat (c.val + 1)) _ := .four (by omega)
    rw [next, lead, second, third, ← tail_add_one (by omega)] at encodes
    exact ⟨[_, _, _], _, rfl, tail_ne _, encodes⟩

theorem Encodes.strand (hr : isRaisable c = false) :
    ∃ before last, bs = before ++ [last] ∧ last ≠ 0xFF ∧
      ∃ b more, before ++ [last + 1] = b :: more ∧ 0x80 ≤ b.toNat ∧
        head b more = (.stray b, more) := by
  have hc := c.isLt
  simp [isRaisable] at hr
  cases h with
  | one h =>
    have last := toNat_ofNat (n := c.val) (by omega)
    have byte := toNat_add_one (b := UInt8.ofNat c.val) (by omega)
    exact ⟨[], _, rfl, ne_of_toNat_lt (by omega), _, _, rfl, by omega, head_stray [] (by omega)⟩
  | two h =>
    have lead := toNat_ofNat (n := 0xC0 + c.val / 0x40) (by omega)
    have stray : head (UInt8.ofNat (0xC0 + c.val / 0x40)) [tail c.val + 1] =
        (.stray (UInt8.ofNat (0xC0 + c.val / 0x40)), [tail c.val + 1]) := by
      rw [head_two [] (by omega), isTail_add_one (by omega), if_neg (by decide)]
    exact ⟨[_], _, rfl, tail_ne _, _, _, rfl, by omega, stray⟩
  | three h hs =>
    have lead := toNat_ofNat (n := 0xE0 + c.val / 0x1000) (by omega)
    have stray : head (UInt8.ofNat (0xE0 + c.val / 0x1000))
        [tail (c.val / 0x40), tail c.val + 1] =
        (.stray (UInt8.ofNat (0xE0 + c.val / 0x1000)), [tail (c.val / 0x40), tail c.val + 1]) := by
      rw [head_three [] (by omega), isTail_add_one (by omega), Bool.and_false, if_neg (by decide)]
    exact ⟨[_, _], _, rfl, tail_ne _, _, _, rfl, by omega, stray⟩
  | four h =>
    have lead := toNat_ofNat (n := 0xF0 + c.val / 0x40000) (by omega)
    have stray : head (UInt8.ofNat (0xF0 + c.val / 0x40000))
        [tail (c.val / 0x1000), tail (c.val / 0x40), tail c.val + 1] =
        (.stray (UInt8.ofNat (0xF0 + c.val / 0x40000)),
          [tail (c.val / 0x1000), tail (c.val / 0x40), tail c.val + 1]) := by
      rw [head_four [] (by omega), isTail_add_one (by omega), Bool.and_false, if_neg (by decide)]
    exact ⟨[_, _, _], _, rfl, tail_ne _, _, _, rfl, by omega, stray⟩

end Raising

end Utf8

section Lists

variable {α : Type} {cmp : α → α → Ordering} {x y : α} {xs ys : List α}

theorem compareLex_cons_eq_lt_iff [Std.LawfulEqCmp cmp] :
    List.compareLex cmp (x :: xs) (y :: ys) = .lt ↔
      cmp x y = .lt ∨ x = y ∧ List.compareLex cmp xs ys = .lt := by
  rw [List.compareLex_cons_cons, Ordering.then_eq_lt, Std.LawfulEqCmp.compare_eq_iff_eq]

theorem compareLex_nil_ne_lt (cmp : α → α → Ordering) (xs : List α) :
    List.compareLex cmp xs [] ≠ .lt := by
  cases xs <;> simp [List.compareLex]

end Lists

namespace Text

/-- The code point at which the texts that go on from one end: the next one if the last byte can be
raised, and else a surrogate, with more code points behind it. -/
structure Limits (c d : CodePoint) (more : List CodePoint) : Prop where
  raised : Utf8.isRaisable c = true → d.val = c.val + 1 ∧ more = []
  stranded : Utf8.isRaisable c = false → 0xDC80 ≤ d.val ∧ d.val < 0xE000

theorem upperBound_concat {q : List CodePoint} {c : CodePoint}
    (h : ∀ x ∈ q ++ [c], x.isSurrogate = false) :
    ∃ d more, upperBound ⟨q ++ [c]⟩ = .below ⟨q ++ d :: more⟩ ∧ Limits c d more := by
  rw [List.forall_mem_append, List.forall_mem_singleton] at h
  obtain ⟨hq, hc⟩ := h
  obtain ⟨first, encoded⟩ := Utf8.exists_encodePoints hq
  obtain ⟨bytes, encodes⟩ := Utf8.exists_encodes hc
  have single : Utf8.encodePoints [c] = some bytes := by
    rw [Utf8.encodePoints, Utf8.encodePoint_of_encodes encodes]
    simp [Utf8.encodePoints]
  have whole : Utf8.encode? ⟨q ++ [c]⟩ = some (first ++ bytes) :=
    Utf8.encodePoints_append encoded single
  have decoded (before : Bytes) (last : UInt8) (hl : last ≠ 0xFF) (hb : bytes = before ++ [last]) :
      upperBound ⟨q ++ [c]⟩ =
        .below ⟨q ++ (Utf8.pieces (before ++ [last + 1])).map Utf8.Piece.codePoint⟩ := by
    have successor := Utf8.successor?_concat (first ++ before) hl
    rw [upperBound, whole, hb, ← List.append_assoc]
    dsimp only
    rw [successor]
    dsimp only
    rw [Utf8.decode, List.append_assoc, Utf8.pieces_append hq encoded, List.map_append,
      List.map_map]
    have points : q.map (Utf8.Piece.codePoint ∘ Utf8.Piece.point) = q := List.map_id q
    rw [points]
  -- the raised byte ends the next code point, or no code point at all
  cases hr : Utf8.isRaisable c with
  | true =>
    obtain ⟨before, last, hb, hl, raised⟩ := encodes.raise hr
    have next : (CodePoint.ofNat (c.val + 1)).val = c.val + 1 := by
      have := c.isLt
      simp [Utf8.isRaisable] at hr
      exact CodePoint.val_ofNat (by omega)
    obtain ⟨b, tail, bytes_eq, head_eq⟩ := raised.head_eq
    have head := head_eq []
    rw [List.append_nil] at head
    have bound := decoded before last hl hb
    rw [bytes_eq, Utf8.pieces_cons, head, Utf8.pieces] at bound
    exact ⟨_, [], bound, fun _ => ⟨next, rfl⟩, fun h => absurd h (by simp [hr])⟩
  | false =>
    obtain ⟨before, last, hb, hl, b, more, bytes_eq, high, stray⟩ := encodes.strand hr
    have byte := b.toNat_lt
    have surrogate := CodePoint.val_ofNat (n := 0xDC00 + b.toNat) (by omega)
    have bound := decoded before last hl hb
    rw [bytes_eq, Utf8.pieces_cons, stray, List.map_cons] at bound
    refine ⟨_, _, bound, fun h => absurd h (by simp [hr]), fun _ => ?_⟩
    rw [Utf8.Piece.codePoint, surrogate]
    omega

theorem between_iff {q v more : List CodePoint} {c d : CodePoint} (h : more = [] ∨ d ∉ v) :
    (List.compareLex compare v (q ++ [c]) ≠ .lt ∧
        List.compareLex compare v (q ++ d :: more) = .lt) ↔
      ∃ e rest, v = q ++ e :: rest ∧ c ≤ e ∧ e < d := by
  induction q generalizing v with
  | nil =>
    cases v with
    | nil => simp [List.compareLex]
    | cons e rest =>
      have last : ¬ (e = d ∧ List.compareLex compare rest more = .lt) := by
        rintro ⟨rfl, less⟩
        rcases h with rfl | apart
        · exact compareLex_nil_ne_lt _ rest less
        · exact apart List.mem_cons_self
      simp only [List.nil_append, Ne, compareLex_cons_eq_lt_iff, compareLex_nil_ne_lt, and_false,
        or_false, last, compare_lt_iff_lt, not_lt]
      constructor
      · exact fun between => ⟨e, rest, rfl, between⟩
      · rintro ⟨e', rest', same, between⟩
        obtain ⟨rfl, -⟩ := List.cons.inj same
        exact between
  | cons x q ih =>
    cases v with
    | nil => simp [List.compareLex]
    | cons e rest =>
      have ih := ih (h.imp_right fun apart hd => apart (List.mem_cons_of_mem e hd))
      simp only [List.cons_append, Ne, compareLex_cons_eq_lt_iff, compare_lt_iff_lt]
      by_cases same : e = x
      · subst same
        simp only [lt_self_iff_false, false_or, true_and, List.cons.injEq]
        exact ih
      · have apart : ¬ ∃ e' rest', e :: rest = x :: (q ++ e' :: rest') ∧ c ≤ e' ∧ e' < d := by
          rintro ⟨e', rest', joined, -⟩
          exact same (List.cons.inj joined).1
        simp only [same, false_and, or_false, apart, iff_false]
        exact fun between => between.1 between.2

/-- Where the texts lie that are found for a beginning: at those that have it, unless its last code
point cannot be raised. Then that code point counts for every later one up to the surrogates. -/
def LiesAt (v beginning : Text) : Prop :=
  match beginning.points.getLast? with
  | none => True
  | some c =>
    if Utf8.isRaisable c then v.startsWith beginning = true
    else ∃ e rest, v.points = beginning.points.dropLast ++ e :: rest ∧ c ≤ e ∧ e.val < 0xD800

theorem liesAt_nil (v : Text) : v.LiesAt ⟨[]⟩ := trivial

theorem liesAt_concat {v : Text} {q : List CodePoint} {c : CodePoint} :
    v.LiesAt ⟨q ++ [c]⟩ ↔
      if Utf8.isRaisable c then v.startsWith ⟨q ++ [c]⟩ = true
      else ∃ e rest, v.points = q ++ e :: rest ∧ c ≤ e ∧ e.val < 0xD800 := by
  rw [LiesAt, List.getLast?_concat, List.dropLast_concat]

theorem liesAt_iff {v p : Text} (hv : ∀ x ∈ v.points, x.isSurrogate = false)
    (hp : ∀ x ∈ p.points, x.isSurrogate = false) :
    v.LiesAt p ↔ v.order p ≠ .lt ∧ ∀ upper, p.upperBound = .below upper → v.order upper = .lt := by
  obtain ⟨ps⟩ := p
  -- the bound differs from the beginning from its last code point on
  rcases List.eq_nil_or_concat' ps with rfl | ⟨q, c, rfl⟩
  · have unbounded (upper : Text) : upperBound ⟨[]⟩ ≠ .below upper := nofun
    simp [liesAt_nil, unbounded, order, compareLex_nil_ne_lt]
  · obtain ⟨d, more, bound, limits⟩ := upperBound_concat hp
    have apart : more = [] ∨ d ∉ v.points := by
      cases hr : Utf8.isRaisable c with
      | true => exact .inl (limits.raised hr).2
      | false =>
        refine .inr fun hd => ?_
        have surrogate := limits.stranded hr
        have plain := hv d hd
        rw [CodePoint.isSurrogate_eq_false_iff] at plain
        omega
    have between := between_iff (q := q) (c := c) apart
    simp only [bound, UpperBound.below.injEq, forall_eq', order, between]
    rw [liesAt_concat]
    split
    · rename_i hr
      have next := (limits.raised hr).1
      rw [startsWith, List.isPrefixOf_iff_prefix]
      constructor
      · rintro ⟨rest, joined⟩
        refine ⟨c, rest, ?_, le_refl c, ?_⟩
        · rw [← joined, List.append_assoc]
          rfl
        · rw [Fin.lt_def, next]
          omega
      · rintro ⟨e, rest, joined, from_, below⟩
        have same : e = c := by
          rw [Fin.lt_def, next] at below
          rw [Fin.le_def] at from_
          exact Fin.ext (by omega)
        rw [joined, same]
        exact ⟨rest, by rw [List.append_assoc]; rfl⟩
    · rename_i hr
      have surrogate := limits.stranded (by simpa using hr)
      refine exists_congr fun e => exists_congr fun rest => and_congr_right fun joined =>
        and_congr_right fun _ => ?_
      have plain := hv e (by simp [joined])
      rw [CodePoint.isSurrogate_eq_false_iff] at plain
      rw [Fin.lt_def]
      omega

theorem upperBound_ne_unencodable {p : Text} (hp : ∀ x ∈ p.points, x.isSurrogate = false) :
    p.upperBound ≠ .unencodable := by
  obtain ⟨bs, encoded⟩ := Utf8.exists_encodePoints hp
  rw [upperBound, Utf8.encode?, encoded]
  dsimp only
  split <;> nofun

end Text
end RecordStore
