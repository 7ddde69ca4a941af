import RecordStore.Text.Utf8

/-!
# Reading encoded texts

The bytes of a code point are read as that code point, whatever comes behind them, so a text without
surrogates is read back from its encoding. Well-formed bytes never make a surrogate.
-/

set_option autoImplicit false

namespace RecordStore

namespace CodePoint

theorem ofNat_val (c : CodePoint) : ofNat c.val = c := by
  simp [ofNat]

theorem val_ofNat {n : Nat} (h : n < 0x110000) : (ofNat n).val = n := by
  simp [ofNat, h]

theorem isSurrogate_eq_false_iff (c : CodePoint) :
    c.isSurrogate = false ↔ c.val < 0xD800 ∨ 0xE000 ≤ c.val := by
  simp [isSurrogate]
  omega

end CodePoint

namespace Utf8

theorem toNat_ofNat {n : Nat} (h : n < 0x100) : (UInt8.ofNat n).toNat = n := by
  rw [UInt8.toNat_ofNat']
  exact Nat.mod_eq_of_lt h

theorem isTail_iff (b : UInt8) : isTail b = true ↔ 0x80 ≤ b.toNat ∧ b.toNat < 0xC0 := by
  simp [isTail]

theorem allowsSecond_iff (b b₁ : UInt8) :
    allowsSecond b b₁ = true ↔ isTail b₁ = true ∧ (b.toNat = 0xE0 → 0xA0 ≤ b₁.toNat) ∧
      (b.toNat = 0xED → b₁.toNat < 0xA0) ∧ (b.toNat = 0xF0 → 0x90 ≤ b₁.toNat) ∧
      (b.toNat = 0xF4 → b₁.toNat < 0x90) := by
  simp only [isTail_iff]
  rw [allowsSecond.eq_def]
  dsimp only
  split
  iterate 4
    rename_i first
    simp [first]
    omega
  rename_i e0 ed f0 f4
  rw [isTail_iff]
  exact ⟨fun h => ⟨h, fun e => (e0 e).elim, fun e => (ed e).elim, fun e => (f0 e).elim,
    fun e => (f4 e).elim⟩, And.left⟩

section Heads

variable {b b₁ b₂ b₃ : UInt8} (rest : Bytes)

theorem head_one (h : b.toNat < 0x80) :
    head b rest = (.point (CodePoint.ofNat b.toNat), rest) := by
  simp only [head]
  rw [if_pos h]

theorem head_stray (h : 0x80 ≤ b.toNat ∧ b.toNat < 0xC2) : head b rest = (.stray b, rest) := by
  simp only [head]
  rw [if_neg (by omega), if_neg (by omega), if_neg (by omega), if_neg (by omega)]

theorem head_two (h : 0xC2 ≤ b.toNat ∧ b.toNat < 0xE0) :
    head b (b₁ :: rest) =
      if isTail b₁ then (.point (CodePoint.ofNat ((b.toNat - 0xC0) * 0x40 + low b₁)), rest)
      else (.stray b, b₁ :: rest) := by
  simp only [head]
  rw [if_neg (by omega), if_pos h]

theorem head_three (h : 0xE0 ≤ b.toNat ∧ b.toNat < 0xF0) :
    head b (b₁ :: b₂ :: rest) =
      if allowsSecond b b₁ && isTail b₂ then
        (.point (CodePoint.ofNat ((b.toNat - 0xE0) * 0x1000 + low b₁ * 0x40 + low b₂)), rest)
      else (.stray b, b₁ :: b₂ :: rest) := by
  simp only [head]
  rw [if_neg (by omega), if_neg (by omega), if_pos h]

theorem head_four (h : 0xF0 ≤ b.toNat ∧ b.toNat < 0xF5) :
    head b (b₁ :: b₂ :: b₃ :: rest) =
      if allowsSecond b b₁ && isTail b₂ && isTail b₃ then
        (.point (CodePoint.ofNat
          ((b.toNat - 0xF0) * 0x40000 + low b₁ * 0x1000 + low b₂ * 0x40 + low b₃)), rest)
      else (.stray b, b₁ :: b₂ :: b₃ :: rest) := by
  simp only [head]
  rw [if_neg (by omega), if_neg (by omega), if_neg (by omega), if_pos h]

end Heads

def tail (n : Nat) : UInt8 := UInt8.ofNat (0x80 + n % 0x40)

theorem toNat_tail (n : Nat) : (tail n).toNat = 0x80 + n % 0x40 := toNat_ofNat (by omega)

theorem isTail_tail (n : Nat) : isTail (tail n) = true := by
  rw [isTail_iff, toNat_tail]
  omega

theorem low_tail (n : Nat) : low (tail n) = n % 0x40 := by
  rw [low, toNat_tail]
  omega

/-- The bytes of a code point by its width, surrogates aside. -/
inductive Encodes (c : CodePoint) : Bytes → Prop
  | one (h : c.val < 0x80) : Encodes c [UInt8.ofNat c.val]
  | two (h : 0x80 ≤ c.val ∧ c.val < 0x800) :
      Encodes c [UInt8.ofNat (0xC0 + c.val / 0x40), tail c.val]
  | three (h : 0x800 ≤ c.val ∧ c.val < 0x10000) (hs : c.val < 0xD800 ∨ 0xE000 ≤ c.val) :
      Encodes c [UInt8.ofNat (0xE0 + c.val / 0x1000), tail (c.val / 0x40), tail c.val]
  | four (h : 0x10000 ≤ c.val) :
      Encodes c [UInt8.ofNat (0xF0 + c.val / 0x40000), tail (c.val / 0x1000), tail (c.val / 0x40),
        tail c.val]

theorem encodePoint_of_encodes {c : CodePoint} {bs : Bytes} (h : Encodes c bs) :
    encodePoint c = some bs := by
  simp only [encodePoint]
  cases h with
  | one h => rw [if_pos h]
  | two h =>
    rw [if_neg (by omega), if_pos (by omega)]
    rfl
  | three h hs =>
    rw [if_neg (by omega), if_neg (by omega), if_neg (by omega), if_neg (by omega),
      if_pos (by omega)]
    rfl
  | four h =>
    rw [if_neg (by omega), if_neg (by omega), if_neg (by omega), if_neg (by omega),
      if_neg (by omega)]
    rfl

theorem exists_encodes {c : CodePoint} (h : c.isSurrogate = false) : ∃ bs, Encodes c bs := by
  rw [CodePoint.isSurrogate_eq_false_iff] at h
  by_cases one : c.val < 0x80
  · exact ⟨_, .one one⟩
  by_cases two : c.val < 0x800
  · exact ⟨_, .two (by omega)⟩
  by_cases three : c.val < 0x10000
  · exact ⟨_, .three (by omega) h⟩
  · exact ⟨_, .four (by omega)⟩

theorem Encodes.head_eq {c : CodePoint} {bs : Bytes} (h : Encodes c bs) :
    ∃ b more, bs = b :: more ∧ ∀ rest, head b (more ++ rest) = (.point c, rest) := by
  have hc := c.isLt
  have point {n : Nat} (hn : n = c.val) : CodePoint.ofNat n = c := by
    rw [hn, CodePoint.ofNat_val]
  cases h with
  | one h =>
    refine ⟨_, _, rfl, fun rest => ?_⟩
    have b := toNat_ofNat (n := c.val) (by omega)
    rw [List.nil_append, head_one rest (by omega), point b]
  | two h =>
    refine ⟨_, _, rfl, fun rest => ?_⟩
    have b := toNat_ofNat (n := 0xC0 + c.val / 0x40) (by omega)
    rw [List.singleton_append, head_two rest (by omega), if_pos (isTail_tail _), point]
    rw [low_tail]
    omega
  | three h hs =>
    refine ⟨_, _, rfl, fun rest => ?_⟩
    have b := toNat_ofNat (n := 0xE0 + c.val / 0x1000) (by omega)
    have second : allowsSecond (UInt8.ofNat (0xE0 + c.val / 0x1000)) (tail (c.val / 0x40)) =
        true := by
      rw [allowsSecond_iff, toNat_tail]
      exact ⟨isTail_tail _, by omega⟩
    rw [List.cons_append, List.singleton_append, head_three rest (by omega), second,
      isTail_tail, Bool.and_self, if_pos rfl, point]
    rw [low_tail, low_tail]
    omega
  | four h =>
    refine ⟨_, _, rfl, fun rest => ?_⟩
    have b := toNat_ofNat (n := 0xF0 + c.val / 0x40000) (by omega)
    have second :
        allowsSecond (UInt8.ofNat (0xF0 + c.val / 0x40000)) (tail (c.val / 0x1000)) = true := by
      rw [allowsSecond_iff, toNat_tail]
      exact ⟨isTail_tail _, by omega⟩
    rw [List.cons_append, List.cons_append, List.singleton_append, head_four rest (by omega),
      second, isTail_tail, isTail_tail, Bool.and_self, Bool.and_self, if_pos rfl, point]
    rw [low_tail, low_tail, low_tail]
    omega

theorem pieces_cons (b : UInt8) (rest : Bytes) :
    pieces (b :: rest) = (head b rest).1 :: pieces (head b rest).2 := by
  rw [pieces]

theorem encodePoints_cons_eq_some {c : CodePoint} {cs : List CodePoint} {bs : Bytes}
    (h : encodePoints (c :: cs) = some bs) :
    ∃ first more, encodePoint c = some first ∧ encodePoints cs = some more ∧
      bs = first ++ more := by
  obtain ⟨first, hc, h⟩ := Option.bind_eq_some_iff.mp h
  obtain ⟨more, hcs, h⟩ := Option.bind_eq_some_iff.mp h
  exact ⟨first, more, hc, hcs, (Option.some.inj h).symm⟩

theorem encodePoints_append {cs ds : List CodePoint} {bs more : Bytes}
    (h : encodePoints cs = some bs) (h' : encodePoints ds = some more) :
    encodePoints (cs ++ ds) = some (bs ++ more) := by
  induction cs generalizing bs with
  | nil =>
    cases h
    exact h'
  | cons c cs ih =>
    obtain ⟨first, rest, hc, hcs, rfl⟩ := encodePoints_cons_eq_some h
    rw [List.cons_append, encodePoints, hc, ih hcs, List.append_assoc]
    rfl

theorem exists_encodePoints {cs : List CodePoint} (h : ∀ c ∈ cs, c.isSurrogate = false) :
    ∃ bs, encodePoints cs = some bs := by
  induction cs with
  | nil => exact ⟨_, rfl⟩
  | cons c cs ih =>
    obtain ⟨hc, hcs⟩ := List.forall_mem_cons.mp h
    obtain ⟨first, hfirst⟩ := exists_encodes hc
    obtain ⟨more, hmore⟩ := ih hcs
    refine ⟨first ++ more, ?_⟩
    rw [encodePoints, encodePoint_of_encodes hfirst, hmore]
    rfl

theorem pieces_append {cs : List CodePoint} (h : ∀ c ∈ cs, c.isSurrogate = false) {bs : Bytes}
    (hb : encodePoints cs = some bs) (rest : Bytes) :
    pieces (bs ++ rest) = cs.map .point ++ pieces rest := by
  induction cs generalizing bs with
  | nil =>
    cases hb
    rfl
  | cons c cs ih =>
    obtain ⟨hc, hcs⟩ := List.forall_mem_cons.mp h
    obtain ⟨first, more, hfirst, hmore, rfl⟩ := encodePoints_cons_eq_some hb
    obtain ⟨bytes, encodes⟩ := exists_encodes hc
    obtain rfl := Option.some.inj ((encodePoint_of_encodes encodes).symm.trans hfirst)
    obtain ⟨b, tl, rfl, head_eq⟩ := encodes.head_eq
    rw [List.append_assoc, List.cons_append, pieces_cons, head_eq, ih hcs hmore]
    rfl

theorem mapM_codePoint?_eq_some_iff {ps : List Piece} {cs : List CodePoint} :
    ps.mapM Piece.codePoint? = some cs ↔ ps = cs.map .point := by
  induction ps generalizing cs with
  | nil => cases cs <;> simp
  | cons p ps ih =>
    rw [List.mapM_cons]
    cases p with
    | stray b => cases cs <;> simp [Piece.codePoint?]
    | point c =>
      cases cs with
      | nil => simp [Piece.codePoint?, Option.bind_eq_some_iff]
      | cons d ds =>
        simp only [Piece.codePoint?, Option.pure_def, Option.bind_eq_bind, Option.bind_some,
          Option.bind_eq_some_iff, ih, Option.some.injEq, List.cons.injEq, List.map_cons,
          Piece.point.injEq]
        constructor
        · rintro ⟨ds, hps, rfl, rfl⟩
          exact ⟨rfl, hps⟩
        · rintro ⟨rfl, hps⟩
          exact ⟨ds, hps, rfl, rfl⟩

theorem decodeStrict?_eq_some_iff {bs : Bytes} {t : Text} :
    decodeStrict? bs = some t ↔ pieces bs = t.points.map .point := by
  rw [decodeStrict?, Option.map_eq_some_iff]
  simp only [mapM_codePoint?_eq_some_iff]
  constructor
  · rintro ⟨cs, h, rfl⟩
    exact h
  · exact fun h => ⟨_, h, rfl⟩

theorem decodeStrict?_encode {t : Text} (h : ∀ c ∈ t.points, c.isSurrogate = false) :
    ∃ bs, encode? t = some bs ∧ decodeStrict? bs = some t := by
  obtain ⟨bs, hbs⟩ := exists_encodePoints h
  have read := pieces_append h hbs []
  rw [List.append_nil, pieces, List.append_nil] at read
  exact ⟨bs, hbs, decodeStrict?_eq_some_iff.mpr read⟩

end Utf8
end RecordStore
