import RecordStore.Text.Base64

/-!
# Reading base64

What is written in base64 is made of letters that are safe in an address, and is read back: a group
of four letters gives three bytes, and a group that is not full is completed by padding.
-/

set_option autoImplicit false

namespace RecordStore
namespace Base64

def isLetter (c : CodePoint) : Bool :=
  (0x41 ≤ c.val && c.val ≤ 0x5A) || (0x61 ≤ c.val && c.val ≤ 0x7A) ||
    (0x30 ≤ c.val && c.val ≤ 0x39) || c.val = 0x2D || c.val = 0x5F

theorem letter_spec {n : Nat} (h : n < 64) :
    value? (letter n) = some n ∧ isPadding (letter n) = false ∧ isLetter (letter n) = true := by
  have all : ∀ m : Fin 64, value? (letter m.val) = some m.val ∧
      isPadding (letter m.val) = false ∧ isLetter (letter m.val) = true := by
    decide
  exact all ⟨n, h⟩

theorem isLetter_ascii {c : CodePoint} (h : isLetter c = true) : c.val < 0x80 := by
  simp [isLetter] at h
  omega

theorem decodeFrom_letter (g : Group) (pads : Nat) {v : Nat} (rest : List CodePoint) (h : v < 64) :
    decodeFrom g pads (letter v :: rest) =
      match g with
      | .fresh => decodeFrom (.one v) 0 rest
      | .one bits => (decodeFrom (.two (v % 16)) 0 rest).map (UInt8.ofNat (bits * 4 + v / 16) :: ·)
      | .two bits => (decodeFrom (.three (v % 4)) 0 rest).map (UInt8.ofNat (bits * 16 + v / 4) :: ·)
      | .three bits => (decodeFrom .fresh 0 rest).map (UInt8.ofNat (bits * 64 + v) :: ·) := by
  obtain ⟨value, unpadded, -⟩ := letter_spec h
  cases g <;> simp [decodeFrom, unpadded, value]

theorem ofNat_eq {b : UInt8} {n : Nat} (h : n = b.toNat) : UInt8.ofNat n = b := by
  rw [h, UInt8.ofNat_toNat]

def padding : CodePoint := CodePoint.ofChar '='

/-- Bytes are read back from their letters once the last group is completed. -/
theorem decodeFrom_encodePoints (bs : Bytes) :
    decodeFrom .fresh 0
      (encodePoints bs ++ List.replicate ((4 - (encodePoints bs).length % 4) % 4) padding) =
      some bs := by
  fun_induction encodePoints bs with
  | case1 => rfl
  | case2 a =>
    have ha := a.toNat_lt
    have first : UInt8.ofNat (a.toNat / 4 * 4 + a.toNat % 4 * 16 / 16) = a := ofNat_eq (by omega)
    simp (disch := omega) only [List.cons_append, decodeFrom_letter, first]
    rfl
  | case3 a b =>
    have ha := a.toNat_lt
    have hb := b.toNat_lt
    have first : UInt8.ofNat (a.toNat / 4 * 4 + (a.toNat % 4 * 16 + b.toNat / 16) / 16) = a :=
      ofNat_eq (by omega)
    have second : UInt8.ofNat ((a.toNat % 4 * 16 + b.toNat / 16) % 16 * 16 +
        b.toNat % 16 * 4 / 4) = b := ofNat_eq (by omega)
    simp (disch := omega) only [List.cons_append, decodeFrom_letter, first, second]
    rfl
  | case4 a b c rest ih =>
    have ha := a.toNat_lt
    have hb := b.toNat_lt
    have hc := c.toNat_lt
    have first : UInt8.ofNat (a.toNat / 4 * 4 + (a.toNat % 4 * 16 + b.toNat / 16) / 16) = a :=
      ofNat_eq (by omega)
    have second : UInt8.ofNat ((a.toNat % 4 * 16 + b.toNat / 16) % 16 * 16 +
        (b.toNat % 16 * 4 + c.toNat / 64) / 4) = b := ofNat_eq (by omega)
    have third : UInt8.ofNat ((b.toNat % 16 * 4 + c.toNat / 64) % 4 * 64 + c.toNat % 64) = c :=
      ofNat_eq (by omega)
    -- four more letters leave as much to be completed as before
    have length (n : Nat) : (n + 4) % 4 = n % 4 := Nat.add_mod_right n 4
    simp (disch := omega) only [List.cons_append, List.nil_append, List.length_cons, length,
      decodeFrom_letter, first, second, third, ih]
    rfl

theorem isLetter_encode (bs : Bytes) : ∀ c ∈ (encode bs).points, isLetter c = true := by
  show ∀ c ∈ encodePoints bs, isLetter c = true
  have letter {n : Nat} (h : n < 64) : isLetter (letter n) = true := (letter_spec h).2.2
  fun_induction encodePoints bs with
  | case1 => simp
  | case2 a =>
    have ha := a.toNat_lt
    simp only [List.forall_mem_cons]
    exact ⟨letter (by omega), letter (by omega), by simp⟩
  | case3 a b =>
    have ha := a.toNat_lt
    have hb := b.toNat_lt
    simp only [List.forall_mem_cons]
    exact ⟨letter (by omega), letter (by omega), letter (by omega), by simp⟩
  | case4 a b c rest ih =>
    have ha := a.toNat_lt
    have hb := b.toNat_lt
    have hc := c.toNat_lt
    simp only [List.cons_append, List.nil_append, List.forall_mem_cons]
    exact ⟨letter (by omega), letter (by omega), letter (by omega), letter (by omega), ih⟩

theorem decode?_encode (bs : Bytes) : decode? (encode bs) = some bs := by
  have ascii : (encode bs).points.all (·.val < 0x80) = true := by
    rw [List.all_eq_true]
    intro c hc
    simpa using isLetter_ascii (isLetter_encode bs c hc)
  rw [decode?, if_pos ascii]
  exact decodeFrom_encodePoints bs

end Base64
end RecordStore
