import Mathlib.Tactic.Common
import Mathlib.Algebra.Order.Ring.Nat

namespace NdsDevkit.Framework

theorem and_shifted_mask (x m k : Nat) : x &&& m <<< k = (x >>> k &&& m) <<< k := by
  apply Nat.eq_of_testBit_eq
  intro i
  simp only [Nat.testBit_and, Nat.testBit_shiftLeft, Nat.testBit_shiftRight]
  by_cases hi : k ≤ i
  · simp [hi]
  · simp [hi]

theorem and_byte (x : Nat) : x &&& 0xff = x % 256 := Nat.and_two_pow_sub_one_eq_mod x 8

/-- What holds of all 256 byte values holds of every byte. -/
theorem forall_byte {P : UInt8 → Prop} (h : ∀ x < 256, P (UInt8.ofNat x)) (b : UInt8) : P b := by
  have hb := h b.toNat b.toNat_lt
  rwa [UInt8.ofNat_toNat] at hb

theorem xor_xor_cancel (a b : UInt8) : (a ^^^ b) ^^^ b = a := by
  rw [UInt8.xor_assoc, UInt8.xor_self, UInt8.xor_zero]

/-- A byte is the sum of its bits. -/
theorem eq_sum_bits : ∀ a : UInt8, a = (a &&& 1) ^^^ (a &&& 2) ^^^ (a &&& 4) ^^^ (a &&& 8) ^^^
    (a &&& 16) ^^^ (a &&& 32) ^^^ (a &&& 64) ^^^ (a &&& 128) := by
  apply forall_byte
  decide +kernel

theorem and_bit : ∀ a : UInt8, ∀ i < 8, a &&& UInt8.ofNat (2 ^ i) = 0 ∨
    a &&& UInt8.ofNat (2 ^ i) = UInt8.ofNat (2 ^ i) := by
  apply forall_byte
  decide +kernel

/-- Additive maps that agree on the single bits are equal. -/
theorem eq_of_bits {β : Type*} (op : β → β → β) {f g : UInt8 → β}
    (hf : ∀ a b, f (a ^^^ b) = op (f a) (f b)) (hg : ∀ a b, g (a ^^^ b) = op (g a) (g b))
    (hzero : f 0 = g 0) (hbit : ∀ i < 8, f (UInt8.ofNat (2 ^ i)) = g (UInt8.ofNat (2 ^ i)))
    (a : UInt8) : f a = g a := by
  have hand : ∀ i < 8, f (a &&& UInt8.ofNat (2 ^ i)) = g (a &&& UInt8.ofNat (2 ^ i)) := by
    intro i hi
    rcases and_bit a i hi with h | h
    · rw [h, hzero]
    · rw [h, hbit i hi]
  have h0 := hand 0 (by omega)
  have h1 := hand 1 (by omega)
  have h2 := hand 2 (by omega)
  have h3 := hand 3 (by omega)
  have h4 := hand 4 (by omega)
  have h5 := hand 5 (by omega)
  have h6 := hand 6 (by omega)
  have h7 := hand 7 (by omega)
  rw [eq_sum_bits a]
  simp only [hf, hg]
  congr

/-- The multiplication by x of a polynomial over the bits modulo x⁸ + x⁴ + x³ + x + 1. -/
def xtime (a : Nat) : Nat := a <<< 1 ^^^ (a >>> 7 % 2) * 0x11b

/-- The product with the low `n` bits of `c`. -/
def mulBits : Nat → Nat → Nat → Nat
  | 0, _, _ => 0
  | n + 1, c, a => (c % 2) * a ^^^ mulBits n (c / 2) (xtime a)

/-- The product of two bytes as such polynomials. -/
def fieldMul (c a : UInt8) : UInt8 := UInt8.ofNat (mulBits 8 c.toNat a.toNat)

/-- The power 254, which is the inverse of every byte but 0. -/
def fieldInv (a : UInt8) : UInt8 :=
  let a2 := fieldMul a a
  let a4 := fieldMul a2 a2
  let a8 := fieldMul a4 a4
  let a16 := fieldMul a8 a8
  let a32 := fieldMul a16 a16
  let a64 := fieldMul a32 a32
  let a128 := fieldMul a64 a64
  fieldMul a2 (fieldMul a4 (fieldMul a8 (fieldMul a16 (fieldMul a32 (fieldMul a64 a128)))))

theorem xor_xor_xor_comm (a b c d : Nat) : (a ^^^ b) ^^^ (c ^^^ d) = (a ^^^ c) ^^^ (b ^^^ d) := by
  ac_rfl

theorem bit_mul_xor (x y k : Nat) : ((x ^^^ y) % 2) * k = (x % 2) * k ^^^ (y % 2) * k := by
  rw [← Nat.pow_one 2, Nat.xor_mod_two_pow, Nat.pow_one]
  rcases Nat.mod_two_eq_zero_or_one x with hx | hx <;>
    rcases Nat.mod_two_eq_zero_or_one y with hy | hy <;> simp [hx, hy]

theorem xtime_xor (a b : Nat) : xtime (a ^^^ b) = xtime a ^^^ xtime b := by
  rw [xtime, Nat.shiftLeft_xor_distrib, Nat.shiftRight_xor_distrib, bit_mul_xor,
    xor_xor_xor_comm]
  rfl

theorem mulBits_xor (n c a b : Nat) :
    mulBits n c (a ^^^ b) = mulBits n c a ^^^ mulBits n c b := by
  induction n generalizing c a b with
  | zero => simp [mulBits]
  | succ n ih =>
    have hbit : (c % 2) * (a ^^^ b) = (c % 2) * a ^^^ (c % 2) * b := by
      rcases Nat.mod_two_eq_zero_or_one c with hc | hc <;> simp [hc]
    rw [mulBits, hbit, xtime_xor, ih, xor_xor_xor_comm]
    rfl

/-- The product distributes over the sum. -/
theorem fieldMul_xor (c a b : UInt8) : fieldMul c (a ^^^ b) = fieldMul c a ^^^ fieldMul c b := by
  rw [fieldMul, UInt8.toNat_xor, mulBits_xor, UInt8.ofNat_xor]
  rfl

theorem fieldInv_fieldInv : ∀ a : UInt8, fieldInv (fieldInv a) = a := by
  apply forall_byte
  decide +kernel

end NdsDevkit.Framework
