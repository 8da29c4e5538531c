import NdsDevkit.Rijndael.Cipher
import NdsDevkit.Rijndael.Standard
import Mathlib.Data.Nat.Bitwise

namespace NdsDevkit.Rijndael

open Framework

/-- The word that holds a column, its first byte on top. -/
def Column.word (c : Column) : Nat :=
  c.b0.toNat <<< 24 ^^^ c.b1.toNat <<< 16 ^^^ c.b2.toNat <<< 8 ^^^ c.b3.toNat

def State.words (s : State) : Words := ⟨s.c0.word, s.c1.word, s.c2.word, s.c3.word⟩

theorem shiftLeft_xor_eq_add {a b n : Nat} (hb : b < 2 ^ n) : a <<< n ^^^ b = a * 2 ^ n + b := by
  apply Nat.eq_of_testBit_eq
  intro i
  rw [Nat.mul_comm, Nat.testBit_two_pow_mul_add a hb, Nat.testBit_xor, Nat.testBit_shiftLeft]
  by_cases hi : i < n
  · simp [hi, show ¬ n ≤ i by omega]
  · have hbit : b.testBit i = false := Nat.testBit_lt_two_pow (lt_of_lt_of_le hb
      (Nat.pow_le_pow_right (by decide) (by omega)))
    simp [hi, hbit, show n ≤ i by omega]

namespace Column

theorem word_eq (c : Column) :
    c.word = c.b0.toNat * 2 ^ 24 + c.b1.toNat * 2 ^ 16 + c.b2.toNat * 2 ^ 8 + c.b3.toNat := by
  have h1 := c.b1.toNat_lt
  have h2 := c.b2.toNat_lt
  have h3 := c.b3.toNat_lt
  have hlow := shiftLeft_xor_eq_add (a := c.b2.toNat) h3
  have hmid := shiftLeft_xor_eq_add (a := c.b1.toNat) (b := c.b2.toNat * 2 ^ 8 + c.b3.toNat)
    (n := 16) (by omega)
  rw [word, Nat.xor_assoc, Nat.xor_assoc, hlow, hmid, shiftLeft_xor_eq_add (by omega)]
  omega

theorem word_shift24 (c : Column) : c.word >>> 24 = c.b0.toNat := by
  have h1 := c.b1.toNat_lt
  have h2 := c.b2.toNat_lt
  have h3 := c.b3.toNat_lt
  rw [word_eq, Nat.shiftRight_eq_div_pow]
  omega

theorem word_shift16 (c : Column) : c.word >>> 16 &&& 0xff = c.b1.toNat := by
  have h1 := c.b1.toNat_lt
  have h2 := c.b2.toNat_lt
  have h3 := c.b3.toNat_lt
  rw [word_eq, Nat.shiftRight_eq_div_pow, and_byte]
  omega

theorem word_shift8 (c : Column) : c.word >>> 8 &&& 0xff = c.b2.toNat := by
  have h2 := c.b2.toNat_lt
  have h3 := c.b3.toNat_lt
  rw [word_eq, Nat.shiftRight_eq_div_pow, and_byte]
  omega

theorem word_low (c : Column) : c.word &&& 0xff = c.b3.toNat := by
  have h3 := c.b3.toNat_lt
  rw [word_eq, and_byte]
  omega

theorem word_add (c d : Column) : (c.add d).word = c.word ^^^ d.word := by
  simp only [word, add, UInt8.toNat_xor, Nat.shiftLeft_xor_distrib]
  rw [xor_xor_xor_comm (_ <<< 24), xor_xor_xor_comm (_ <<< 24 ^^^ _),
    xor_xor_xor_comm (_ <<< 24 ^^^ _ ^^^ _)]

end Column

theorem lookup_map_range (f : Nat → Nat) {n i : Nat} (hi : i < n) :
    lookup ((List.range n).map f) i = .ok (f i) := by
  rw [lookup, Buf.read_ofList (by simpa using hi)]
  simp

/-- A table whose entry for every byte is the word of a column. -/
def tableOf (f : UInt8 → Column) : List Nat :=
  (List.range 256).map fun n => (f (UInt8.ofNat n)).word

theorem lookup_tableOf (f : UInt8 → Column) (b : UInt8) :
    lookup (tableOf f) b.toNat = .ok (f b).word := by
  rw [tableOf, lookup_map_range _ b.toNat_lt, UInt8.ofNat_toNat]

/-- The word with the same byte four times. -/
def Column.same (b : UInt8) : Column := ⟨b, b, b, b⟩

theorem ofNat_word (c : Column) : UInt8.ofNat c.word = c.b3 := by
  rw [c.word_eq, ← UInt8.toNat_inj, UInt8.toNat_ofNat']
  have h3 := c.b3.toNat_lt
  omega

/-- A table whose entries are made from the low bytes of another one. -/
def tableFrom (base : List Nat) (g : UInt8 → Column) : List Nat :=
  base.map fun w => (g (UInt8.ofNat w)).word

theorem tableFrom_tableOf (f : UInt8 → UInt8) (g : UInt8 → Column) :
    tableFrom (tableOf fun b => .same (f b)) g = tableOf fun b => g (f b) := by
  rw [tableFrom, tableOf, tableOf, List.map_map]
  apply List.map_congr_left
  intro n _
  rw [Function.comp_apply, ofNat_word]
  rfl

theorem te4_eq : te4 = tableOf fun b => .same (sbox b) := by decide +kernel

theorem td4_eq : td4 = tableOf fun b => .same (sbox.symm b) := by decide +kernel

theorem te_from : te0 = tableFrom te4 (fun s => ⟨fieldMul 2 s, s, s, fieldMul 3 s⟩) ∧
    te1 = tableFrom te4 (fun s => ⟨fieldMul 3 s, fieldMul 2 s, s, s⟩) ∧
    te2 = tableFrom te4 (fun s => ⟨s, fieldMul 3 s, fieldMul 2 s, s⟩) ∧
    te3 = tableFrom te4 (fun s => ⟨s, s, fieldMul 3 s, fieldMul 2 s⟩) := by decide +kernel

theorem td_from :
    td0 = tableFrom td4 (fun s => ⟨fieldMul 14 s, fieldMul 9 s, fieldMul 13 s, fieldMul 11 s⟩) ∧
    td1 = tableFrom td4 (fun s => ⟨fieldMul 11 s, fieldMul 14 s, fieldMul 9 s, fieldMul 13 s⟩) ∧
    td2 = tableFrom td4 (fun s => ⟨fieldMul 13 s, fieldMul 11 s, fieldMul 14 s, fieldMul 9 s⟩) ∧
    td3 = tableFrom td4 (fun s => ⟨fieldMul 9 s, fieldMul 13 s, fieldMul 11 s, fieldMul 14 s⟩) := by
  decide +kernel

theorem fieldMul_one : ∀ a : UInt8, fieldMul 1 a = a := by
  apply forall_byte
  decide +kernel

theorem fieldMul_zero : ∀ c : UInt8, fieldMul c 0 = 0 := by
  apply forall_byte
  decide +kernel

/-- The encryption tables hold the mixed columns of the bytes that the substitution makes. -/
theorem te_eq : te0 = tableOf (fun b => Column.mix ⟨sbox b, 0, 0, 0⟩) ∧
    te1 = tableOf (fun b => Column.mix ⟨0, sbox b, 0, 0⟩) ∧
    te2 = tableOf (fun b => Column.mix ⟨0, 0, sbox b, 0⟩) ∧
    te3 = tableOf (fun b => Column.mix ⟨0, 0, 0, sbox b⟩) := by
  obtain ⟨h0, h1, h2, h3⟩ := te_from
  rw [te4_eq, tableFrom_tableOf] at h0 h1 h2 h3
  rw [h0, h1, h2, h3]
  simp [Column.mix, Column.circulant, fieldMul_one, fieldMul_zero]

/-- The decryption tables hold the unmixed columns of the bytes of the inverse substitution. -/
theorem td_eq : td0 = tableOf (fun b => Column.unmix ⟨sbox.symm b, 0, 0, 0⟩) ∧
    td1 = tableOf (fun b => Column.unmix ⟨0, sbox.symm b, 0, 0⟩) ∧
    td2 = tableOf (fun b => Column.unmix ⟨0, 0, sbox.symm b, 0⟩) ∧
    td3 = tableOf (fun b => Column.unmix ⟨0, 0, 0, sbox.symm b⟩) := by
  obtain ⟨h0, h1, h2, h3⟩ := td_from
  rw [td4_eq, tableFrom_tableOf] at h0 h1 h2 h3
  rw [h0, h1, h2, h3]
  simp [Column.unmix, Column.circulant, fieldMul_zero]

end NdsDevkit.Rijndael
