import NdsDevkit.Framework.ByteField
import NdsDevkit.Framework.KeyAlternating
import Mathlib.Logic.Function.Iterate

namespace NdsDevkit.Rijndael

open Framework

/-- The cipher without tables: a state of four columns with four bytes each. -/
structure Column where
  b0 : UInt8
  b1 : UInt8
  b2 : UInt8
  b3 : UInt8
  deriving DecidableEq

structure State where
  c0 : Column
  c1 : Column
  c2 : Column
  c3 : Column

def rotateLeft (a k : UInt8) : UInt8 := a <<< k ||| a >>> (8 - k)

/-- The substitution: inversion in the field and an affine map. -/
def affine (a : UInt8) : UInt8 :=
  a ^^^ rotateLeft a 1 ^^^ rotateLeft a 2 ^^^ rotateLeft a 3 ^^^ rotateLeft a 4 ^^^ 0x63

def invAffine (a : UInt8) : UInt8 := rotateLeft a 1 ^^^ rotateLeft a 3 ^^^ rotateLeft a 6 ^^^ 0x05

theorem invAffine_affine : ∀ a : UInt8, invAffine (affine a) = a := by
  apply forall_byte
  decide +kernel

theorem affine_invAffine : ∀ a : UInt8, affine (invAffine a) = a := by
  apply forall_byte
  decide +kernel

def sbox : UInt8 ≃ UInt8 where
  toFun a := affine (fieldInv a)
  invFun a := fieldInv (invAffine a)
  left_inv a := by
    change fieldInv (invAffine (affine (fieldInv a))) = a
    rw [invAffine_affine, fieldInv_fieldInv]
  right_inv a := by
    change affine (fieldInv (fieldInv (invAffine a))) = a
    rw [fieldInv_fieldInv, affine_invAffine]

namespace Column

def add (c d : Column) : Column := ⟨c.b0 ^^^ d.b0, c.b1 ^^^ d.b1, c.b2 ^^^ d.b2, c.b3 ^^^ d.b3⟩

def map (f : UInt8 → UInt8) (c : Column) : Column := ⟨f c.b0, f c.b1, f c.b2, f c.b3⟩

def rotate (c : Column) : Column := ⟨c.b1, c.b2, c.b3, c.b0⟩

def bytes (c : Column) : List UInt8 := [c.b0, c.b1, c.b2, c.b3]

/-- The product with a circulant matrix, given by its first row. -/
def circulant (m0 m1 m2 m3 : UInt8) (c : Column) : Column where
  b0 := fieldMul m0 c.b0 ^^^ fieldMul m1 c.b1 ^^^ fieldMul m2 c.b2 ^^^ fieldMul m3 c.b3
  b1 := fieldMul m3 c.b0 ^^^ fieldMul m0 c.b1 ^^^ fieldMul m1 c.b2 ^^^ fieldMul m2 c.b3
  b2 := fieldMul m2 c.b0 ^^^ fieldMul m3 c.b1 ^^^ fieldMul m0 c.b2 ^^^ fieldMul m1 c.b3
  b3 := fieldMul m1 c.b0 ^^^ fieldMul m2 c.b1 ^^^ fieldMul m3 c.b2 ^^^ fieldMul m0 c.b3

def mix : Column → Column := circulant 2 3 1 1

def unmix : Column → Column := circulant 14 11 13 9

theorem add_add (c d : Column) : (c.add d).add d = c := by
  simp only [add, xor_xor_cancel]

theorem xor_four (a b c d a' b' c' d' : UInt8) :
    (a ^^^ a') ^^^ (b ^^^ b') ^^^ (c ^^^ c') ^^^ (d ^^^ d') =
      (a ^^^ b ^^^ c ^^^ d) ^^^ (a' ^^^ b' ^^^ c' ^^^ d') := by
  ac_rfl

theorem circulant_add (m0 m1 m2 m3 : UInt8) (c d : Column) :
    circulant m0 m1 m2 m3 (c.add d) = (circulant m0 m1 m2 m3 c).add (circulant m0 m1 m2 m3 d) := by
  simp only [circulant, add, fieldMul_xor, xor_four]

/-- A column is the sum of its bytes, each in its place. -/
theorem eq_sum (c : Column) : c = (((⟨c.b0, 0, 0, 0⟩ : Column).add ⟨0, c.b1, 0, 0⟩).add
    ⟨0, 0, c.b2, 0⟩).add ⟨0, 0, 0, c.b3⟩ := by
  simp [add]

/-- Additive maps that agree on the single bits are equal. -/
theorem eq_of_single {f g : Column → Column} (hf : ∀ c d, f (c.add d) = (f c).add (f d))
    (hg : ∀ c d, g (c.add d) = (g c).add (g d))
    (h : ∀ a ∈ [0, 1, 2, 4, 8, 16, 32, 64, 128], f ⟨a, 0, 0, 0⟩ = g ⟨a, 0, 0, 0⟩ ∧
      f ⟨0, a, 0, 0⟩ = g ⟨0, a, 0, 0⟩ ∧ f ⟨0, 0, a, 0⟩ = g ⟨0, 0, a, 0⟩ ∧
      f ⟨0, 0, 0, a⟩ = g ⟨0, 0, 0, a⟩) (c : Column) : f c = g c := by
  have hbyte : ∀ e : UInt8 → Column, (∀ a b, e (a ^^^ b) = (e a).add (e b)) →
      (∀ a ∈ [0, 1, 2, 4, 8, 16, 32, 64, 128], f (e a) = g (e a)) → ∀ a, f (e a) = g (e a) := by
    intro e he hbits
    apply eq_of_bits add
    · intro a b
      rw [he, hf]
    · intro a b
      rw [he, hg]
    · exact hbits 0 (by decide)
    · intro i hi
      apply hbits
      revert i
      decide
  have h0 := hbyte (fun a => ⟨a, 0, 0, 0⟩) (fun a b => by simp [add]) (fun a ha => (h a ha).1) c.b0
  have h1 := hbyte (fun a => ⟨0, a, 0, 0⟩) (fun a b => by simp [add]) (fun a ha => (h a ha).2.1) c.b1
  have h2 := hbyte (fun a => ⟨0, 0, a, 0⟩) (fun a b => by simp [add])
    (fun a ha => (h a ha).2.2.1) c.b2
  have h3 := hbyte (fun a => ⟨0, 0, 0, a⟩) (fun a b => by simp [add])
    (fun a ha => (h a ha).2.2.2) c.b3
  rw [eq_sum c, hf, hf, hf, hg, hg, hg, h0, h1, h2, h3]

theorem unmix_mix (c : Column) : c.mix.unmix = c := by
  apply eq_of_single (f := fun c => c.mix.unmix) (g := id)
  · intro c d
    rw [mix, circulant_add, unmix, circulant_add]
  · exact fun _ _ => rfl
  · decide +kernel

theorem mix_unmix (c : Column) : c.unmix.mix = c := by
  apply eq_of_single (f := fun c => c.unmix.mix) (g := id)
  · intro c d
    rw [unmix, circulant_add, mix, circulant_add]
  · exact fun _ _ => rfl
  · decide +kernel

end Column

namespace State

def add (s k : State) : State := ⟨s.c0.add k.c0, s.c1.add k.c1, s.c2.add k.c2, s.c3.add k.c3⟩

def map (f : Column → Column) (s : State) : State := ⟨f s.c0, f s.c1, f s.c2, f s.c3⟩

/-- Row `i` moves `i` columns to the left. -/
def shiftRows (s : State) : State where
  c0 := ⟨s.c0.b0, s.c1.b1, s.c2.b2, s.c3.b3⟩
  c1 := ⟨s.c1.b0, s.c2.b1, s.c3.b2, s.c0.b3⟩
  c2 := ⟨s.c2.b0, s.c3.b1, s.c0.b2, s.c1.b3⟩
  c3 := ⟨s.c3.b0, s.c0.b1, s.c1.b2, s.c2.b3⟩

def unshiftRows (s : State) : State where
  c0 := ⟨s.c0.b0, s.c3.b1, s.c2.b2, s.c1.b3⟩
  c1 := ⟨s.c1.b0, s.c0.b1, s.c3.b2, s.c2.b3⟩
  c2 := ⟨s.c2.b0, s.c1.b1, s.c0.b2, s.c3.b3⟩
  c3 := ⟨s.c3.b0, s.c2.b1, s.c1.b2, s.c0.b3⟩

/-- The bytes of a block, column by column. -/
def bytes (s : State) : List UInt8 := s.c0.bytes ++ s.c1.bytes ++ s.c2.bytes ++ s.c3.bytes

theorem add_add (s k : State) : (s.add k).add k = s := by
  simp only [add, Column.add_add]

/-- SubBytes and ShiftRows. -/
def sub : State ≃ State where
  toFun s := (s.map (Column.map sbox)).shiftRows
  invFun s := (s.map (Column.map sbox.symm)).unshiftRows
  left_inv s := by simp [map, Column.map, shiftRows, unshiftRows]
  right_inv s := by simp [map, Column.map, shiftRows, unshiftRows]

/-- MixColumns. -/
def mix : State ≃ State where
  toFun := map Column.mix
  invFun := map Column.unmix
  left_inv s := by simp only [map, Column.unmix_mix]
  right_inv s := by simp only [map, Column.mix_unmix]

def layers : Layers State where
  add := add
  sub := sub
  mix := mix
  add_add := add_add
  unmix_add s k := by
    change map Column.unmix (add s k) = add (map Column.unmix s) (map Column.unmix k)
    simp only [map, add, Column.unmix, Column.circulant_add]

end State

/-- The constant of pass `i`, counted from 1: the power `i - 1` of x. -/
def roundConstant : Nat → Column
  | 0 => ⟨0, 0, 0, 0⟩
  | i + 1 => ⟨UInt8.ofNat (xtime^[i] 1), 0, 0, 0⟩

/-- The key schedule: word `i` for a key of `nk` words. -/
def scheduleWord (key : Nat → Column) (nk i : Nat) : Column :=
  if i < nk ∨ nk = 0 then key i
  else
    let w := scheduleWord key nk (i - nk)
    let v := scheduleWord key nk (i - 1)
    if i % nk = 0 then w.add ((v.rotate.map sbox).add (roundConstant (i / nk)))
    else if nk > 6 ∧ i % nk = 4 then w.add (v.map sbox)
    else w.add v
termination_by i
decreasing_by all_goals omega

/-- Round key `r` of a schedule. -/
def roundKey (w : Nat → Column) (r : Nat) : State :=
  ⟨w (4 * r), w (4 * r + 1), w (4 * r + 2), w (4 * r + 3)⟩

end NdsDevkit.Rijndael
