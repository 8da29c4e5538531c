import Mathlib.Logic.Equiv.Defs

namespace NdsDevkit.Framework

/-- The layers of a cipher that adds a key, substitutes and mixes in turn. Adding a key twice
cancels, and the inverse of the mixing is linear. -/
structure Layers (S : Type*) where
  add : S → S → S
  sub : S ≃ S
  mix : S ≃ S
  add_add : ∀ s k, add (add s k) k = s
  unmix_add : ∀ s k, mix.symm (add s k) = add (mix.symm s) (mix.symm k)

namespace Layers

variable {S : Type*} (L : Layers S) (key : Nat → S)

/-- The state after `n` full rounds; the first addition takes key 0. -/
def rounds : Nat → S → S
  | 0, s => L.add s (key 0)
  | n + 1, s => L.add (L.mix (L.sub (rounds n s))) (key (n + 1))

/-- `n` full rounds and a last one that does not mix. -/
def encrypt (n : Nat) (s : S) : S := L.add (L.sub (L.rounds key n s)) (key (n + 1))

/-- The rounds of the inverse cipher that has the same shape, with keys of its own. -/
def unrounds : Nat → S → S
  | 0, s => L.add s (key 0)
  | n + 1, s => L.add (L.mix.symm (L.sub.symm (unrounds n s))) (key (n + 1))

def decrypt (n : Nat) (s : S) : S := L.add (L.sub.symm (L.unrounds key n s)) (key (n + 1))

/-- The keys of the inverse: in reverse order, those of the full rounds unmixed. -/
def inverseKey (n r : Nat) : S :=
  if r = 0 ∨ r = n + 1 then key (n + 1 - r) else L.mix.symm (key (n + 1 - r))

/-- `r` rounds of the inverse undo the last `r` rounds up to the substitution. -/
theorem unrounds_encrypt {n r : Nat} (hr : r ≤ n) (s : S) :
    L.unrounds (L.inverseKey key n) r (L.encrypt key n s) = L.sub (L.rounds key (n - r) s) := by
  induction r with
  | zero =>
    rw [unrounds, encrypt, inverseKey, if_pos (.inl rfl)]
    exact L.add_add _ _
  | succ r ih =>
    have hkey : L.inverseKey key n (r + 1) = L.mix.symm (key (n - r)) := by
      rw [inverseKey, if_neg (by omega), Nat.add_sub_add_right]
    have hround : n - r = n - (r + 1) + 1 := by omega
    rw [unrounds, ih (by omega), Equiv.symm_apply_apply, hkey, ← L.unmix_add, hround, rounds,
      L.add_add, Equiv.symm_apply_apply]

theorem decrypt_encrypt (n : Nat) (s : S) :
    L.decrypt (L.inverseKey key n) n (L.encrypt key n s) = s := by
  have hkey : L.inverseKey key n (n + 1) = key 0 := by
    rw [inverseKey, if_pos (.inr rfl), Nat.sub_self]
  rw [decrypt, L.unrounds_encrypt key (Nat.le_refl n), Nat.sub_self, Equiv.symm_apply_apply, hkey,
    rounds, L.add_add]

/-- The first rounds of a text that the inverse has made: they are those the inverse ends with. -/
theorem rounds_decrypt {n r : Nat} (hr : r ≤ n) (s : S) :
    L.rounds key (n - r) (L.decrypt (L.inverseKey key n) n s) =
      L.sub.symm (L.unrounds (L.inverseKey key n) r s) := by
  induction hd : n - r generalizing r with
  | zero =>
    obtain rfl : r = n := by omega
    have hkey : L.inverseKey key r (r + 1) = key 0 := by
      rw [inverseKey, if_pos (.inr rfl), Nat.sub_self]
    rw [rounds, decrypt, hkey, L.add_add]
  | succ d ih =>
    have hkey : L.inverseKey key n (r + 1) = L.mix.symm (key (d + 1)) := by
      rw [inverseKey, if_neg (by omega), Nat.add_sub_add_right, hd]
    have hround := ih (r := r + 1) (by omega) (by omega)
    rw [rounds, hround, Equiv.apply_symm_apply, unrounds, hkey, ← L.unmix_add,
      Equiv.apply_symm_apply, L.add_add]

theorem encrypt_decrypt (n : Nat) (s : S) :
    L.encrypt key n (L.decrypt (L.inverseKey key n) n s) = s := by
  have hkey : L.inverseKey key n 0 = key (n + 1) := by
    rw [inverseKey, if_pos (.inl rfl), Nat.sub_zero]
  have hround := L.rounds_decrypt key (Nat.zero_le n) s
  rw [Nat.sub_zero] at hround
  rw [encrypt, hround, Equiv.apply_symm_apply, unrounds, hkey, L.add_add]

end Layers

end NdsDevkit.Framework
