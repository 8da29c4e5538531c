import Mathlib.Tactic.Common
import Mathlib.Algebra.Order.Ring.Nat

namespace NdsDevkit.Framework

/-- The low `n` bytes of a number, the most significant one first. -/
def putBytes : Nat → Nat → List UInt8
  | 0, _ => []
  | n + 1, v => UInt8.ofNat (v >>> (8 * n)) :: putBytes n v

def getBytes : List UInt8 → Nat
  | b :: bs => b.toNat <<< (8 * bs.length) + getBytes bs
  | [] => 0

@[simp] theorem length_putBytes (n v : Nat) : (putBytes n v).length = n := by
  induction n with
  | zero => rfl
  | succ n ih => rw [putBytes, List.length_cons, ih]

theorem two_pow_eight_mul_succ (n : Nat) : 2 ^ (8 * (n + 1)) = 2 ^ (8 * n) * 2 ^ 8 := by
  rw [show 8 * (n + 1) = 8 * n + 8 by omega, pow_add]

/-- Only the low bytes are kept. -/
theorem getBytes_putBytes_mod (n v : Nat) : getBytes (putBytes n v) = v % 2 ^ (8 * n) := by
  induction n with
  | zero => simp [putBytes, getBytes, Nat.mod_one]
  | succ n ih =>
    rw [putBytes, getBytes, ih, length_putBytes, UInt8.toNat_ofNat', Nat.shiftRight_eq_div_pow,
      Nat.shiftLeft_eq, two_pow_eight_mul_succ, Nat.mod_mul, Nat.mul_comm (2 ^ (8 * n)),
      Nat.add_comm]

theorem getBytes_putBytes {n v : Nat} (h : v < 2 ^ (8 * n)) : getBytes (putBytes n v) = v := by
  rw [getBytes_putBytes_mod, Nat.mod_eq_of_lt h]

/-- A number of zero bytes. -/
theorem getBytes_replicate (n : Nat) : getBytes (List.replicate n 0) = 0 := by
  induction n with
  | zero => rfl
  | succ n ih => rw [List.replicate_succ, getBytes, ih, UInt8.toNat_zero, Nat.zero_shiftLeft]

end NdsDevkit.Framework
