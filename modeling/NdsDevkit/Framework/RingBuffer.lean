import Mathlib.Tactic.Common
import Mathlib.Algebra.Order.Ring.Nat

namespace NdsDevkit.Framework

variable {α : Type*}

/-- The slots of a ring from `start` on hold `xs`. -/
def InRing (cap : Nat) (slots : Nat → α) (start : Nat) (xs : List α) : Prop :=
  ∀ k, k < xs.length → xs[k]? = some (slots ((start + k) % cap))

def setSlot (slots : Nat → α) (i : Nat) (x : α) : Nat → α :=
  fun j => if j = i then x else slots j

namespace InRing

variable {cap start : Nat} {slots : Nat → α} {xs : List α}

theorem nil (cap : Nat) (slots : Nat → α) (start : Nat) : InRing cap slots start [] := by
  intro k hk
  simp at hk

theorem offset_ne {a b : Nat} (hab : a < b) (hb : b < cap) :
    (start + a) % cap ≠ (start + b) % cap := by
  intro h
  have hmod := Nat.sub_mod_eq_zero_of_mod_eq h.symm
  rw [Nat.mod_eq_of_lt (by omega)] at hmod
  omega

/-- The slot behind the last element takes another one while the ring is not full. -/
theorem push (h : InRing cap slots start xs) (hcap : xs.length < cap) (x : α) :
    InRing cap (setSlot slots ((start + xs.length) % cap) x) start (xs ++ [x]) := by
  intro k hk
  rw [List.length_append, List.length_singleton] at hk
  rw [setSlot]
  rcases Nat.eq_or_lt_of_le (show k ≤ xs.length by omega) with rfl | hlt
  · rw [if_pos rfl, List.getElem?_append_right (Nat.le_refl _), Nat.sub_self]
    rfl
  · rw [if_neg (offset_ne hlt hcap), List.getElem?_append_left hlt]
    exact h k hlt

theorem drop (h : InRing cap slots start xs) (n : Nat) :
    InRing cap slots ((start + n) % cap) (xs.drop n) := by
  intro k hk
  rw [List.length_drop] at hk
  rw [List.getElem?_drop, Nat.mod_add_mod, Nat.add_assoc]
  exact h (n + k) (by omega)

end InRing

end NdsDevkit.Framework
