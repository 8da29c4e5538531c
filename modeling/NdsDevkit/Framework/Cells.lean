import Mathlib.Tactic.Common
import Mathlib.Algebra.Order.Ring.Nat

namespace NdsDevkit.Framework

/-- Cells without an end, each of which has a value. -/
abbrev Cells (α : Type*) := Nat → α

namespace Cells

variable {α : Type*}

/-- The `n` values from `i` on. -/
def get (m : Cells α) (i n : Nat) : List α := (List.range n).map fun k => m (i + k)

/-- Overwrites the cells from `i` on with `xs`. -/
def put (m : Cells α) (i : Nat) (xs : List α) : Cells α :=
  fun j => if i ≤ j ∧ j < i + xs.length then (xs[j - i]?).getD (m j) else m j

@[simp] theorem length_get (m : Cells α) (i n : Nat) : (m.get i n).length = n := by simp [get]

theorem get_add (m : Cells α) (i n k : Nat) : m.get i (n + k) = m.get i n ++ m.get (i + n) k := by
  simp only [get, List.range_add, List.map_append, List.map_map]
  congr 1
  apply List.map_congr_left
  intro j _
  simp [Nat.add_assoc]

theorem get_congr {m m' : Cells α} {i n : Nat} (h : ∀ j, i ≤ j → j < i + n → m j = m' j) :
    m.get i n = m'.get i n := by
  apply List.map_congr_left
  intro k hk
  rw [List.mem_range] at hk
  exact h _ (by omega) (by omega)

theorem put_of_mem (m : Cells α) {i j : Nat} {xs : List α} (h1 : i ≤ j) (h2 : j < i + xs.length) :
    m.put i xs j = xs[j - i] := by
  rw [put, if_pos ⟨h1, h2⟩, List.getElem?_eq_getElem (by omega), Option.getD_some]

theorem put_of_not_mem (m : Cells α) {i j : Nat} {xs : List α} (h : j < i ∨ i + xs.length ≤ j) :
    m.put i xs j = m j := by
  rw [put, if_neg (by omega)]

@[simp] theorem put_nil (m : Cells α) (i : Nat) : m.put i [] = m := by
  funext j
  apply put_of_not_mem
  rw [List.length_nil]
  omega

theorem get_put_same (m : Cells α) (i : Nat) (xs : List α) : (m.put i xs).get i xs.length = xs := by
  apply List.ext_getElem (length_get _ _ _)
  intro k h1 h2
  simp only [get, List.getElem_map, List.getElem_range]
  rw [put_of_mem m (by omega) (by omega)]
  congr 1
  omega

theorem get_put_apart (m : Cells α) {i j n : Nat} {xs : List α}
    (h : j + n ≤ i ∨ i + xs.length ≤ j) : (m.put i xs).get j n = m.get j n := by
  apply get_congr
  intro k h1 h2
  exact put_of_not_mem m (by omega)

/-- Two writes one behind the other are one. -/
theorem put_put (m : Cells α) {i j : Nat} (xs ys : List α) (hj : j = i + xs.length) :
    (m.put i xs).put j ys = m.put i (xs ++ ys) := by
  subst hj
  funext k
  by_cases hi : k < i
  · rw [put_of_not_mem _ (by omega), put_of_not_mem _ (by omega), put_of_not_mem _ (by omega)]
  by_cases hx : k < i + xs.length
  · rw [put_of_not_mem _ (by omega), put_of_mem _ (by omega) hx,
      put_of_mem _ (by omega) (by rw [List.length_append]; omega),
      List.getElem_append_left (by omega)]
  by_cases hy : k < i + xs.length + ys.length
  · rw [put_of_mem _ (by omega) hy, put_of_mem _ (by omega) (by rw [List.length_append]; omega),
      List.getElem_append_right (by omega)]
    congr 1
    omega
  · rw [put_of_not_mem _ (by omega), put_of_not_mem _ (by omega),
      put_of_not_mem _ (by rw [List.length_append]; omega)]

end Cells

end NdsDevkit.Framework
