import Mathlib.Order.Lattice
import Mathlib.Tactic.Common
import NdsDevkit.Framework.KeyRuns

namespace NdsDevkit.Framework

variable {α : Type*} [LinearOrder α] {xs : List α}

/-- Where an element belongs in a sorted list: behind the smaller ones. -/
def insertPoint (xs : List α) (u : α) : Nat := (xs.takeWhile (· < u)).length

theorem insertPoint_le (xs : List α) (u : α) : insertPoint xs u ≤ xs.length :=
  (List.takeWhile_prefix _).length_le

theorem take_insertPoint (xs : List α) (u : α) :
    xs.take (insertPoint xs u) = xs.takeWhile (· < u) :=
  (List.prefix_iff_eq_take.mp (List.takeWhile_prefix _)).symm

theorem drop_insertPoint (xs : List α) (u : α) :
    xs.drop (insertPoint xs u) = xs.dropWhile (· < u) :=
  drop_length_takeWhile _ xs

/-- A sorted list with another element, if it is not there yet. -/
def sortedInsert (xs : List α) (u : α) : List α :=
  if (xs.dropWhile (· < u)).head? = some u then xs
  else xs.takeWhile (· < u) ++ u :: xs.dropWhile (· < u)

theorem head?_dropWhile_of_mem {u : α} (hs : xs.Pairwise (· < ·)) (hu : u ∈ xs) :
    (xs.dropWhile (· < u)).head? = some u := by
  induction xs with
  | nil => cases hu
  | cons x xs ih =>
    obtain ⟨hx, hrest⟩ := List.pairwise_cons.mp hs
    rw [List.dropWhile_cons]
    rcases List.mem_cons.mp hu with rfl | hmem
    · rw [if_neg fun h => lt_irrefl u (of_decide_eq_true h)]
      rfl
    · rw [if_pos (decide_eq_true (hx u hmem))]
      exact ih hrest hmem

theorem mem_sortedInsert {u c : α} : c ∈ sortedInsert xs u ↔ c ∈ xs ∨ c = u := by
  have hsplit := List.takeWhile_append_dropWhile (p := fun x => decide (x < u)) (l := xs)
  have hmem : c ∈ xs ↔ c ∈ xs.takeWhile (· < u) ∨ c ∈ xs.dropWhile (· < u) := by
    rw [← List.mem_append, hsplit]
  rw [sortedInsert]
  split
  · next hhead =>
    refine ⟨.inl, ?_⟩
    intro hor
    rcases hor with hc | rfl
    · exact hc
    · exact hmem.mpr (.inr (List.mem_of_mem_head? hhead))
  · rw [hmem, List.mem_append, List.mem_cons]
    tauto

theorem length_sortedInsert_le (xs : List α) (u : α) :
    (sortedInsert xs u).length ≤ xs.length + 1 := by
  have hsplit := congrArg List.length
    (List.takeWhile_append_dropWhile (p := fun x => decide (x < u)) (l := xs))
  rw [List.length_append] at hsplit
  rw [sortedInsert]
  split
  · omega
  · simp only [List.length_append, List.length_cons]
    omega

/-- A strictly increasing list stays so. -/
theorem sortedInsert_sorted (u : α) (hs : xs.Pairwise (· < ·)) :
    (sortedInsert xs u).Pairwise (· < ·) := by
  have hsplit := List.takeWhile_append_dropWhile (p := fun x => decide (x < u)) (l := xs)
  rw [sortedInsert]
  split
  · exact hs
  · next hhead =>
    rw [← hsplit] at hs
    obtain ⟨hl, hr, hlr⟩ := List.pairwise_append.mp hs
    have hbefore : ∀ a, a ∈ xs.takeWhile (· < u) → a < u := by
      intro a ha
      exact of_decide_eq_true (List.all_eq_true.mp List.all_takeWhile a ha)
    have hbehind : ∀ a, a ∈ xs.dropWhile (· < u) → u < a := by
      intro a ha
      cases hd : xs.dropWhile (· < u) with
      | nil =>
        rw [hd] at ha
        cases ha
      | cons y ys =>
        have hy : ¬ y < u := by
          have hnot := List.head_dropWhile_not (fun x => decide (x < u)) (l := xs)
            (by simp [hd])
          simpa [hd] using hnot
        have hne : y ≠ u := by
          intro heq
          obtain rfl := heq
          exact hhead (by rw [hd]; rfl)
        rw [hd] at ha hr
        have hfirst : u < y := lt_of_le_of_ne (le_of_not_gt hy) (Ne.symm hne)
        rcases List.mem_cons.mp ha with rfl | hmem
        · exact hfirst
        · exact lt_trans hfirst ((List.pairwise_cons.mp hr).1 a hmem)
    refine List.pairwise_append.mpr ⟨hl, List.pairwise_cons.mpr ⟨hbehind, hr⟩, ?_⟩
    intro a ha b hb
    rcases List.mem_cons.mp hb with rfl | hmem
    · exact hbefore a ha
    · exact hlr a ha b hmem

end NdsDevkit.Framework
