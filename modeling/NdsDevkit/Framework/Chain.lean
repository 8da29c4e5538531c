import Mathlib.Tactic.Common
import Mathlib.Order.Lattice

namespace NdsDevkit.Framework

/-- Stretches that lie one behind the other from `a` to `b`, given by where they start. The
stretch at `o` ends at `next o`. -/
inductive Chain (next : Nat → Nat) : Nat → Nat → List Nat → Prop where
  | nil (a : Nat) : Chain next a a []
  | cons {a b : Nat} {os : List Nat} (hlt : a < next a) (hrest : Chain next (next a) b os) :
      Chain next a b (a :: os)

namespace Chain

variable {next next' : Nat → Nat} {a b c : Nat} {os ps : List Nat}

theorem le (h : Chain next a b os) : a ≤ b := by
  induction h with
  | nil a => exact Nat.le_refl a
  | cons hlt _ ih => omega

theorem bounds (h : Chain next a b os) {o : Nat} (ho : o ∈ os) :
    a ≤ o ∧ o < next o ∧ next o ≤ b := by
  induction h with
  | nil a => cases ho
  | cons hlt hrest ih =>
    have hle := hrest.le
    rcases List.mem_cons.mp ho with rfl | hmem
    · exact ⟨Nat.le_refl _, hlt, hle⟩
    · obtain ⟨h1, h2, h3⟩ := ih hmem
      exact ⟨by omega, h2, h3⟩

/-- Two stretches do not overlap. -/
theorem apart (h : Chain next a b os) {o p : Nat} (ho : o ∈ os) (hp : p ∈ os) (hne : o ≠ p) :
    next o ≤ p ∨ next p ≤ o := by
  induction h with
  | nil a => cases ho
  | cons hlt hrest ih =>
    rcases List.mem_cons.mp ho with rfl | hmo
    · rcases List.mem_cons.mp hp with rfl | hmp
      · exact absurd rfl hne
      · exact .inl (hrest.bounds hmp).1
    · rcases List.mem_cons.mp hp with rfl | hmp
      · exact .inr (hrest.bounds hmo).1
      · exact ih hmo hmp

theorem append (h : Chain next a b os) (h' : Chain next b c ps) : Chain next a c (os ++ ps) := by
  induction h with
  | nil a => exact h'
  | cons hlt _ ih => exact .cons hlt (ih h')

/-- One more stretch at the end. -/
theorem snoc (h : Chain next a b os) (hlt : b < next b) : Chain next a (next b) (os ++ [b]) :=
  h.append (.cons hlt (.nil _))

/-- Only the ends of the stretches matter. -/
theorem congr (h : Chain next a b os) (heq : ∀ o ∈ os, next' o = next o) :
    Chain next' a b os := by
  induction h with
  | nil a => exact .nil a
  | @cons a b os hlt hrest ih =>
    have ha := heq a List.mem_cons_self
    refine .cons (by rw [ha]; exact hlt) ?_
    rw [ha]
    exact ih fun o ho => heq o (List.mem_cons_of_mem _ ho)

/-- A chain that is not empty starts with a stretch. -/
theorem exists_cons (h : Chain next a b os) (hab : a < b) :
    ∃ ps, os = a :: ps ∧ a < next a ∧ Chain next (next a) b ps := by
  cases h with
  | nil => exact absurd hab (Nat.lt_irrefl _)
  | cons hlt hrest => exact ⟨_, rfl, hlt, hrest⟩

theorem eq_nil (h : Chain next a a os) : os = [] := by
  cases h with
  | nil => rfl
  | cons hlt hrest => exact absurd hrest.le (by omega)

end Chain

end NdsDevkit.Framework
