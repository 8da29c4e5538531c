import Mathlib.Tactic.Common

namespace NdsDevkit.Framework

universe u v w x y

variable {σ : Type u} {α : Type v} {ο : Type w} {ω : Type x} {ε : Type y}

/-- Runs a machine whose steps may fail, and collects its results. -/
def runSteps (step : σ → ο → Except ε (σ × ω)) : σ → List ο → Except ε (σ × List ω)
  | s, [] => .ok (s, [])
  | s, o :: os =>
    match step s o with
    | .error e => .error e
    | .ok (s', w) =>
      match runSteps step s' os with
      | .error e => .error e
      | .ok (s'', ws) => .ok (s'', w :: ws)

/-- Runs a specification, which has a result for every operation. -/
def runSpec (spec : α → ο → α × ω) : α → List ο → α × List ω
  | a, [] => (a, [])
  | a, o :: os =>
    ((runSpec spec (spec a o).1 os).1, (spec a o).2 :: (runSpec spec (spec a o).1 os).2)

/-- Every operation is enabled where it is reached. -/
def Allowed (step : σ → ο → Except ε (σ × ω)) (enabled : σ → ο → Prop) : σ → List ο → Prop
  | _, [] => True
  | s, o :: os => enabled s o ∧ ∀ s' w, step s o = .ok (s', w) → Allowed step enabled s' os

/-- What a step that does not fail leads to can be decided. -/
def decidableForallOk {P : σ → Prop} [∀ s, Decidable (P s)] :
    ∀ r : Except ε (σ × ω), Decidable (∀ s w, r = .ok (s, w) → P s)
  | .error _ => isTrue nofun
  | .ok (s, w) => decidable_of_iff (P s)
    ⟨fun h _ _ heq => by cases heq; exact h, fun h => h s w rfl⟩

instance decidableAllowed {step : σ → ο → Except ε (σ × ω)} {enabled : σ → ο → Prop}
    [∀ s o, Decidable (enabled s o)] : ∀ os s, Decidable (Allowed step enabled s os)
  | [], _ => isTrue True.intro
  | o :: os, s =>
    have : ∀ s, Decidable (Allowed step enabled s os) := decidableAllowed os
    have := decidableForallOk (P := fun s => Allowed step enabled s os) (step s o)
    inferInstanceAs (Decidable (enabled s o ∧ _))

/-- What every step keeps, a run keeps: it ends, with the results of the specification. -/
theorem runSteps_refines {step : σ → ο → Except ε (σ × ω)} {spec : α → ο → α × ω}
    {enabled : σ → ο → Prop} {R : σ → α → Prop}
    (hstep : ∀ s a o, R s a → enabled s o →
      ∃ s', step s o = .ok (s', (spec a o).2) ∧ R s' (spec a o).1)
    {s : σ} {a : α} {os : List ο} (h : R s a) (hallowed : Allowed step enabled s os) :
    ∃ s', runSteps step s os = .ok (s', (runSpec spec a os).2) ∧ R s' (runSpec spec a os).1 := by
  induction os generalizing s a with
  | nil => exact ⟨s, rfl, h⟩
  | cons o os ih =>
    obtain ⟨henabled, hrest⟩ := hallowed
    obtain ⟨s1, hrun, h1⟩ := hstep s a o h henabled
    obtain ⟨s2, hruns, h2⟩ := ih h1 (hrest s1 _ hrun)
    refine ⟨s2, ?_, h2⟩
    simp only [runSteps, hrun, hruns, runSpec]

end NdsDevkit.Framework
