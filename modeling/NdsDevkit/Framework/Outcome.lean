import NdsDevkit.Framework.Loop

namespace NdsDevkit.Framework

/-- Why a C function leaves before its normal return: one of four kinds of undefined
behaviour, its own error exit, or a loop cut off by the fuel it was given. -/
inductive Stop where
  | outOfBounds
  | uninitialized
  | overlap
  | negativeLength
  | failure
  | outOfFuel
  deriving DecidableEq, Repr

universe u v

variable {ε : Type u} {α β σ : Type v}

/-- The computation ends normally in `Q`, or stops early in `E`. -/
def Ends (x : Except ε α) (Q : α → Prop) (E : ε → Prop) : Prop :=
  match x with
  | .ok a => Q a
  | .error e => E e

@[simp] theorem ends_ok {a : α} {Q : α → Prop} {E : ε → Prop} :
    Ends (.ok a : Except ε α) Q E ↔ Q a := Iff.rfl

@[simp] theorem ends_error {e : ε} {Q : α → Prop} {E : ε → Prop} :
    Ends (.error e : Except ε α) Q E ↔ E e := Iff.rfl

@[simp] theorem ends_pure {a : α} {Q : α → Prop} {E : ε → Prop} :
    Ends (pure a : Except ε α) Q E ↔ Q a := Iff.rfl

@[simp] theorem ends_throw {e : ε} {Q : α → Prop} {E : ε → Prop} :
    Ends (throw e : Except ε α) Q E ↔ E e := Iff.rfl

theorem Ends.bind {x : Except ε α} {f : α → Except ε β} {P : α → Prop} {Q : β → Prop}
    {E : ε → Prop} (hx : Ends x P E) (hf : ∀ a, P a → Ends (f a) Q E) :
    Ends (x >>= f) Q E := by
  cases x with
  | ok a => exact hf a hx
  | error e => exact hx

theorem Ends.mono {x : Except ε α} {P Q : α → Prop} {E F : ε → Prop} (h : Ends x P E)
    (hQ : ∀ a, P a → Q a) (hE : ∀ e, E e → F e) : Ends x Q F := by
  cases x with
  | ok a => exact hQ a h
  | error e => exact hE e h

/-- A computation that ends normally has its result. -/
theorem Ends.self (x : Except ε α) : Ends x (fun a => x = .ok a) fun _ => True := by
  cases x with
  | ok a => exact rfl
  | error e => exact True.intro

theorem Ends.ok_of_not {x : Except ε α} {Q : α → Prop} {E : ε → Prop} (h : Ends x Q E)
    (hE : ∀ e, ¬ E e) : ∃ a, x = .ok a ∧ Q a := by
  cases x with
  | ok a => exact ⟨a, rfl, h⟩
  | error e => exact absurd h (hE e)

/-- What every step keeps, a fold keeps. -/
theorem Ends.foldlM {f : β → α → Except ε β} {I : β → Prop} {E : ε → Prop}
    (hf : ∀ b a, I b → Ends (f b a) I E) (xs : List α) (b : β) (hb : I b) :
    Ends (xs.foldlM f b) I E := by
  induction xs generalizing b with
  | nil => exact hb
  | cons x xs ih =>
    rw [List.foldlM_cons]
    exact (hf b x hb).bind ih

/-- `while (cond) step`, where a step may stop early. -/
def whileBody (cond : σ → Bool) (step : σ → Except ε σ) (s : σ) : Pass σ (Except ε σ) :=
  if cond s then
    match step s with
    | .ok s' => .again s'
    | .error e => .exit (.error e)
  else .exit (.ok s)

def whileDo (cond : σ → Bool) (step : σ → Except ε σ) (exhausted : ε) (fuel : Nat) (s : σ) :
    Except ε σ :=
  (loop (whileBody cond step) fuel s).getD (.error exhausted)

/-- The states in which a while loop is about to check its condition. -/
inductive Enters (cond : σ → Bool) (step : σ → Except ε σ) (s : σ) : σ → Prop where
  | start : Enters cond step s s
  | pass {t u : σ} (h : Enters cond step s t) (hc : cond t = true) (ht : step t = .ok u) :
      Enters cond step s u

/-- What every pass keeps holds in all of them. -/
theorem Enters.keeps {cond : σ → Bool} {step : σ → Except ε σ} {I : σ → Prop} {s t : σ}
    (h : Enters cond step s t) (hs : I s)
    (hstep : ∀ t u, I t → cond t = true → step t = .ok u → I u) : I t := by
  induction h with
  | start => exact hs
  | pass _ hc ht ih => exact hstep _ _ ih hc ht

/-- Total correctness of a while loop: the step keeps the invariant and lowers the variant. -/
theorem Ends.whileDo (cond : σ → Bool) (step : σ → Except ε σ) (exhausted : ε)
    (I : σ → Prop) (μ : σ → Nat) (E : ε → Prop)
    (hstep : ∀ s, I s → cond s = true → Ends (step s) (fun s' => I s' ∧ μ s' < μ s) E)
    (fuel : Nat) (s : σ) (hs : I s) (hf : μ s < fuel) :
    Ends (whileDo cond step exhausted fuel s) (fun s' => I s' ∧ cond s' = false) E := by
  have hbody : ∀ s, I s → (∃ s', whileBody cond step s = .again s' ∧ I s' ∧ μ s' < μ s) ∨
      ∃ r, whileBody cond step s = .exit r ∧
        Ends r (fun s' => I s' ∧ cond s' = false) E := by
    intro s hs
    rw [whileBody]
    by_cases hc : cond s = true
    · have h := hstep s hs hc
      rw [if_pos hc]
      cases hr : step s with
      | ok s' =>
        rw [hr] at h
        exact .inl ⟨s', rfl, h⟩
      | error e =>
        rw [hr] at h
        exact .inr ⟨_, rfl, h⟩
    · rw [if_neg hc]
      exact .inr ⟨_, rfl, hs, by simpa using hc⟩
  obtain ⟨r, hr, hq⟩ := loop_total I μ _ hbody fuel s hs hf
  simpa [Framework.whileDo, hr] using hq

end NdsDevkit.Framework
