import Mathlib.Tactic.Common
import Mathlib.Algebra.Order.Ring.Nat

namespace NdsDevkit.Framework

/-- One pass through a loop body: run again from a new state, or leave with a result. -/
inductive Pass (σ ρ : Type*) where
  | again (s : σ)
  | exit (r : ρ)

variable {σ ρ τ : Type*}

/-- At most `fuel` passes; `none` while the loop is still running. -/
def loop (body : σ → Pass σ ρ) : Nat → σ → Option ρ
  | 0, _ => none
  | fuel + 1, s =>
    match body s with
    | .again s' => loop body fuel s'
    | .exit r => some r

/-- The loop leaves with `r` after finitely many passes. -/
def Returns (body : σ → Pass σ ρ) (s : σ) (r : ρ) : Prop :=
  ∃ fuel, loop body fuel s = some r

/-- No number of passes is enough. -/
def Diverges (body : σ → Pass σ ρ) (s : σ) : Prop :=
  ∀ fuel, loop body fuel s = none

@[simp] theorem loop_zero (body : σ → Pass σ ρ) (s : σ) : loop body 0 s = none := rfl

theorem loop_again {body : σ → Pass σ ρ} {s s' : σ} (h : body s = .again s') (fuel : Nat) :
    loop body (fuel + 1) s = loop body fuel s' := by
  simp [loop, h]

theorem loop_exit {body : σ → Pass σ ρ} {s : σ} {r : ρ} (h : body s = .exit r) (fuel : Nat) :
    loop body (fuel + 1) s = some r := by
  simp [loop, h]

theorem loop_mono {body : σ → Pass σ ρ} {n m : Nat} {s : σ} {r : ρ}
    (h : loop body n s = some r) (hle : n ≤ m) : loop body m s = some r := by
  induction n generalizing m s with
  | zero => simp at h
  | succ n ih =>
    obtain ⟨k, rfl⟩ : ∃ k, m = k + 1 := ⟨m - 1, by omega⟩
    cases hb : body s with
    | again s' =>
      rw [loop_again hb] at h ⊢
      exact ih h (by omega)
    | exit r' =>
      rw [loop_exit hb] at h ⊢
      exact h

theorem Returns.unique {body : σ → Pass σ ρ} {s : σ} {r r' : ρ}
    (h : Returns body s r) (h' : Returns body s r') : r = r' := by
  obtain ⟨n, hn⟩ := h
  obtain ⟨m, hm⟩ := h'
  have hn' := loop_mono hn (Nat.le_max_left n m)
  have hm' := loop_mono hm (Nat.le_max_right n m)
  exact Option.some.inj (hn'.symm.trans hm')

theorem Returns.not_diverges {body : σ → Pass σ ρ} {s : σ} {r : ρ}
    (h : Returns body s r) : ¬ Diverges body s := by
  intro hd
  obtain ⟨n, hn⟩ := h
  rw [hd n] at hn
  cases hn

theorem Returns.of_exit {body : σ → Pass σ ρ} {s : σ} {r : ρ} (h : body s = .exit r) :
    Returns body s r :=
  ⟨1, loop_exit h 0⟩

theorem Returns.of_again {body : σ → Pass σ ρ} {s s' : σ} {r : ρ} (h : body s = .again s')
    (hr : Returns body s' r) : Returns body s r := by
  obtain ⟨n, hn⟩ := hr
  exact ⟨n + 1, (loop_again h n).trans hn⟩

theorem Diverges.of_again {body : σ → Pass σ ρ} {s s' : σ} (h : body s = .again s')
    (hd : Diverges body s') : Diverges body s := by
  intro fuel
  cases fuel with
  | zero => rfl
  | succ n => exact (loop_again h n).trans (hd n)

theorem loop_body_eq {body : σ → Pass σ ρ} {s s' : σ} (h : body s = body s') (fuel : Nat) :
    loop body fuel s = loop body fuel s' := by
  cases fuel with
  | zero => rfl
  | succ n => simp only [loop, h]

theorem Returns.of_body_eq {body : σ → Pass σ ρ} {s s' : σ} {r : ρ} (h : body s = body s')
    (hr : Returns body s' r) : Returns body s r := by
  obtain ⟨n, hn⟩ := hr
  exact ⟨n, (loop_body_eq h n).trans hn⟩

theorem Diverges.of_body_eq {body : σ → Pass σ ρ} {s s' : σ} (h : body s = body s')
    (hd : Diverges body s') : Diverges body s :=
  fun fuel => (loop_body_eq h fuel).trans (hd fuel)

/-- Variant rule: an invariant that every pass keeps while a measure falls. -/
theorem loop_total {body : σ → Pass σ ρ} (I : σ → Prop) (μ : σ → Nat) (Q : ρ → Prop)
    (hstep : ∀ s, I s → (∃ s', body s = .again s' ∧ I s' ∧ μ s' < μ s) ∨
      ∃ r, body s = .exit r ∧ Q r)
    (fuel : Nat) (s : σ) (hs : I s) (hf : μ s < fuel) :
    ∃ r, loop body fuel s = some r ∧ Q r := by
  induction fuel generalizing s with
  | zero => omega
  | succ n ih =>
    rcases hstep s hs with ⟨s', hb, hi, hm⟩ | ⟨r, hb, hq⟩
    · rw [loop_again hb]
      exact ih s' hi (by omega)
    · exact ⟨r, loop_exit hb n, hq⟩

/-- Divergence rule: a set of states the body never leaves. -/
theorem diverges_of_closed {body : σ → Pass σ ρ} (D : σ → Prop)
    (hstep : ∀ s, D s → ∃ s', body s = .again s' ∧ D s') {s : σ} (hs : D s) :
    Diverges body s := by
  intro fuel
  induction fuel generalizing s with
  | zero => rfl
  | succ n ih =>
    obtain ⟨s', hb, hd⟩ := hstep s hs
    rw [loop_again hb]
    exact ih hd

/-- Simulation rule: related states whose passes stay related leave with related results. -/
theorem loop_sim {body : σ → Pass σ ρ} {τ' ρ' : Type*} {body' : τ' → Pass τ' ρ'}
    (R : σ → τ' → Prop) (S : ρ → ρ' → Prop)
    (hstep : ∀ s t, R s t →
      (∃ s' t', body s = .again s' ∧ body' t = .again t' ∧ R s' t') ∨
      ∃ r q, body s = .exit r ∧ body' t = .exit q ∧ S r q)
    (fuel : Nat) {s : σ} {t : τ'} (h : R s t) :
    (loop body fuel s = none ∧ loop body' fuel t = none) ∨
      ∃ r q, loop body fuel s = some r ∧ loop body' fuel t = some q ∧ S r q := by
  induction fuel generalizing s t with
  | zero => exact .inl ⟨rfl, rfl⟩
  | succ n ih =>
    rcases hstep s t h with ⟨s', t', hs, ht, hr⟩ | ⟨r, q, hs, ht, hq⟩
    · rw [loop_again hs, loop_again ht]
      exact ih hr
    · exact .inr ⟨r, q, loop_exit hs n, loop_exit ht n, hq⟩

/-- Two bodies that differ in what they leave with alone. -/
theorem Returns.map {ρ' : Type*} {body : σ → Pass σ ρ} {body' : σ → Pass σ ρ'} (f : ρ → ρ')
    (hstep : ∀ s, (∃ s', body s = .again s' ∧ body' s = .again s') ∨
      ∃ r, body s = .exit r ∧ body' s = .exit (f r)) {s : σ} {r : ρ} (h : Returns body s r) :
    Returns body' s (f r) := by
  obtain ⟨fuel, hl⟩ := h
  have hsim := loop_sim (fun s t => s = t) (fun r q => q = f r) (fun s t hst => by
    subst hst
    rcases hstep s with ⟨s', h1, h2⟩ | ⟨r, h1, h2⟩
    · exact .inl ⟨s', s', h1, h2, rfl⟩
    · exact .inr ⟨r, f r, h1, h2, rfl⟩) fuel (rfl : s = s)
  rcases hsim with ⟨hnone, _⟩ | ⟨r', q, hr, hq, rfl⟩
  · rw [hl] at hnone
    cases hnone
  · rw [hl] at hr
    cases hr
    exact ⟨fuel, hq⟩

end NdsDevkit.Framework
