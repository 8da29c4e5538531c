import NdsDevkit.Framework.Loop

namespace NdsDevkit.Framework

universe u v w

variable {σ : Type u} {τ : Type v} {α : Type w}

/-- Repeated calls of an iterator yield these elements and then nothing. -/
inductive Delivers (next : σ → Option α × σ) : σ → List α → Prop where
  | done {s} (h : (next s).1 = none) : Delivers next s []
  | more {s a as} (h : (next s).1 = some a) (hd : Delivers next (next s).2 as) :
      Delivers next s (a :: as)

variable {next : σ → Option α × σ} {next' : τ → Option α × τ}

theorem Delivers.unique {s : σ} {xs ys : List α} (h : Delivers next s xs)
    (h' : Delivers next s ys) : xs = ys := by
  induction h generalizing ys with
  | done hn =>
    cases h' with
    | done => rfl
    | more hs =>
      rw [hn] at hs
      cases hs
  | more hs _ ih =>
    cases h' with
    | done hn =>
      rw [hs] at hn
      cases hn
    | more hs' hd' =>
      rw [hs] at hs'
      cases hs'
      rw [ih hd']

/-- Successive calls of an iterator yield these elements and lead to the last state. -/
inductive Yields (next : σ → Option α × σ) : σ → List α → σ → Prop where
  | nil (s) : Yields next s [] s
  | cons {s t u a as} (h : next s = (some a, t)) (hy : Yields next t as u) :
      Yields next s (a :: as) u

/-- What the call behind `n` earlier ones returns. -/
def nthCall (next : σ → Option α × σ) : Nat → σ → Option α
  | 0, s => (next s).1
  | n + 1, s => nthCall next n (next s).2

/-- When every call takes an element off the front, the calls return one element each, and nothing
from the end on. -/
theorem nthCall_eq {R : σ → List α → Prop}
    (hstep : ∀ s xs, R s xs → (next s).1 = xs.head? ∧ R (next s).2 xs.tail) {s : σ} {xs : List α}
    (h : R s xs) (n : Nat) : nthCall next n s = xs[n]? := by
  induction n generalizing s xs with
  | zero =>
    rw [nthCall, (hstep s xs h).1, List.head?_eq_getElem?]
  | succ n ih =>
    rw [nthCall, ih (hstep s xs h).2, List.getElem?_tail]

/-- The states an iterator goes through. -/
inductive Visits (next : σ → Option α × σ) : σ → σ → Prop where
  | refl (s) : Visits next s s
  | step {s t a} (h : (next s).1 = some a) (hv : Visits next (next s).2 t) : Visits next s t

theorem Visits.trans {s t u : σ} (h : Visits next s t) (h' : Visits next t u) :
    Visits next s u := by
  induction h with
  | refl s => exact h'
  | step ha _ ih => exact .step ha (ih h')

/-- Two iterators that stay related as long as the second one delivers visit related states. -/
theorem Visits.sim {R : σ → τ → Prop}
    (hstep : ∀ s t, R s t → (next s).1 = (next' t).1 ∧
      ((next' t).1.isSome → R (next s).2 (next' t).2))
    {s : σ} {t t' : τ} (h : R s t) (hv : Visits next' t t') :
    ∃ s', Visits next s s' ∧ R s' t' := by
  induction hv generalizing s with
  | refl t => exact ⟨s, .refl s, h⟩
  | step ha _ ih =>
    obtain ⟨h1, h2⟩ := hstep _ _ h
    obtain ⟨s', hv, hr⟩ := ih (h2 (by rw [ha]; rfl))
    exact ⟨s', .step (h1.trans ha) hv, hr⟩

/-- What the second one delivers, the first one delivers. -/
theorem Delivers.sim {R : σ → τ → Prop}
    (hstep : ∀ s t, R s t → (next s).1 = (next' t).1 ∧
      ((next' t).1.isSome → R (next s).2 (next' t).2))
    {s : σ} {t : τ} {xs : List α} (h : R s t) (hd : Delivers next' t xs) :
    Delivers next s xs := by
  induction hd generalizing s with
  | done hn => exact .done ((hstep _ _ h).1.trans hn)
  | more ha _ ih =>
    obtain ⟨h1, h2⟩ := hstep _ _ h
    exact .more (h1.trans ha) (ih (h2 (by rw [ha]; rfl)))

variable [Ord α]

/-- One pass of a lock-step comparison of two iterators that are read one element ahead. -/
def compareBody (next : σ → Option α × σ) (next' : τ → Option α × τ)
    (s : (Option α × σ) × (Option α × τ)) :
    Pass ((Option α × σ) × (Option α × τ)) Ordering :=
  match s.1.1, s.2.1 with
  | some a, some b =>
    match compare a b with
    | .eq => .again (next s.1.2, next' s.2.2)
    | o => .exit o
  | none, none => .exit .eq
  | none, some _ => .exit .lt
  | some _, none => .exit .gt

/-- The lock-step comparison is the lexicographic comparison of what the iterators deliver. -/
theorem returns_compareBody {s : σ} {t : τ} {xs ys : List α} (hx : Delivers next s xs)
    (hy : Delivers next' t ys) :
    Returns (compareBody next next') (next s, next' t) (compare xs ys) := by
  rw [List.compare_eq_compareLex]
  induction hx generalizing t ys with
  | @done s hn =>
    cases hy with
    | done hn' => exact .of_exit (by simp [compareBody, hn, hn', List.compareLex_nil_nil])
    | more hs' => exact .of_exit (by simp [compareBody, hn, hs', List.compareLex_nil_cons])
  | @more s a as hs hd ih =>
    cases hy with
    | done hn' => exact .of_exit (by simp [compareBody, hs, hn', List.compareLex_cons_nil])
    | @more _ b bs hs' hd' =>
      rw [List.compareLex_cons_cons]
      cases hc : compare a b with
      | eq =>
        have hb : compareBody next next' (next s, next' t) =
            .again (next (next s).2, next' (next' t).2) := by simp [compareBody, hs, hs', hc]
        exact .of_again hb (ih hd')
      | lt => exact .of_exit (by simp [compareBody, hs, hs', hc])
      | gt => exact .of_exit (by simp [compareBody, hs, hs', hc])

end NdsDevkit.Framework
