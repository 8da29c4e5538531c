import Mathlib.Data.List.DropRight
import Mathlib.Data.List.SplitBy
import Mathlib.Data.List.TakeWhile
import Mathlib.Tactic.Common

namespace NdsDevkit.Framework

variable {α β κ : Type*} {key : α → κ} {k : κ} {x y : α} {run rest l : List α}

theorem drop_length_takeWhile (p : α → Bool) (l : List α) :
    l.drop (l.takeWhile p).length = l.dropWhile p := by
  calc l.drop (l.takeWhile p).length
      = (l.takeWhile p ++ l.dropWhile p).drop (l.takeWhile p).length := by
        rw [List.takeWhile_append_dropWhile]
    _ = l.dropWhile p := List.drop_left

/-- Parts of equal lengths can be told apart in a concatenation. -/
theorem flatMap_eq_flatMap_iff {f g : α → List β} (h : ∀ x ∈ l, (f x).length = (g x).length) :
    l.flatMap f = l.flatMap g ↔ ∀ x ∈ l, f x = g x := by
  induction l with
  | nil => simp
  | cons x l ih =>
    obtain ⟨hx, hl⟩ := List.forall_mem_cons.mp h
    rw [List.flatMap_cons, List.flatMap_cons, List.append_eq_append_iff_of_size_eq_left hx, ih hl,
      List.forall_mem_cons]

/-- Two lists that agree in two maps: the second map on the elements that the first selects. -/
theorem map_filter_eq {γ δ : Type*} {l : List α} {l' : List β} {f : α → γ} {f' : β → γ} {g : α → δ}
    {g' : β → δ} (hf : l.map f = l'.map f') (hg : l.map g = l'.map g') (p : γ → Bool) :
    (l.filter fun x => p (f x)).map g = (l'.filter fun x => p (f' x)).map g' := by
  induction l generalizing l' with
  | nil =>
    cases l' with
    | nil => rfl
    | cons y l' => cases hf
  | cons x l ih =>
    cases l' with
    | nil => cases hf
    | cons y l' =>
      obtain ⟨hfx, hfl⟩ := List.cons.inj hf
      obtain ⟨hgx, hgl⟩ := List.cons.inj hg
      rw [List.filter_cons, List.filter_cons, hfx]
      split
      · rw [List.map_cons, List.map_cons, hgx, ih hfl hgl]
      · exact ih hfl hgl

/-- A run of elements with one key, up to an element with another key. -/
structure IsRun (key : α → κ) (k : κ) (run rest : List α) : Prop where
  ne_nil : run ≠ []
  same : ∀ x ∈ run, key x = k
  maximal : ∀ x ∈ rest.head?, key x ≠ k

/-- What is left of a run behind its first element. -/
theorem IsRun.tail (h : IsRun key k (x :: y :: run) rest) : IsRun key k (y :: run) rest :=
  ⟨by simp, fun z hz => h.same z (List.mem_cons_of_mem x hz), h.maximal⟩

/-- An element with the key behind the first one belongs to the run. -/
theorem IsRun.head (h : IsRun key k (x :: run) rest) (hy : key y = k)
    (heq : y :: l = run ++ rest) : ∃ run', run = y :: run' ∧ l = run' ++ rest := by
  cases run with
  | nil =>
    refine absurd hy (h.maximal y ?_)
    rw [← List.nil_append rest, ← heq]
    rfl
  | cons z run' =>
    rw [List.cons_append, List.cons.injEq] at heq
    obtain ⟨rfl, hl⟩ := heq
    exact ⟨run', rfl, hl⟩

/-- An element with another key behind the first one ends the run. -/
theorem IsRun.alone (h : IsRun key k (x :: run) rest)
    (hne : ∀ y ∈ (run ++ rest).head?, key y ≠ k) : run = [] := by
  cases run with
  | nil => rfl
  | cons y run => exact absurd (h.same y (by simp)) (hne y (by simp))

/-- A run stays one under a function that keeps the keys. -/
theorem IsRun.map {key' : β → κ} {f : α → β} (h : IsRun key k run rest)
    (hf : ∀ x, key' (f x) = key x) : IsRun key' k (run.map f) (rest.map f) := by
  refine ⟨by simpa using h.ne_nil, ?_, ?_⟩
  · intro z hz
    obtain ⟨x, hx, rfl⟩ := List.mem_map.mp hz
    rw [hf, h.same x hx]
  · intro z hz
    rw [List.head?_map] at hz
    obtain ⟨x, hx, rfl⟩ := Option.map_eq_some_iff.mp hz
    rw [hf]
    exact h.maximal x hx

section

variable [DecidableEq κ]

/-- The maximal runs of elements with one key. -/
def keyRuns (key : α → κ) (l : List α) : List (List α) := l.splitBy fun x y => key x = key y

theorem keyRuns_run (h : IsRun key k run rest) :
    keyRuns key (run ++ rest) = run :: keyRuns key rest := by
  unfold keyRuns
  rw [List.splitBy_append, List.splitBy_of_isChain h.ne_nil, List.singleton_append]
  · refine List.Pairwise.isChain (List.pairwise_of_forall_mem_list ?_)
    intro x hx y hy
    rw [decide_eq_true_eq, h.same x hx, h.same y hy]
  · intro x hx y hy
    rw [decide_eq_false_iff_not, h.same x (List.mem_of_getLast? hx)]
    exact fun he => h.maximal y hy he.symm

/-- Every list starts with a maximal run. -/
theorem exists_run (key : α → κ) (x : α) (l : List α) :
    ∃ run rest, l = run ++ rest ∧ IsRun key (key x) (x :: run) rest := by
  refine ⟨l.takeWhile fun y => key y = key x, l.dropWhile fun y => key y = key x, ?_, ?_, ?_, ?_⟩
  · rw [List.takeWhile_append_dropWhile]
  · exact List.cons_ne_nil _ _
  · intro y hy
    rcases List.mem_cons.mp hy with rfl | hy
    · rfl
    · simpa using List.mem_takeWhile_imp hy
  · intro y hy
    have hnot := List.head?_dropWhile_not (fun y => decide (key y = key x)) l
    rw [hy] at hnot
    simpa using hnot

/-- Induction over the maximal runs. -/
theorem runs_induction (key : α → κ) {P : List α → Prop} (nil : P [])
    (run : ∀ {k run rest}, IsRun key k run rest → P rest → P (run ++ rest)) (l : List α) :
    P l := by
  induction hn : l.length using Nat.strongRecOn generalizing l with
  | ind n ih =>
    cases l with
    | nil => exact nil
    | cons x l =>
      obtain ⟨r, rest, rfl, hrun⟩ := exists_run key x l
      simp only [List.length_cons, List.length_append] at hn
      rw [← List.cons_append]
      exact run hrun (ih rest.length (by omega) rest rfl)

end

/-- The elements up to one that fails do not matter for the trailing ones that hold. -/
theorem rtakeWhile_append_cons {p : α → Bool} (hx : p x = false) (l₁ l₂ : List α) :
    (l₁ ++ x :: l₂).rtakeWhile p = l₂.rtakeWhile p := by
  unfold List.rtakeWhile
  rw [List.reverse_append, List.reverse_cons, List.append_assoc, List.takeWhile_append,
    List.singleton_append, List.takeWhile_cons_of_neg (by simpa using hx), List.append_nil]
  split
  · next hall => rw [(List.takeWhile_sublist _).eq_of_length hall]
  · rfl

end NdsDevkit.Framework
