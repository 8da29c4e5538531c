import Mathlib.Tactic.Common
import Mathlib.Algebra.Order.Ring.Nat
import Mathlib.Algebra.BigOperators.Group.List.Basic

namespace NdsDevkit.Framework

/-- What one item of a dictionary-free back-reference format does to the output so far. -/
inductive Edit (α : Type*) where
  /-- Append these elements. -/
  | emit (xs : List α)
  /-- Repeat the last element `n` times. -/
  | fill (n : Nat)
  /-- Append `len` elements taken from where the output stood `gap + len` elements ago. -/
  | copy (gap len : Nat)

namespace Edit

variable {α : Type*}

/-- The elements an edit adds. -/
def produced : Edit α → Nat
  | emit xs => xs.length
  | fill n => n
  | copy _ len => len

/-- The output after the edit; `none` when it refers to something before the output. -/
def apply : Edit α → List α → Option (List α)
  | emit xs, out => some (out ++ xs)
  | fill n, out => out.getLast?.map fun x => out ++ List.replicate n x
  | copy gap len, out =>
    if gap + len ≤ out.length then
      some (out ++ (out.drop (out.length - (gap + len))).take len)
    else none

def applyAll : List (Edit α) → List α → Option (List α)
  | [], out => some out
  | e :: es, out => (e.apply out).bind (applyAll es)

@[simp] theorem applyAll_nil (out : List α) : applyAll [] out = some out := rfl

theorem applyAll_append (es es' : List (Edit α)) (out : List α) :
    applyAll (es ++ es') out = (applyAll es out).bind (applyAll es') := by
  induction es generalizing out with
  | nil => simp
  | cons e es ih =>
    simp only [List.cons_append, applyAll, Option.bind_assoc]
    congr 1
    funext out'
    exact ih out'

theorem applyAll_concat {es : List (Edit α)} {e : Edit α} {a b c : List α}
    (h : applyAll es a = some b) (he : e.apply b = some c) :
    applyAll (es ++ [e]) a = some c := by
  simp [applyAll_append, h, applyAll, he]

theorem length_apply {e : Edit α} {out out' : List α} (h : e.apply out = some out') :
    out'.length = out.length + e.produced := by
  cases e with
  | emit xs =>
    cases h
    simp [produced]
  | fill n =>
    obtain ⟨x, _, rfl⟩ := Option.map_eq_some_iff.mp h
    simp [produced]
  | copy gap len =>
    simp only [apply] at h
    split at h
    · cases h
      simp [produced]
      omega
    · cases h

theorem length_applyAll {es : List (Edit α)} {out out' : List α}
    (h : applyAll es out = some out') :
    out'.length = out.length + (es.map produced).sum := by
  induction es generalizing out with
  | nil =>
    cases h
    simp
  | cons e es ih =>
    obtain ⟨mid, hm, ht⟩ := Option.bind_eq_some_iff.mp h
    have h1 := length_apply hm
    have h2 := ih ht
    simp only [List.map_cons, List.sum_cons]
    omega

private theorem take_add_drop (xs : List α) (p n : Nat) :
    xs.take p ++ (xs.drop p).take n = xs.take (p + n) :=
  List.take_add.symm

/-- Emitting the next elements extends a prefix of the input. -/
theorem emit_take (xs : List α) (p n : Nat) :
    (emit ((xs.drop p).take n)).apply (xs.take p) = some (xs.take (p + n)) := by
  simp [apply, List.take_add]

/-- A scanned run extends a prefix of the input. -/
theorem fill_take {xs : List α} {p n : Nat} {x : α} (hp : 0 < p) (hn : p + n ≤ xs.length)
    (hx : xs[p - 1]? = some x) (hrun : ∀ k, k < n → xs[p + k]? = some x) :
    (fill n).apply (xs.take p) = some (xs.take (p + n)) := by
  have hlast : (xs.take p).getLast? = some x := by
    rw [List.getLast?_eq_getElem?, List.length_take, Nat.min_eq_left (by omega),
      List.getElem?_take_of_lt (by omega), hx]
  have hrep : (xs.drop p).take n = List.replicate n x := by
    apply List.ext_getElem?
    intro k
    by_cases hk : k < n
    · rw [List.getElem?_take_of_lt hk, List.getElem?_drop, hrun k hk, List.getElem?_replicate]
      simp [hk]
    · rw [List.getElem?_eq_none (by simp; omega), List.getElem?_eq_none (by simp; omega)]
  simp only [apply, hlast, Option.map_some, ← hrep, take_add_drop]

/-- A compared back reference extends a prefix of the input. -/
theorem copy_take {xs : List α} {p gap len : Nat} (hb : gap + len ≤ p) (hn : p + len ≤ xs.length)
    (hcmp : ∀ k, k < len → xs[p + k]? = xs[p - (gap + len) + k]?) :
    (copy gap len).apply (xs.take p) = some (xs.take (p + len)) := by
  have hl : (xs.take p).length = p := by
    rw [List.length_take]
    omega
  have hsrc : ((xs.take p).drop (p - (gap + len))).take len = (xs.drop p).take len := by
    apply List.ext_getElem?
    intro k
    by_cases hk : k < len
    · rw [List.getElem?_take_of_lt hk, List.getElem?_take_of_lt hk, List.getElem?_drop,
        List.getElem?_drop, List.getElem?_take_of_lt (by omega), hcmp k hk]
    · rw [List.getElem?_eq_none (by simp; omega), List.getElem?_eq_none (by simp; omega)]
  simp only [apply, hl, hb, if_true, hsrc, take_add_drop]

end Edit

end NdsDevkit.Framework
