import NdsDevkit.Framework.Outcome

namespace NdsDevkit.Framework

/-- A block of `size` cells; a cell that was never written holds `none`. -/
structure Buf (α : Type*) where
  size : Nat
  cells : Nat → Option α

namespace Buf

variable {α : Type*}

def ofList (xs : List α) : Buf α := ⟨xs.length, fun i => xs[i]?⟩

/-- Freshly allocated memory of unspecified contents. -/
def fresh (n : Nat) : Buf α := ⟨n, fun _ => none⟩

/-- Overwrites the cells from `i` on with `xs`. -/
def put (b : Buf α) (i : Nat) (xs : List α) : Buf α :=
  { b with cells := fun j => if i ≤ j ∧ j < i + xs.length then xs[j - i]? else b.cells j }

def read (b : Buf α) (i : Nat) : Except Stop α :=
  if i < b.size then
    match b.cells i with
    | some x => .ok x
    | none => .error .uninitialized
  else .error .outOfBounds

def write (b : Buf α) (i : Nat) (x : α) : Except Stop (Buf α) :=
  if i < b.size then .ok (b.put i [x]) else .error .outOfBounds

/-- The `n` cells from `i` on, when all of them are written. -/
def slice (b : Buf α) : Nat → Nat → Option (List α)
  | _, 0 => some []
  | i, n + 1 => do
    let x ← b.cells i
    let xs ← b.slice (i + 1) n
    some (x :: xs)

/-- The source side of a memcpy. -/
def readMany (b : Buf α) (i n : Nat) : Except Stop (List α) :=
  if i + n ≤ b.size then
    match b.slice i n with
    | some xs => .ok xs
    | none => .error .uninitialized
  else .error .outOfBounds

/-- The target side of a memcpy or memset. -/
def writeMany (b : Buf α) (i : Nat) (xs : List α) : Except Stop (Buf α) :=
  if i + xs.length ≤ b.size then .ok (b.put i xs) else .error .outOfBounds

/-- The cells from `i` on are written and hold `xs`. -/
def Holds (b : Buf α) (i : Nat) (xs : List α) : Prop :=
  ∀ k, k < xs.length → b.cells (i + k) = xs[k]?

@[simp] theorem size_ofList (xs : List α) : (ofList xs).size = xs.length := rfl
@[simp] theorem cells_ofList (xs : List α) (i : Nat) : (ofList xs).cells i = xs[i]? := rfl
@[simp] theorem size_fresh (n : Nat) : (fresh n : Buf α).size = n := rfl
@[simp] theorem size_put (b : Buf α) (i : Nat) (xs : List α) : (b.put i xs).size = b.size := rfl

theorem cells_put_of_mem (b : Buf α) {i j : Nat} {xs : List α} (h1 : i ≤ j)
    (h2 : j < i + xs.length) : (b.put i xs).cells j = xs[j - i]? := by
  simp [put, h1, h2]

theorem cells_put_of_not_mem (b : Buf α) {i j : Nat} {xs : List α}
    (h : j < i ∨ i + xs.length ≤ j) : (b.put i xs).cells j = b.cells j := by
  have hn : ¬(i ≤ j ∧ j < i + xs.length) := by omega
  simp [put, hn]

/-- Two writes one behind the other are one. -/
theorem put_put (b : Buf α) {i j : Nat} (xs ys : List α) (hj : j = i + xs.length) :
    (b.put i xs).put j ys = b.put i (xs ++ ys) := by
  have hcells : ((b.put i xs).put j ys).cells = (b.put i (xs ++ ys)).cells := by
    subst hj
    funext k
    by_cases hi : k < i
    · rw [cells_put_of_not_mem _ (by omega), cells_put_of_not_mem _ (by omega),
        cells_put_of_not_mem _ (by omega)]
    by_cases hx : k < i + xs.length
    · rw [cells_put_of_not_mem _ (by omega), cells_put_of_mem _ (by omega) hx,
        cells_put_of_mem _ (by omega) (by rw [List.length_append]; omega),
        List.getElem?_append_left (by omega)]
    by_cases hy : k < i + xs.length + ys.length
    · rw [cells_put_of_mem _ (by omega) hy,
        cells_put_of_mem _ (by omega) (by rw [List.length_append]; omega),
        List.getElem?_append_right (by omega), Nat.sub_sub]
    · rw [cells_put_of_not_mem _ (by omega), cells_put_of_not_mem _ (by omega),
        cells_put_of_not_mem _ (by rw [List.length_append]; omega)]
  exact congrArg (Buf.mk b.size) hcells

@[simp] theorem holds_nil (b : Buf α) (i : Nat) : b.Holds i [] := by
  intro k hk
  simp at hk

theorem holds_ofList (xs : List α) : (ofList xs).Holds 0 xs := by
  intro k _
  simp

theorem Holds.put_same (b : Buf α) (i : Nat) (xs : List α) : (b.put i xs).Holds i xs := by
  intro k hk
  rw [cells_put_of_mem b (by omega) (by omega)]
  congr 1
  omega

theorem Holds.put_apart {b : Buf α} {i j : Nat} {xs ys : List α} (h : b.Holds j ys)
    (hd : j + ys.length ≤ i ∨ i + xs.length ≤ j) : (b.put i xs).Holds j ys := by
  intro k hk
  rw [cells_put_of_not_mem b (by omega)]
  exact h k hk

theorem holds_append {b : Buf α} {i : Nat} {xs ys : List α} :
    b.Holds i (xs ++ ys) ↔ b.Holds i xs ∧ b.Holds (i + xs.length) ys := by
  constructor
  · intro h
    constructor
    · intro k hk
      have hk' := h k (by simp; omega)
      rwa [List.getElem?_append_left hk] at hk'
    · intro k hk
      have hk' := h (xs.length + k) (by simp; omega)
      rw [List.getElem?_append_right (by omega), Nat.add_sub_cancel_left] at hk'
      rwa [Nat.add_assoc]
  · intro hboth k hk
    obtain ⟨hx, hy⟩ := hboth
    rw [List.length_append] at hk
    by_cases hlt : k < xs.length
    · rw [List.getElem?_append_left hlt]
      exact hx k hlt
    · rw [List.getElem?_append_right (by omega)]
      have hk' := hy (k - xs.length) (by omega)
      rwa [show i + xs.length + (k - xs.length) = i + k by omega] at hk'

/-- Writing directly behind what is held extends it. -/
theorem Holds.put_append {b : Buf α} {i : Nat} {xs ys : List α} (h : b.Holds i xs) :
    (b.put (i + xs.length) ys).Holds i (xs ++ ys) :=
  holds_append.mpr ⟨h.put_apart (.inl (by omega)), Holds.put_same b _ ys⟩

theorem Holds.put_at {b : Buf α} {i j : Nat} {xs : List α} (h : b.Holds i xs) (ys : List α)
    (hj : j = i + xs.length) : (b.put j ys).Holds i (xs ++ ys) := by
  subst hj
  exact h.put_append

theorem Holds.sub {b : Buf α} {i : Nat} {xs : List α} (h : b.Holds i xs) (p n : Nat) :
    b.Holds (i + p) ((xs.drop p).take n) := by
  intro k hk
  simp only [List.length_take, List.length_drop] at hk
  rw [List.getElem?_take_of_lt (by omega), List.getElem?_drop, Nat.add_assoc]
  exact h (p + k) (by omega)

theorem Holds.read {b : Buf α} {i j : Nat} {xs : List α} (h : b.Holds i xs)
    (hs : i + j < b.size) (hj : j < xs.length) : b.read (i + j) = .ok xs[j] := by
  have hc := h j hj
  rw [List.getElem?_eq_getElem hj] at hc
  simp [Buf.read, hs, hc]

theorem read_ofList {xs : List α} {i : Nat} (h : i < xs.length) :
    (ofList xs).read i = .ok xs[i] := by
  simp [read, h]

theorem write_eq {b : Buf α} {i : Nat} (x : α) (h : i < b.size) :
    b.write i x = .ok (b.put i [x]) := by
  simp [write, h]

theorem writeMany_eq {b : Buf α} {i : Nat} {xs : List α} (h : i + xs.length ≤ b.size) :
    b.writeMany i xs = .ok (b.put i xs) := by
  simp [writeMany, h]

theorem Holds.slice {b : Buf α} {i : Nat} {xs : List α} (h : b.Holds i xs) :
    b.slice i xs.length = some xs := by
  induction xs generalizing i with
  | nil => rfl
  | cons x xs ih =>
    have hx := h 0 (by simp)
    have ht : b.Holds (i + 1) xs := by
      have hc : b.Holds i ([x] ++ xs) := h
      exact (holds_append.mp hc).2
    simp only [Nat.add_zero, List.getElem?_cons_zero] at hx
    simp [Buf.slice, hx, ih ht]

theorem length_of_slice {b : Buf α} {i n : Nat} {xs : List α} (h : b.slice i n = some xs) :
    xs.length = n := by
  induction n generalizing i xs with
  | zero =>
    cases h
    rfl
  | succ n ih =>
    obtain ⟨x, _, ys, hys, hxs⟩ : ∃ x, b.cells i = some x ∧ ∃ ys, b.slice (i + 1) n = some ys ∧
        xs = x :: ys := by
      simp only [slice, Option.bind_eq_bind, Option.bind_eq_some_iff, Option.some.injEq] at h
      obtain ⟨x, hx, ys, hys, rfl⟩ := h
      exact ⟨x, hx, ys, hys, rfl⟩
    rw [hxs, List.length_cons, ih hys]

theorem Holds.readMany {b : Buf α} {i : Nat} {xs : List α} (h : b.Holds i xs)
    (hs : i + xs.length ≤ b.size) : b.readMany i xs.length = .ok xs := by
  simp [Buf.readMany, hs, h.slice]

/-- A memcpy out of a fully written buffer reads exactly the requested stretch. -/
theorem Holds.readMany_sub {b : Buf α} {xs : List α} (h : b.Holds 0 xs) {i n : Nat}
    (hn : i + n ≤ xs.length) (hs : xs.length ≤ b.size) :
    b.readMany i n = .ok ((xs.drop i).take n) := by
  have hl : ((xs.drop i).take n).length = n := by simp; omega
  have hr := Holds.readMany (i := i) (by simpa using h.sub i n) (by rw [hl]; omega)
  rwa [hl] at hr

end Buf

end NdsDevkit.Framework
