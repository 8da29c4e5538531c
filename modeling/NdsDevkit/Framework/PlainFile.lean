import NdsDevkit.Framework.Cells

namespace NdsDevkit.Framework

/-- A file of bytes. What lies behind its end is zero. -/
@[ext] structure PlainFile where
  bytes : Cells UInt8
  size : Nat
  beyond : ∀ i, size ≤ i → bytes i = 0

namespace PlainFile

def empty : PlainFile := ⟨fun _ => 0, 0, fun _ _ => rfl⟩

def read (f : PlainFile) (o n : Nat) : List UInt8 := f.bytes.get o n

def write (f : PlainFile) (o : Nat) (bs : List UInt8) : PlainFile where
  bytes := f.bytes.put o bs
  size := max f.size (o + bs.length)
  beyond := by
    intro i hi
    rw [Cells.put_of_not_mem _ (by omega)]
    exact f.beyond i (by omega)

/-- Cuts off what lies behind the first `n` bytes. -/
def truncate (f : PlainFile) (n : Nat) : PlainFile where
  bytes := fun i => if i < n then f.bytes i else 0
  size := n
  beyond := by
    intro i hi
    rw [if_neg (by omega)]

/-- Makes the file at least `n` bytes long. -/
def extend (f : PlainFile) (n : Nat) : PlainFile where
  bytes := f.bytes
  size := max f.size n
  beyond := fun i hi => f.beyond i (by omega)

/-- The same bytes, with zeros behind them at most. -/
structure Extends (f g : PlainFile) : Prop where
  bytes : g.bytes = f.bytes
  size : f.size ≤ g.size

theorem Extends.refl (f : PlainFile) : f.Extends f := ⟨rfl, Nat.le_refl _⟩

theorem read_beyond (f : PlainFile) {o : Nat} (h : f.size ≤ o) (n : Nat) :
    f.read o n = List.replicate n 0 := by
  rw [List.eq_replicate_iff]
  refine ⟨Cells.length_get _ _ _, ?_⟩
  intro x hx
  simp only [read, Cells.get, List.mem_map] at hx
  obtain ⟨k, _, rfl⟩ := hx
  exact f.beyond _ (by omega)

end PlainFile

end NdsDevkit.Framework
