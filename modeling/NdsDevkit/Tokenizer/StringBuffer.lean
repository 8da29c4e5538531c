import NdsDevkit.Text.Utf8

namespace NdsDevkit.Tokenizer

open Text

def stringBufferStaticSize : Nat := 2 * 2 * 4

/-- The buffer in use, with unspecified contents from `size` on. `dynamic` tells whether it has
been allocated (`dynBuffer` is not NULL). -/
structure StringBuffer where
  buffer : Nat → UInt8
  dynamic : Bool
  capacity : Nat
  size : Nat
  capacity_pos : 0 < capacity

namespace StringBuffer

def init (staticBuffer : Nat → UInt8) : StringBuffer :=
  ⟨staticBuffer, false, stringBufferStaticSize, 0, by decide⟩

def flush (self : StringBuffer) : StringBuffer := { self with size := 0 }

/-- `while (newCapacity < requiredCapacity) newCapacity *= 2`, with at most `n` passes. -/
def doubledCapacity : Nat → Nat → Nat → Nat
  | 0, newCapacity, _ => newCapacity
  | n + 1, newCapacity, requiredCapacity =>
    if newCapacity < requiredCapacity then doubledCapacity n (newCapacity * 2) requiredCapacity
    else newCapacity

theorem le_doubledCapacity {n newCapacity : Nat} (requiredCapacity : Nat)
    (hpos : 0 < newCapacity) (hn : requiredCapacity < newCapacity + n) :
    requiredCapacity ≤ doubledCapacity n newCapacity requiredCapacity := by
  induction n generalizing newCapacity with
  | zero =>
    rw [doubledCapacity]
    omega
  | succ n ih =>
    rw [doubledCapacity]
    split
    · exact ih (by omega) (by omega)
    · omega

variable (fresh : Nat → Nat → UInt8)

/-- `fresh n` is what a newly allocated block of `n` bytes holds. `realloc` copies the old block if
there is one. -/
def ensureExtraCapacity (self : StringBuffer) (extraBytes : Nat) : StringBuffer :=
  let requiredCapacity := self.size + extraBytes
  if hgrow : requiredCapacity > self.capacity then
    let newCapacity := doubledCapacity (requiredCapacity + 1) self.capacity requiredCapacity
    { buffer := fun i =>
        if self.dynamic ∧ i < self.capacity then self.buffer i else fresh newCapacity i
      dynamic := true
      capacity := newCapacity
      size := self.size
      capacity_pos := Nat.lt_of_lt_of_le (Nat.lt_of_le_of_lt (Nat.zero_le _) hgrow)
        (le_doubledCapacity requiredCapacity self.capacity_pos (by omega)) }
  else self

def pushBackUnichar (self : StringBuffer) (c : Unichar) : Bool × StringBuffer :=
  let self := self.ensureExtraCapacity fresh 4
  let (success, written) := writeUnicharAsUtf8 c (self.capacity - self.size)
  let buffer := fun i =>
    if self.size ≤ i ∧ i < self.size + written.length then written.getD (i - self.size) 0
    else self.buffer i
  if success then (true, { self with buffer, size := self.size + written.length })
  else (false, { self with buffer })

/-- The pointer and the length, as the bytes they delimit. -/
def getBuffer (self : StringBuffer) : List UInt8 := (List.range self.size).map self.buffer

def getSize (self : StringBuffer) : Nat := self.size

def popFront (self : StringBuffer) (count : Nat) : StringBuffer :=
  let count := if count > self.size then self.size else count
  let size := self.size - count
  { self with
    buffer := fun i => if i < size then self.buffer (i + count) else self.buffer i
    size }

@[simp] theorem length_getBuffer (self : StringBuffer) : self.getBuffer.length = self.size := by
  simp [getBuffer]

@[simp] theorem flush_size (self : StringBuffer) : self.flush.size = 0 := rfl

@[simp] theorem popFront_size (self : StringBuffer) (count : Nat) :
    (self.popFront count).size = self.size - count := by
  simp only [popFront]
  split <;> omega

theorem ensureExtraCapacity_spec (fresh : Nat → Nat → UInt8) (self : StringBuffer)
    (extraBytes : Nat) :
    (self.ensureExtraCapacity fresh extraBytes).size = self.size ∧
      self.size + extraBytes ≤ (self.ensureExtraCapacity fresh extraBytes).capacity := by
  rw [ensureExtraCapacity]
  simp only
  split
  · exact ⟨rfl, le_doubledCapacity _ self.capacity_pos (by omega)⟩
  · exact ⟨rfl, by omega⟩

end StringBuffer

end NdsDevkit.Tokenizer
