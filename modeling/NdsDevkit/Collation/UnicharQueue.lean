import NdsDevkit.Framework.RingBuffer
import NdsDevkit.Text.Utf8

namespace NdsDevkit.Collation

open Framework Text

def unicharQueueMaxLength : Nat := 5

/-- A queue of characters in a ring of five slots. `tail` is -1 when it is empty, `peek` is -1
when there is nothing left to peek. -/
structure UnicharQueue where
  buffer : Nat → Unichar
  head : Int
  tail : Int
  peek : Int

def incrementIndex (index increment_count : Int) : Int :=
  let next_index := index + increment_count
  if next_index ≥ unicharQueueMaxLength then 0 else next_index

def nextIndex (index : Int) : Int := incrementIndex index 1

namespace UnicharQueue

/-- The buffer keeps whatever it held. -/
def init (self : UnicharQueue) : UnicharQueue := { self with head := 0, tail := -1, peek := -1 }

def isFull (self : UnicharQueue) : Bool := self.head == self.tail

def push (self : UnicharQueue) (character : Unichar) : Bool × UnicharQueue :=
  if self.head = self.tail then (false, self)
  else
    (true, {
      buffer := setSlot self.buffer self.head.toNat character
      tail := if self.tail < 0 then self.head else self.tail
      peek := if self.peek < 0 then self.head else self.peek
      head := nextIndex self.head })

def pop (self : UnicharQueue) : Option Unichar × UnicharQueue :=
  if self.tail < 0 then (none, self)
  else
    let character := self.buffer self.tail.toNat
    let peek := if self.peek = self.tail then nextIndex self.peek else self.peek
    let tail := nextIndex self.tail
    (some character, { self with
      tail := if tail = self.head then -1 else tail
      peek := if peek = self.head then -1 else peek })

def length (self : UnicharQueue) : Int :=
  if self.tail < 0 then 0
  else if self.tail < self.head then self.head - self.tail
  else unicharQueueMaxLength - (self.tail - self.head)

def consumeChars (self : UnicharQueue) (count : Int) : UnicharQueue :=
  let len := self.length
  let count := if count > len then len else count
  if count > 0 then
    let tail := incrementIndex self.tail count
    { self with tail := if tail = self.head then -1 else tail }
  else self

def peekChar (self : UnicharQueue) : Option Unichar × UnicharQueue :=
  if self.peek < 0 then (none, self)
  else
    let peek := nextIndex self.peek
    (some (self.buffer self.peek.toNat),
      { self with peek := if peek = self.head then -1 else peek })

def resetPeekIndex (self : UnicharQueue) : UnicharQueue := { self with peek := self.tail }

/-- The queue holds `xs` from `slot` on, and `p` of them have been peeked. -/
structure Holds (q : UnicharQueue) (slot : Nat) (xs : List Unichar) (p : Nat) : Prop where
  slot_lt : slot < 5
  length_le : xs.length ≤ 5
  peek_le : p ≤ xs.length
  head : q.head = (slot + xs.length) % 5
  tail : q.tail = if xs.length = 0 then -1 else (slot : Int)
  peek : q.peek = if p = xs.length then -1 else ((slot + p : Nat) : Int) % 5
  slots : InRing 5 q.buffer slot xs

variable {q : UnicharQueue} {slot p : Nat} {xs : List Unichar}

theorem nextIndex_eq {i : Int} {n : Nat} (h : i = (n : Int) % 5) :
    nextIndex i = ((n : Int) + 1) % 5 := by
  subst h
  unfold nextIndex incrementIndex unicharQueueMaxLength
  simp only
  split <;> omega

theorem holds_init (q : UnicharQueue) : q.init.Holds 0 [] 0 :=
  ⟨by decide, by decide, Nat.le_refl _, rfl, rfl, rfl, InRing.nil 5 q.buffer 0⟩

theorem Holds.length_eq (h : q.Holds slot xs p) : q.length = xs.length := by
  have hs := h.slot_lt
  have hl := h.length_le
  rw [length, unicharQueueMaxLength]
  rw [h.head, h.tail]
  split_ifs <;> omega

theorem Holds.isFull_iff (h : q.Holds slot xs p) : q.isFull = true ↔ xs.length = 5 := by
  have hs := h.slot_lt
  have hl := h.length_le
  rw [isFull]
  rw [h.head, h.tail, beq_iff_eq]
  split_ifs <;> omega

/-- A queue that is not full takes another character at its end. -/
theorem Holds.push (h : q.Holds slot xs p) (hl : xs.length < 5) (c : Unichar) :
    ∃ q', q.push c = (true, q') ∧ q'.Holds slot (xs ++ [c]) p := by
  have hs := h.slot_lt
  have hp := h.peek_le
  have hhead := h.head
  have htail := h.tail
  have hpeek := h.peek
  have hne : q.head ≠ q.tail := by
    rw [hhead, htail]
    split_ifs <;> omega
  have hslot : q.head.toNat = (slot + xs.length) % 5 := by omega
  have hnext : nextIndex q.head = (((slot + xs.length : Nat) : Int) + 1) % 5 :=
    nextIndex_eq (by omega)
  rw [UnicharQueue.push]
  rw [if_neg hne]
  refine ⟨_, rfl, hs, by simp; omega, by simp; omega, ?_, ?_, ?_, ?_⟩
  · simp only [List.length_append, List.length_singleton]
    rw [hnext]
    omega
  · simp only [List.length_append, List.length_singleton]
    rw [if_neg (Nat.succ_ne_zero _)]
    rcases Nat.eq_zero_or_pos xs.length with hz | hpos
    · rw [if_pos hz] at htail
      rw [if_pos (by omega)]
      omega
    · rw [if_neg (by omega)] at htail
      rw [if_neg (by omega)]
      exact htail
  · simp only [List.length_append, List.length_singleton, hpeek, hhead]
    split_ifs <;> omega
  · simp only [hslot]
    exact h.slots.push hl c

theorem Holds.pop_nil (h : q.Holds slot [] p) : q.pop = (none, q) := by
  have htail := h.tail
  rw [if_pos List.length_nil] at htail
  rw [UnicharQueue.pop]
  rw [if_pos (by omega)]

theorem Holds.pop_cons {c : Unichar} (h : q.Holds slot (c :: xs) p) :
    ∃ q', q.pop = (some c, q') ∧ q'.Holds ((slot + 1) % 5) xs (p - 1) := by
  have hs := h.slot_lt
  have hl := h.length_le
  have hp := h.peek_le
  have hhead := h.head
  have htail := h.tail
  have hpeek := h.peek
  simp only [List.length_cons] at hl hp hhead htail hpeek
  rw [if_neg (by omega)] at htail
  have hfirst := h.slots 0 (by simp)
  have hchar : q.buffer q.tail.toNat = c := by
    have hslot : q.tail.toNat = slot % 5 := by omega
    simp only [List.getElem?_cons_zero, Nat.add_zero, Option.some.injEq] at hfirst
    rw [hslot, ← hfirst]
  have hnext : nextIndex q.tail = ((slot : Int) + 1) % 5 := nextIndex_eq (by omega)
  rw [UnicharQueue.pop]
  rw [if_neg (by omega)]
  refine ⟨_, by rw [hchar], by omega, by omega, by omega, ?_, ?_, ?_, ?_⟩
  · simp only [hhead]
    omega
  · simp only [hnext, hhead]
    split_ifs <;> omega
  · by_cases hpt : q.peek = q.tail
    · simp only [hpt, if_true, hnext, hhead]
      rw [htail] at hpt
      split_ifs at hpeek ⊢ <;> omega
    · simp only [if_neg hpt, hhead]
      rw [htail] at hpt
      split_ifs at hpeek ⊢ <;> omega
  · simpa using h.slots.drop 1

/-- Bulk consumption stops at the end of the ring: at most `5 - slot` characters go. -/
theorem Holds.consumeChars (h : q.Holds slot xs p) {n : Nat} (hn : n ≤ xs.length)
    (hnp : min n (5 - slot) ≤ p) :
    (q.consumeChars n).Holds ((slot + min n (5 - slot)) % 5) (xs.drop (min n (5 - slot)))
      (p - min n (5 - slot)) := by
  have hs := h.slot_lt
  have hl := h.length_le
  have hp := h.peek_le
  have hhead := h.head
  have htail := h.tail
  have hpeek := h.peek
  have hclip : (if (n : Int) > xs.length then (xs.length : Int) else n) = n := if_neg (by omega)
  rw [UnicharQueue.consumeChars]
  simp only [h.length_eq, hclip]
  rcases Nat.eq_zero_or_pos n with rfl | hpos
  · simp only [Nat.zero_min, Nat.add_zero, List.drop_zero, Nat.sub_zero, Nat.mod_eq_of_lt hs]
    exact h
  · rw [if_neg (by omega)] at htail
    rw [if_pos (by omega)]
    have hinc : incrementIndex q.tail n = (((slot + min n (5 - slot)) % 5 : Nat) : Int) := by
      rw [htail]
      unfold incrementIndex unicharQueueMaxLength
      simp only
      split_ifs <;> omega
    refine ⟨Nat.mod_lt _ (by decide), by simp; omega, by simp; omega, ?_, ?_, ?_, h.slots.drop _⟩
    · simp only [hhead, List.length_drop]
      omega
    · simp only [hinc, hhead, List.length_drop]
      split_ifs <;> omega
    · simp only [hpeek, List.length_drop]
      split_ifs <;> omega

theorem Holds.peekChar_lt (h : q.Holds slot xs p) (hlt : p < xs.length) :
    ∃ q', q.peekChar = (some xs[p], q') ∧ q'.Holds slot xs (p + 1) := by
  have hs := h.slot_lt
  have hl := h.length_le
  have hhead := h.head
  have hpeek := h.peek
  rw [if_neg (by omega)] at hpeek
  have hslot : q.peek.toNat = (slot + p) % 5 := by omega
  have hnext := nextIndex_eq hpeek
  have hchar := h.slots p hlt
  rw [List.getElem?_eq_getElem hlt, Option.some.injEq] at hchar
  rw [UnicharQueue.peekChar]
  rw [if_neg (by omega), hslot, ← hchar]
  refine ⟨_, rfl, hs, hl, by omega, hhead, h.tail, ?_, h.slots⟩
  simp only [hnext, hhead]
  split_ifs <;> omega

theorem Holds.peekChar_end (h : q.Holds slot xs xs.length) : q.peekChar = (none, q) := by
  have hpeek := h.peek
  rw [if_pos rfl] at hpeek
  rw [UnicharQueue.peekChar]
  rw [if_pos (by omega)]

theorem Holds.resetPeekIndex (h : q.Holds slot xs p) : q.resetPeekIndex.Holds slot xs 0 := by
  have hs := h.slot_lt
  refine ⟨hs, h.length_le, Nat.zero_le _, h.head, h.tail, ?_, h.slots⟩
  simp only [UnicharQueue.resetPeekIndex, h.tail]
  split_ifs <;> omega

end UnicharQueue

end NdsDevkit.Collation
