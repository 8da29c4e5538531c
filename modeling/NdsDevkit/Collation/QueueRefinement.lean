import NdsDevkit.Collation.UnicharQueue

namespace NdsDevkit.Collation

open Text

/-- A bounded list of characters with a peek position between its front and its end. -/
structure PeekList where
  chars : List Unichar
  peek : Nat
  length_le : chars.length ≤ unicharQueueMaxLength
  peek_le : peek ≤ chars.length

inductive QueueCall where
  | push (character : Unichar)
  | pop
  | peek
  | resetPeekIndex
  | consumeChars (count : Nat)
  | length
  | isFull
  deriving DecidableEq

/-- What a call returns. -/
inductive QueueResult where
  | nothing
  | flag (b : Bool)
  | character (c : Option Unichar)
  | count (n : Int)
  deriving DecidableEq

namespace PeekList

def empty : PeekList := ⟨[], 0, by decide, Nat.le_refl _⟩

def push (a : PeekList) (c : Unichar) : QueueResult × PeekList :=
  if h : a.chars.length < unicharQueueMaxLength then
    (.flag true, ⟨a.chars ++ [c], a.peek, by
      rw [List.length_append]
      exact h, by
      have hp := a.peek_le
      rw [List.length_append]
      omega⟩)
  else (.flag false, a)

/-- Removes `n` characters from the front. The peek position stays with its character, or moves
to the new front. -/
def drop (a : PeekList) (n : Nat) : PeekList :=
  ⟨a.chars.drop n, a.peek - n, by
    have hl := a.length_le
    rw [List.length_drop]
    omega, by
    have hp := a.peek_le
    rw [List.length_drop]
    omega⟩

def next (a : PeekList) : QueueResult × PeekList :=
  if h : a.peek < a.chars.length then
    (.character (some a.chars[a.peek]), { a with peek := a.peek + 1, peek_le := h })
  else (.character none, a)

def call (a : PeekList) : QueueCall → QueueResult × PeekList
  | .push c => a.push c
  | .pop => (.character a.chars.head?, a.drop 1)
  | .peek => a.next
  | .resetPeekIndex => (.nothing, { a with peek := 0, peek_le := Nat.zero_le _ })
  | .consumeChars n => (.nothing, a.drop (min n a.chars.length))
  | .length => (.count a.chars.length, a)
  | .isFull => (.flag (decide (a.chars.length = unicharQueueMaxLength)), a)

end PeekList

namespace UnicharQueue

def call (q : UnicharQueue) : QueueCall → QueueResult × UnicharQueue
  | .push c => (.flag (q.push c).1, (q.push c).2)
  | .pop => (.character q.pop.1, q.pop.2)
  | .peek => (.character q.peekChar.1, q.peekChar.2)
  | .resetPeekIndex => (.nothing, q.resetPeekIndex)
  | .consumeChars n => (.nothing, q.consumeChars n)
  | .length => (.count q.length, q)
  | .isFull => (.flag q.isFull, q)

end UnicharQueue

/-- The results of a sequence of calls. -/
def results {σ : Type} (call : σ → QueueCall → QueueResult × σ) : σ → List QueueCall →
    List QueueResult
  | _, [] => []
  | s, c :: cs => (call s c).1 :: results call (call s c).2 cs

/-- What bulk consumption needs: the characters it takes do not reach beyond the end of the ring,
and they have all been peeked. -/
def Consumable (q : UnicharQueue) (a : PeekList) : QueueCall → Prop
  | .consumeChars n => q.tail + min n a.chars.length ≤ unicharQueueMaxLength ∧
      min n a.chars.length ≤ a.peek
  | _ => True

/-- Every bulk consumption of the run is of this kind. -/
def ConsumableRun : UnicharQueue → PeekList → List QueueCall → Prop
  | _, _, [] => True
  | q, a, c :: cs => Consumable q a c ∧ ConsumableRun (q.call c).2 (a.call c).2 cs

/-- The ring stands for the list. -/
def Refines (q : UnicharQueue) (a : PeekList) : Prop := ∃ slot, q.Holds slot a.chars a.peek

theorem refines_init (q : UnicharQueue) : Refines q.init .empty := ⟨0, UnicharQueue.holds_init q⟩

/-- Asking for more characters than there are takes all of them. -/
theorem consumeChars_min {q : UnicharQueue} {n len : Nat} (h : q.length = len) :
    q.consumeChars n = q.consumeChars (min n len : Nat) := by
  have hclip : ∀ m : Nat, (if (m : Int) > len then (len : Int) else m) = (min m len : Nat) := by
    intro m
    split <;> omega
  unfold UnicharQueue.consumeChars
  simp only [h, hclip, Nat.min_assoc, Nat.min_self]

/-- A call answers as the list does, and the ring stands for the list again. -/
theorem Refines.call {q : UnicharQueue} {a : PeekList} (h : Refines q a) {c : QueueCall}
    (hc : Consumable q a c) :
    (q.call c).1 = (a.call c).1 ∧ Refines (q.call c).2 (a.call c).2 := by
  obtain ⟨slot, hq⟩ := h
  cases c with
  | push c =>
    by_cases hl : a.chars.length < unicharQueueMaxLength
    · obtain ⟨q', hpush, hq'⟩ := hq.push hl c
      simp only [UnicharQueue.call, PeekList.call, PeekList.push, dif_pos hl, hpush, true_and]
      exact ⟨slot, hq'⟩
    · have hle := a.length_le
      have hfull : q.head = q.tail := by
        have hiff := hq.isFull_iff.mpr (Nat.le_antisymm hle (Nat.le_of_not_lt hl))
        simpa [UnicharQueue.isFull] using hiff
      simp only [UnicharQueue.call, PeekList.call, PeekList.push, dif_neg hl, UnicharQueue.push,
        if_pos hfull, true_and]
      exact ⟨slot, hq⟩
  | pop =>
    obtain ⟨chars, peek, hl, hp⟩ := a
    cases chars with
    | nil =>
      have hz : peek = 0 := by simpa using hp
      subst hz
      simp only [UnicharQueue.call, PeekList.call, hq.pop_nil, List.head?_nil, true_and]
      exact ⟨slot, hq⟩
    | cons c chars =>
      obtain ⟨q', hpop, hq'⟩ := hq.pop_cons
      simp only [UnicharQueue.call, PeekList.call, hpop, List.head?_cons, true_and]
      exact ⟨_, hq'⟩
  | peek =>
    by_cases hlt : a.peek < a.chars.length
    · obtain ⟨q', hpeek, hq'⟩ := hq.peekChar_lt hlt
      simp only [UnicharQueue.call, PeekList.call, PeekList.next, dif_pos hlt, hpeek, true_and]
      exact ⟨slot, hq'⟩
    · have hend : a.peek = a.chars.length := Nat.le_antisymm a.peek_le (Nat.le_of_not_lt hlt)
      have hq' := hq
      rw [hend] at hq'
      simp only [UnicharQueue.call, PeekList.call, PeekList.next, dif_neg hlt, hq'.peekChar_end,
        true_and]
      exact ⟨slot, hq⟩
  | resetPeekIndex => exact ⟨rfl, slot, hq.resetPeekIndex⟩
  | consumeChars n =>
    obtain ⟨hring, hpeeked⟩ := hc
    have hs := hq.slot_lt
    have htail := hq.tail
    have hk : min (min n a.chars.length) (5 - slot) = min n a.chars.length := by
      unfold unicharQueueMaxLength at hring
      split at htail <;> omega
    have hq' := hq.consumeChars (Nat.min_le_right n a.chars.length) (by rwa [hk])
    rw [hk] at hq'
    refine ⟨rfl, (slot + min n a.chars.length) % 5, ?_⟩
    simp only [UnicharQueue.call, PeekList.call]
    rw [consumeChars_min hq.length_eq]
    exact hq'
  | length =>
    simp only [UnicharQueue.call, PeekList.call, hq.length_eq, true_and]
    exact ⟨slot, hq⟩
  | isFull =>
    refine ⟨?_, slot, hq⟩
    simp only [UnicharQueue.call, PeekList.call]
    rw [QueueResult.flag.injEq, Bool.eq_iff_iff, hq.isFull_iff, decide_eq_true_iff]
    rfl

theorem Refines.results_eq {q : UnicharQueue} {a : PeekList} (h : Refines q a)
    {calls : List QueueCall} (hrun : ConsumableRun q a calls) :
    results UnicharQueue.call q calls = results PeekList.call a calls := by
  induction calls generalizing q a with
  | nil => rfl
  | cons c calls ih =>
    obtain ⟨hc, hrest⟩ := hrun
    obtain ⟨hres, hnext⟩ := h.call hc
    simp only [results, hres, ih hnext hrest]

/-- From a fresh queue on, whatever its buffer holds, all results are those of the list. -/
theorem unicharQueue_refines (q : UnicharQueue) (calls : List QueueCall)
    (hrun : ConsumableRun q.init .empty calls) :
    results UnicharQueue.call q.init calls = results PeekList.call .empty calls :=
  (refines_init q).results_eq hrun

theorem unicharQueue_refines_consume :
    results UnicharQueue.call (UnicharQueue.init ⟨fun _ => 0, 7, 7, 7⟩)
        [.push 97, .push 98, .push 99, .peek, .peek, .consumeChars 2, .peek, .consumeChars 9, .pop] =
      results PeekList.call .empty
        [.push 97, .push 98, .push 99, .peek, .peek, .consumeChars 2, .peek, .consumeChars 9, .pop] :=
  unicharQueue_refines ⟨fun _ => 0, 7, 7, 7⟩ _
    (by simp only [ConsumableRun, Consumable]; decide)

/-- Three of four characters, from the fourth slot on: the consumption stops at the end of the
ring, and one character too many is left. -/
theorem unicharQueue_wraps :
    results UnicharQueue.call (UnicharQueue.init ⟨fun _ => 0, 0, 0, 0⟩)
        [.push 97, .push 98, .push 99, .push 100, .push 101, .pop, .pop, .pop, .push 102, .push 103,
          .peek, .peek, .peek, .peek, .consumeChars 3, .length] ≠
      results PeekList.call .empty
        [.push 97, .push 98, .push 99, .push 100, .push 101, .pop, .pop, .pop, .push 102, .push 103,
          .peek, .peek, .peek, .peek, .consumeChars 3, .length] := by
  decide

end NdsDevkit.Collation
