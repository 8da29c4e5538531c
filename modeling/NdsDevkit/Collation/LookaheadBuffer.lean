import NdsDevkit.Collation.UnicharQueue
import NdsDevkit.Collation.Utf8DecomposeIterator

namespace NdsDevkit.Collation

open Framework Text

structure LookaheadBuffer where
  it : Utf8DecomposeIterator
  queue : UnicharQueue

namespace LookaheadBuffer

variable (table : UnicharDecompositionTable)

def init (it : Utf8DecomposeIterator) (queue : UnicharQueue) : LookaheadBuffer := ⟨it, queue.init⟩

def getNextChar (self : LookaheadBuffer) : Option Unichar × LookaheadBuffer :=
  match self.queue.pop with
  | (some character, queue) => (some character, { self with queue })
  | (none, _) =>
    let (character, it) := self.it.getNextCharacter table
    (character, { self with it })

def peekNextChar (self : LookaheadBuffer) : Option Unichar × LookaheadBuffer :=
  match self.queue.peekChar with
  | (some character, queue) => (some character, { self with queue })
  | (none, _) =>
    if self.queue.isFull then (none, self)
    else
      match self.it.getNextCharacter table with
      | (some character, it) =>
        match self.queue.push character with
        | (true, queue) =>
          let (character, queue) := queue.peekChar
          (character, ⟨it, queue⟩)
        | (false, queue) => (none, ⟨it, queue⟩)
      | (none, it) => (none, { self with it })

def resetPeekPointer (self : LookaheadBuffer) : LookaheadBuffer :=
  { self with queue := self.queue.resetPeekIndex }

/-- The loop over the characters that are not queued. Its counter never changes, so it only ends
with the input; `n` is larger than the number of pending characters. -/
def skipInput : Nat → Utf8DecomposeIterator → Utf8DecomposeIterator
  | 0, it => it
  | n + 1, it =>
    match it.getNextCharacter table with
    | (some _, it) => skipInput n it
    | (none, it) => it

def skipChars (self : LookaheadBuffer) (count : Int) : LookaheadBuffer :=
  if count ≤ 0 then self
  else
    let len := self.queue.length
    let toConsume := if count > len then len else count
    let queue := self.queue.consumeChars toConsume
    if count - toConsume > 0 then
      ⟨skipInput table ((self.it.pending table).length + 1) self.it, queue⟩
    else { self with queue }

/-- What can be told of a buffer: the slot of the first queued character, how many are queued, and
all the characters that are still to come. -/
@[ext] structure Window where
  slot : Nat
  queued : Nat
  chars : List Unichar

namespace Window

/-- Taking a character frees its slot when it was queued. -/
def pop (w : Window) : Window :=
  if w.queued = 0 then { w with chars := w.chars.tail }
  else ⟨(w.slot + 1) % 5, w.queued - 1, w.chars.tail⟩

/-- At least `p` characters have come to be queued. -/
def peeked (w : Window) (p : Nat) : Window := { w with queued := max w.queued p }

/-- What a bulk skip drops: it stops at the end of the ring. -/
def dropped (w : Window) (n : Nat) : Nat := min n (5 - w.slot)

def skip (w : Window) (n : Nat) : Window :=
  ⟨(w.slot + w.dropped n) % 5, w.queued - w.dropped n, w.chars.drop (w.dropped n)⟩

@[simp] theorem peeked_slot (w : Window) (p : Nat) : (w.peeked p).slot = w.slot := rfl
@[simp] theorem peeked_chars (w : Window) (p : Nat) : (w.peeked p).chars = w.chars := rfl

@[simp] theorem peeked_zero (w : Window) : w.peeked 0 = w := by
  simp [peeked]

@[simp] theorem peeked_peeked (w : Window) (p n : Nat) :
    (w.peeked p).peeked (p + n) = w.peeked (p + n) := by
  simp only [peeked, Window.mk.injEq, and_true, true_and]
  omega

theorem skip_one {w : Window} (hs : w.slot < 5) :
    w.skip 1 = ⟨(w.slot + 1) % 5, w.queued - 1, w.chars.tail⟩ := by
  have h1 : w.dropped 1 = 1 := by
    rw [dropped]
    omega
  simp [skip, h1]

end Window

/-- The buffer looks like the window, and `p` characters have been peeked. -/
structure Shows (lb : LookaheadBuffer) (w : Window) (p : Nat) : Prop where
  valid : lb.it.Valid
  holds : ∃ xs, xs.length = w.queued ∧ lb.queue.Holds w.slot xs p ∧
    w.chars = xs ++ lb.it.pending table

variable {table} {lb : LookaheadBuffer} {w : Window} {p : Nat}

theorem Shows.slot_lt (h : lb.Shows table w p) : w.slot < 5 := by
  obtain ⟨xs, _, hq, _⟩ := h.holds
  exact hq.slot_lt

theorem Shows.peek_le (h : lb.Shows table w p) : p ≤ w.queued ∧ w.queued ≤ 5 := by
  obtain ⟨xs, hn, hq, _⟩ := h.holds
  have h1 := hq.peek_le
  have h2 := hq.length_le
  omega

theorem Shows.length_eq (h : lb.Shows table w p) :
    lb.queue.length.toNat + (lb.it.pending table).length = w.chars.length := by
  obtain ⟨xs, _, hq, hl⟩ := h.holds
  rw [hl, hq.length_eq, List.length_append, Int.toNat_natCast]

theorem shows_init {it : Utf8DecomposeIterator} (hv : it.Valid) (q : UnicharQueue) :
    (init it q).Shows table ⟨0, 0, it.pending table⟩ 0 :=
  ⟨hv, [], rfl, UnicharQueue.holds_init q, rfl⟩

theorem Shows.getNextChar_nil (h : lb.Shows table w p) (hw : w.chars = []) :
    ∃ lb', lb.getNextChar table = (none, lb') ∧ lb'.Shows table w p := by
  obtain ⟨xs, hn, hq, hl⟩ := h.holds
  rw [hw] at hl
  obtain ⟨rfl, hpend⟩ := List.append_eq_nil_iff.mp hl.symm
  obtain ⟨it', hit, hv', hp'⟩ := Utf8DecomposeIterator.getNextCharacter_spec table h.valid
  rw [hpend] at hit hp'
  refine ⟨⟨it', lb.queue⟩, ?_, hv', [], hn, hq, ?_⟩
  · simp [LookaheadBuffer.getNextChar, hq.pop_nil, hit]
  · simp [hw, hp']

theorem Shows.getNextChar_cons {c : Unichar} {l : List Unichar} (h : lb.Shows table w p)
    (hw : w.chars = c :: l) :
    ∃ lb', lb.getNextChar table = (some c, lb') ∧ lb'.Shows table w.pop (p - 1) := by
  obtain ⟨xs, hn, hq, hl⟩ := h.holds
  rw [hw] at hl
  cases xs with
  | nil =>
    obtain ⟨it', hit, hv', hp'⟩ :=
      Utf8DecomposeIterator.getNextCharacter_spec table h.valid
    have hpend : lb.it.pending table = c :: l := hl.symm
    have hp0 : p = 0 := Nat.le_zero.mp hq.peek_le
    subst hp0
    rw [hpend] at hit hp'
    refine ⟨⟨it', lb.queue⟩, ?_, hv', [], ?_⟩
    · simp [LookaheadBuffer.getNextChar, hq.pop_nil, hit]
    · have hz : w.queued = 0 := hn.symm
      rw [Window.pop, if_pos hz]
      exact ⟨hn, hq, by simp [hw, hp']⟩
  | cons x xs =>
    obtain ⟨rfl, hl'⟩ := List.cons.inj hl
    obtain ⟨q', hpop, hq'⟩ := hq.pop_cons
    rw [List.length_cons] at hn
    refine ⟨⟨lb.it, q'⟩, ?_, h.valid, xs, ?_⟩
    · simp [LookaheadBuffer.getNextChar, hpop]
    · rw [Window.pop, if_neg (by omega)]
      exact ⟨by simp only; omega, hq', by simp [hw, hl']⟩

/-- Peeking returns the character at the peek position, five characters ahead at most. -/
theorem Shows.peekNextChar_some {c : Unichar} (h : lb.Shows table w p) (h5 : p < 5)
    (hc : w.chars[p]? = some c) :
    ∃ lb', lb.peekNextChar table = (some c, lb') ∧ lb'.Shows table (w.peeked (p + 1)) (p + 1) := by
  obtain ⟨xs, hn, hq, hl⟩ := h.holds
  rw [hl] at hc
  rcases Nat.lt_or_ge p xs.length with hlt | hge
  · obtain ⟨q', hpk, hq'⟩ := hq.peekChar_lt hlt
    rw [List.getElem?_append_left hlt, List.getElem?_eq_getElem hlt, Option.some.injEq] at hc
    refine ⟨⟨lb.it, q'⟩, ?_, h.valid, xs, ?_, hq', hl⟩
    · simp [LookaheadBuffer.peekNextChar, hpk, hc]
    · simp only [Window.peeked]
      omega
  · have hpe : p = xs.length := Nat.le_antisymm hq.peek_le hge
    subst hpe
    obtain ⟨it', hit, hv', hp'⟩ :=
      Utf8DecomposeIterator.getNextCharacter_spec table h.valid
    rw [List.getElem?_append_right (Nat.le_refl _), Nat.sub_self, ← List.head?_eq_getElem?] at hc
    rw [hc] at hit
    have hfull : lb.queue.isFull = false := by
      rw [← Bool.not_eq_true, hq.isFull_iff]
      omega
    obtain ⟨q', hpush, hq'⟩ := hq.push h5 c
    obtain ⟨q'', hpk, hq''⟩ := hq'.peekChar_lt (by simp)
    obtain ⟨l', hl'⟩ := List.head?_eq_some_iff.mp hc
    refine ⟨⟨it', q''⟩, ?_, hv', xs ++ [c], ?_, hq'', ?_⟩
    · simp [LookaheadBuffer.peekNextChar, hq.peekChar_end, hfull, hit, hpush, hpk]
    · simp only [Window.peeked, List.length_append, List.length_singleton]
      omega
    · simp [hl, hp', hl']

theorem Shows.peekNextChar_none (h : lb.Shows table w p) (hend : p = 5 ∨ w.chars[p]? = none) :
    ∃ lb', lb.peekNextChar table = (none, lb') ∧ lb'.Shows table w p := by
  obtain ⟨xs, hn, hq, hl⟩ := h.holds
  have hp := hq.peek_le
  have hl5 := hq.length_le
  rw [hl] at hend
  have hpe : p = xs.length := by
    rcases hend with h5 | hnone
    · omega
    · have := List.getElem?_eq_none_iff.mp hnone
      rw [List.length_append] at this
      omega
  subst hpe
  cases hfull : lb.queue.isFull with
  | true =>
    refine ⟨lb, ?_, h⟩
    simp [LookaheadBuffer.peekNextChar, hq.peekChar_end, hfull]
  | false =>
    have hn5 : xs.length ≠ 5 := by
      intro h5
      rw [hq.isFull_iff.mpr h5] at hfull
      cases hfull
    have hpend : lb.it.pending table = [] := by
      rcases hend with h5 | hnone
      · exact absurd h5 hn5
      · rw [List.getElem?_append_right (Nat.le_refl _), Nat.sub_self, ← List.head?_eq_getElem?]
          at hnone
        exact List.head?_eq_none_iff.mp hnone
    obtain ⟨it', hit, hv', hp'⟩ :=
      Utf8DecomposeIterator.getNextCharacter_spec table h.valid
    rw [hpend] at hit hp'
    refine ⟨⟨it', lb.queue⟩, ?_, hv', xs, hn, hq, ?_⟩
    · simp [LookaheadBuffer.peekNextChar, hq.peekChar_end, hfull, hit]
    · simp [hl, hpend, hp']

/-- Skipping peeked characters stops at the end of the ring. -/
theorem Shows.skipChars {n : Nat} (h : lb.Shows table w p) (hn : n ≤ p) :
    (lb.skipChars table n).Shows table (w.skip n) (p - w.dropped n) := by
  obtain ⟨xs, hlen, hq, hl⟩ := h.holds
  have hp := hq.peek_le
  have hs := hq.slot_lt
  rw [LookaheadBuffer.skipChars]
  rcases Nat.eq_zero_or_pos n with rfl | hpos
  · rw [if_pos (by omega)]
    have hw : w.skip 0 = w := by
      simp [Window.skip, Window.dropped, Nat.mod_eq_of_lt hs]
    rw [hw, Window.dropped, Nat.zero_min, Nat.sub_zero]
    exact h
  · have hclip : (if (n : Int) > xs.length then (xs.length : Int) else n) = n := if_neg (by omega)
    rw [if_neg (by omega)]
    simp only [hq.length_eq, hclip, Int.sub_self]
    rw [if_neg (by omega)]
    have hd : w.dropped n ≤ n := Nat.min_le_left _ _
    refine ⟨h.valid, _, ?_, hq.consumeChars (by omega) (Nat.le_trans hd hn), ?_⟩
    · simp only [Window.skip, Window.dropped, List.length_drop, hlen]
    · simp only [Window.skip, hl]
      exact List.drop_append_of_le_length (by omega)

/-- A character that is peeked can be skipped, and its slot is free. -/
theorem Shows.skipPeeked {c : Unichar} (h : lb.Shows table w p) (h5 : p < 5)
    (hc : w.chars[p]? = some c) :
    ∃ lb', lb.peekNextChar table = (some c, lb') ∧ lb'.Shows table (w.peeked (p + 1)) (p + 1) ∧
      (lb'.skipChars table 1).Shows table ((w.peeked (p + 1)).skip 1) p ∧
      ((w.peeked (p + 1)).skip 1).chars.length < w.chars.length := by
  obtain ⟨lb', hpk, hs'⟩ := h.peekNextChar_some h5 hc
  have hslot := h.slot_lt
  have hsk := hs'.skipChars (n := 1) (by omega)
  have hd : (w.peeked (p + 1)).dropped 1 = 1 := by
    simp only [Window.dropped, Window.peeked_slot]
    omega
  rw [hd, Nat.add_sub_cancel] at hsk
  refine ⟨lb', hpk, hs', hsk, ?_⟩
  obtain ⟨hlt, _⟩ := List.getElem?_eq_some_iff.mp hc
  rw [Window.skip_one (by simpa using hslot), Window.peeked_chars, List.length_tail]
  omega

theorem Shows.resetPeekPointer (h : lb.Shows table w p) :
    lb.resetPeekPointer.Shows table w 0 := by
  obtain ⟨xs, hn, hq, hl⟩ := h.holds
  exact ⟨h.valid, xs, hn, hq.resetPeekIndex, hl⟩

end LookaheadBuffer

end NdsDevkit.Collation
