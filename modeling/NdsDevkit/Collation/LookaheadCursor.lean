import NdsDevkit.Collation.DecomposedText
import NdsDevkit.Collation.QueueRefinement
import NdsDevkit.Text.DecompositionData

namespace NdsDevkit.Collation

open Framework Text

/-- What a lookahead buffer needs of the queue in it. -/
class CharQueue (Q : Type) where
  push : Q → Unichar → Bool × Q
  pop : Q → Option Unichar × Q
  peekChar : Q → Option Unichar × Q
  resetPeekIndex : Q → Q
  consumeChars : Q → Int → Q
  length : Q → Int
  isFull : Q → Bool

def CharQueue.call {Q : Type} [CharQueue Q] (q : Q) : QueueCall → QueueResult × Q
  | .push c => (.flag (push q c).1, (push q c).2)
  | .pop => (.character (pop q).1, (pop q).2)
  | .peek => (.character (peekChar q).1, (peekChar q).2)
  | .resetPeekIndex => (.nothing, resetPeekIndex q)
  | .consumeChars n => (.nothing, consumeChars q n)
  | .length => (.count (length q), q)
  | .isFull => (.flag (isFull q), q)

instance : CharQueue UnicharQueue where
  push := UnicharQueue.push
  pop := UnicharQueue.pop
  peekChar := UnicharQueue.peekChar
  resetPeekIndex := UnicharQueue.resetPeekIndex
  consumeChars := UnicharQueue.consumeChars
  length := UnicharQueue.length
  isFull := UnicharQueue.isFull

instance : CharQueue PeekList where
  push a c := (decide (a.chars.length < unicharQueueMaxLength), (a.push c).2)
  pop a := (a.chars.head?, a.drop 1)
  peekChar a := (a.chars[a.peek]?, a.next.2)
  resetPeekIndex a := (a.call .resetPeekIndex).2
  consumeChars a n := a.drop (min n.toNat a.chars.length)
  length a := a.chars.length
  isFull a := decide (a.chars.length = unicharQueueMaxLength)

theorem unicharQueue_call (q : UnicharQueue) (c : QueueCall) : CharQueue.call q c = q.call c := by
  cases c <;> rfl

/-- The operations of the list are the documented ones. -/
theorem peekList_call (a : PeekList) (c : QueueCall) : CharQueue.call a c = a.call c := by
  cases c with
  | push c =>
    simp only [CharQueue.call, CharQueue.push, PeekList.call, PeekList.push]
    split
    · next h => rw [decide_eq_true h]
    · next h => rw [decide_eq_false h]
  | peek =>
    simp only [CharQueue.call, CharQueue.peekChar, PeekList.call, PeekList.next]
    split
    · next h => rw [List.getElem?_eq_getElem h]
    · next h => rw [List.getElem?_eq_none (by omega)]
  | pop => rfl
  | resetPeekIndex => rfl
  | consumeChars n => rfl
  | length => rfl
  | isFull => rfl

inductive BufferCall where
  | getNextChar
  | peekNextChar
  | resetPeekPointer
  | skipChars (count : Int)
  deriving DecidableEq

theorem PeekList.push_chars {a : PeekList} (h : a.chars.length < unicharQueueMaxLength)
    (c : Unichar) : (a.push c).2.chars = a.chars ++ [c] ∧ (a.push c).2.peek = a.peek := by
  rw [PeekList.push, dif_pos h]
  exact ⟨rfl, rfl⟩

theorem PeekList.next_peek {a : PeekList} (h : a.peek < a.chars.length) :
    a.next.2.chars = a.chars ∧ a.next.2.peek = a.peek + 1 := by
  rw [PeekList.next, dif_pos h]
  exact ⟨rfl, rfl⟩

/-- What the calls of a sequence return; `none` for a failure, or where nothing is returned. -/
def answers {σ : Type} (call : σ → BufferCall → Option Unichar × σ) :
    σ → List BufferCall → List (Option Unichar)
  | _, [] => []
  | s, c :: cs => (call s c).1 :: answers call (call s c).2 cs

namespace LookaheadBuffer

def call (table : UnicharDecompositionTable) (self : LookaheadBuffer) :
    BufferCall → Option Unichar × LookaheadBuffer
  | .getNextChar => self.getNextChar table
  | .peekNextChar => self.peekNextChar table
  | .resetPeekPointer => (none, self.resetPeekPointer)
  | .skipChars count => (none, self.skipChars table count)

end LookaheadBuffer

/-- A lookahead buffer on any queue. -/
structure BufferOn (Q : Type) where
  it : Utf8DecomposeIterator
  queue : Q

namespace BufferOn

variable {Q : Type} [CharQueue Q] (table : UnicharDecompositionTable)

def getNextChar (self : BufferOn Q) : Option Unichar × BufferOn Q :=
  match CharQueue.pop self.queue with
  | (some character, queue) => (some character, { self with queue })
  | (none, _) =>
    let (character, it) := self.it.getNextCharacter table
    (character, { self with it })

def peekNextChar (self : BufferOn Q) : Option Unichar × BufferOn Q :=
  match CharQueue.peekChar self.queue with
  | (some character, queue) => (some character, { self with queue })
  | (none, _) =>
    if CharQueue.isFull self.queue then (none, self)
    else
      match self.it.getNextCharacter table with
      | (some character, it) =>
        match CharQueue.push self.queue character with
        | (true, queue) =>
          let (character, queue) := CharQueue.peekChar queue
          (character, ⟨it, queue⟩)
        | (false, queue) => (none, ⟨it, queue⟩)
      | (none, it) => (none, { self with it })

def resetPeekPointer (self : BufferOn Q) : BufferOn Q :=
  { self with queue := CharQueue.resetPeekIndex self.queue }

def skipChars (self : BufferOn Q) (count : Int) : BufferOn Q :=
  if count ≤ 0 then self
  else
    let len := CharQueue.length self.queue
    let toConsume := if count > len then len else count
    let queue := CharQueue.consumeChars self.queue toConsume
    if count - toConsume > 0 then
      ⟨LookaheadBuffer.skipInput table ((self.it.pending table).length + 1) self.it, queue⟩
    else { self with queue }

def call (self : BufferOn Q) : BufferCall → Option Unichar × BufferOn Q
  | .getNextChar => self.getNextChar table
  | .peekNextChar => self.peekNextChar table
  | .resetPeekPointer => (none, self.resetPeekPointer)
  | .skipChars count => (none, self.skipChars table count)

/-- On the ring this is the code's buffer. -/
theorem call_unicharQueue (lb : LookaheadBuffer) (c : BufferCall) :
    (⟨lb.it, lb.queue⟩ : BufferOn UnicharQueue).call table c =
      ((lb.call table c).1, ⟨(lb.call table c).2.it, (lb.call table c).2.queue⟩) := by
  cases c with
  | getNextChar =>
    simp only [call, getNextChar, LookaheadBuffer.call, LookaheadBuffer.getNextChar, CharQueue.pop]
    rcases lb.queue.pop with ⟨_ | character, queue⟩ <;> rfl
  | peekNextChar =>
    simp only [call, peekNextChar, LookaheadBuffer.call, LookaheadBuffer.peekNextChar,
      CharQueue.peekChar, CharQueue.isFull, CharQueue.push]
    rcases lb.queue.peekChar with ⟨_ | character, queue⟩
    · simp only
      split
      · rfl
      · rcases lb.it.getNextCharacter table with ⟨_ | character, it⟩
        · rfl
        · simp only
          rcases lb.queue.push character with ⟨_ | _, queue⟩ <;> rfl
    · rfl
  | resetPeekPointer => rfl
  | skipChars count =>
    simp only [call, skipChars, LookaheadBuffer.call, LookaheadBuffer.skipChars, CharQueue.length,
      CharQueue.consumeChars]
    generalize (if count > lb.queue.length then lb.queue.length else count) = toConsume
    split
    · rfl
    · split <;> rfl

end BufferOn

/-- A read position and a peek position on a text. -/
structure TextCursor where
  chars : List Unichar
  read : Nat
  peek : Nat

namespace TextCursor

def start (chars : List Unichar) : TextCursor := ⟨chars, 0, 0⟩

def remaining (self : TextCursor) : Nat := self.chars.length - self.read

/-- Moves the read position. The peek position is never behind it. -/
def advance (self : TextCursor) (n : Nat) : TextCursor :=
  { self with read := self.read + n, peek := max self.peek (self.read + n) }

def call (self : TextCursor) : BufferCall → Option Unichar × TextCursor
  | .getNextChar => (self.chars[self.read]?, self.advance (min 1 self.remaining))
  | .peekNextChar =>
    if self.peek < self.read + 5 ∧ self.peek < self.chars.length then
      (self.chars[self.peek]?, { self with peek := self.peek + 1 })
    else (none, self)
  | .resetPeekPointer => (none, { self with peek := self.read })
  | .skipChars count => (none, self.advance (min count.toNat self.remaining))

theorem call_peekNextChar_some {t : TextCursor} (hahead : t.peek < t.read + 5)
    (hlt : t.peek < t.chars.length) :
    t.call .peekNextChar = (t.chars[t.peek]?, { t with peek := t.peek + 1 }) :=
  if_pos ⟨hahead, hlt⟩

theorem call_peekNextChar_none {t : TextCursor}
    (h : t.read + 5 ≤ t.peek ∨ t.chars.length ≤ t.peek) : t.call .peekNextChar = (none, t) :=
  if_neg (by omega)

end TextCursor

/-- A shorter length cuts characters off and changes none. -/
theorem delivers_prefix {i : Utf8Input} {cs : List Unichar}
    (h : Delivers decodeNextUtf8CharToUnichar i cs) {bytes : List UInt8}
    (hstr : i.str = some bytes) : cs <+: (decodeAll bytes).1.map Prod.fst := by
  induction h generalizing bytes with
  | done => exact List.nil_prefix
  | @more i c cs hc _ ih =>
    rcases hd : decodeNextUtf8CharToUnichar i with ⟨_ | c', i'⟩
    · rw [hd] at hc
      cases hc
    · rw [hd] at hc ih
      cases hc
      obtain ⟨bs, rest, hform, hstr', _, rfl⟩ := decodeNext_form hd
      obtain rfl : bytes = bs ++ rest := Option.some.inj (hstr.symm.trans hstr')
      rw [decodeAll_some (hform.decodeFirst rest), List.map_cons]
      exact List.cons_prefix_cons.mpr ⟨rfl, ih rfl⟩

theorem Utf8DecomposeIterator.Reads.length_le {table : UnicharDecompositionTable}
    {it : Utf8DecomposeIterator} {xs : List Unichar} (h : it.Reads table xs) :
    xs.length ≤ (it.pending table).length := by
  obtain ⟨hopen, cs, hdelivers, rfl⟩ := h
  cases hstr : it.input.str with
  | none =>
    have hd : it.currentCharDecomposition = [] := by
      by_contra hne
      rw [hstr] at hopen
      cases hopen hne
    have hnone : (decodeNextUtf8CharToUnichar it.input).1 = none := by
      simp [decodeNextUtf8CharToUnichar, hstr]
    obtain rfl := hdelivers.unique (.done hnone)
    simp [hd]
  | some bytes =>
    obtain ⟨ds, hds⟩ := delivers_prefix hdelivers hstr
    have hall : decomposedChars table bytes =
        cs.flatMap (decomposition table) ++ ds.flatMap (decomposition table) := by
      rw [← List.flatMap_append, hds, List.flatMap_map]
      rfl
    simp only [pending, hstr, hall, List.length_append]
    omega

/-- The loop over the input stops at its end. -/
theorem skipInput_reads {table : UnicharDecompositionTable} {n : Nat} {it : Utf8DecomposeIterator}
    {xs : List Unichar} (h : it.Reads table xs) (hn : xs.length < n) :
    (LookaheadBuffer.skipInput table n it).Reads table [] := by
  induction n generalizing it xs with
  | zero => exact absurd hn (Nat.not_lt_zero _)
  | succ n ih =>
    obtain ⟨hc, hreads⟩ := h.getNextCharacter
    rw [LookaheadBuffer.skipInput]
    rcases hit : it.getNextCharacter table with ⟨_ | c, it'⟩ <;> rw [hit] at hc hreads
    · obtain rfl : xs = [] := List.head?_eq_none_iff.mp hc.symm
      exact hreads
    · obtain ⟨xs', rfl⟩ := List.head?_eq_some_iff.mp hc.symm
      exact ih hreads (Nat.lt_of_succ_lt_succ hn)

namespace BufferOn

variable {table : UnicharDecompositionTable} {s s' : BufferOn PeekList} {t : TextCursor}
  {xs : List Unichar}

/-- The queued characters and those of the iterator are what lies behind the read position. -/
structure Follows (table : UnicharDecompositionTable) (s : BufferOn PeekList) (t : TextCursor) :
    Prop where
  text : ∃ xs, s.it.Reads table xs ∧ t.chars.drop t.read = s.queue.chars ++ xs
  peek : t.peek = t.read + s.queue.peek
  read_le : t.read ≤ t.chars.length

/-- Dropping characters from the front moves the read position. -/
theorem Follows.advance {n : Nat} (h : s.Follows table t) (hn : n ≤ t.remaining)
    (hreads : s'.it.Reads table xs)
    (htext : (t.chars.drop t.read).drop n = s'.queue.chars ++ xs)
    (hpeek : s'.queue.peek = s.queue.peek - n) : s'.Follows table (t.advance n) := by
  have hread := h.read_le
  have hold := h.peek
  unfold TextCursor.remaining at hn
  refine ⟨⟨xs, hreads, ?_⟩, ?_, ?_⟩
  · rw [← htext, List.drop_drop]
    rfl
  · simp only [TextCursor.advance]
    omega
  · simp only [TextCursor.advance]
    omega

theorem remaining_eq (htext : t.chars.drop t.read = s.queue.chars ++ xs) :
    t.remaining = s.queue.chars.length + xs.length := by
  rw [TextCursor.remaining, ← List.length_drop, htext, List.length_append]

theorem Follows.getNextChar (h : s.Follows table t) :
    (s.call table .getNextChar).1 = (t.call .getNextChar).1 ∧
      (s.call table .getNextChar).2.Follows table (t.call .getNextChar).2 := by
  obtain ⟨xs, hreads, htext⟩ := h.text
  have hrem := remaining_eq htext
  have hhead : t.chars[t.read]? = (s.queue.chars ++ xs).head? := by
    rw [← htext, List.head?_drop]
  obtain ⟨it, ⟨chars, peek, hl, hp⟩⟩ := s
  simp only at hrem hhead htext hreads
  simp only [call, BufferOn.getNextChar, TextCursor.call, CharQueue.pop, hhead]
  cases chars with
  | cons c chars =>
    have h1 : min 1 t.remaining = 1 := by
      rw [hrem, List.length_cons]
      omega
    refine ⟨rfl, h.advance (Nat.min_le_right _ _) hreads ?_ ?_⟩
    · rw [h1, htext]
      rfl
    · rw [h1]
      rfl
  | nil =>
    obtain ⟨hc, hreads'⟩ := hreads.getNextCharacter
    refine ⟨hc, h.advance (Nat.min_le_right _ _) hreads' ?_ ?_⟩
    · rw [hrem, htext]
      cases xs <;> rfl
    · have hp0 : peek = 0 := Nat.le_zero.mp hp
      simp [hp0]

theorem Follows.peekNextChar (h : s.Follows table t) :
    (s.call table .peekNextChar).1 = (t.call .peekNextChar).1 ∧
      (s.call table .peekNextChar).2.Follows table (t.call .peekNextChar).2 := by
  obtain ⟨xs, hreads, htext⟩ := h.text
  have hread := h.read_le
  have hpeek := h.peek
  have hl := s.queue.length_le
  have hp := s.queue.peek_le
  have hrem := remaining_eq htext
  rw [TextCursor.remaining] at hrem
  have hnext : t.chars[t.peek]? = (s.queue.chars ++ xs)[s.queue.peek]? := by
    rw [← htext, List.getElem?_drop, hpeek]
  unfold unicharQueueMaxLength at hl
  simp only [call, BufferOn.peekNextChar, CharQueue.peekChar]
  by_cases hlt : s.queue.peek < s.queue.chars.length
  · rw [TextCursor.call_peekNextChar_some (by omega) (by omega), hnext,
      List.getElem?_append_left hlt, List.getElem?_eq_getElem hlt]
    obtain ⟨hchars, hnextPeek⟩ := PeekList.next_peek hlt
    refine ⟨rfl, ⟨xs, hreads, ?_⟩, ?_, hread⟩
    · rw [htext, hchars]
    · simp only
      omega
  · have hend : s.queue.peek = s.queue.chars.length := by omega
    rw [List.getElem?_eq_none (by omega)]
    simp only [CharQueue.isFull, decide_eq_true_eq]
    by_cases hfull : s.queue.chars.length = unicharQueueMaxLength
    · rw [if_pos hfull]
      unfold unicharQueueMaxLength at hfull
      rw [TextCursor.call_peekNextChar_none (by omega)]
      exact ⟨rfl, h⟩
    · rw [if_neg hfull]
      unfold unicharQueueMaxLength at hfull
      obtain ⟨hc, hreads'⟩ := hreads.getNextCharacter
      rcases hit : s.it.getNextCharacter table with ⟨_ | c, it'⟩
      · rw [hit] at hc hreads'
        obtain rfl : xs = [] := List.head?_eq_none_iff.mp hc.symm
        rw [List.length_nil] at hrem
        rw [TextCursor.call_peekNextChar_none (by omega)]
        exact ⟨rfl, ⟨[], hreads', htext⟩, hpeek, hread⟩
      · rw [hit] at hc hreads'
        obtain ⟨xs', rfl⟩ := List.head?_eq_some_iff.mp hc.symm
        have hroom : s.queue.chars.length < unicharQueueMaxLength := by
          unfold unicharQueueMaxLength
          omega
        obtain ⟨hpushed, hsame⟩ := PeekList.push_chars hroom c
        have hbehind : (s.queue.push c).2.peek < (s.queue.push c).2.chars.length := by
          rw [hpushed, hsame, List.length_append, List.length_singleton]
          omega
        obtain ⟨hchars, hnextPeek⟩ := PeekList.next_peek hbehind
        rw [List.length_cons] at hrem
        simp only [CharQueue.push, decide_eq_true hroom]
        rw [TextCursor.call_peekNextChar_some (by omega) (by omega), hnext]
        refine ⟨?_, ⟨xs', hreads', ?_⟩, ?_, hread⟩
        · rw [hpushed, hsame, hend, List.getElem?_append_right (Nat.le_refl _),
            List.getElem?_append_right (Nat.le_refl _)]
          simp
        · rw [htext, hchars, hpushed, List.append_assoc]
          rfl
        · simp only
          omega

/-- Skipping goes as far as it should when the queue holds enough characters, or when there are
no more than it has to skip. -/
theorem Follows.skipChars {count : Int} (h : s.Follows table t)
    (hcount : count ≤ s.queue.chars.length ∨ t.remaining ≤ count) :
    (s.call table (.skipChars count)).2.Follows table (t.call (.skipChars count)).2 := by
  obtain ⟨xs, hreads, htext⟩ := h.text
  have hp := s.queue.peek_le
  have hrem := remaining_eq htext
  simp only [call, BufferOn.skipChars, TextCursor.call, CharQueue.length, CharQueue.consumeChars]
  by_cases hpos : count ≤ 0
  · rw [if_pos hpos]
    refine h.advance (Nat.min_le_right _ _) hreads ?_ (by omega)
    rw [show min count.toNat t.remaining = 0 by omega, htext]
    rfl
  · rw [if_neg hpos]
    by_cases hqueued : count ≤ s.queue.chars.length
    · have hmin : min count.toNat s.queue.chars.length = count.toNat := by omega
      have hadvance : min count.toNat t.remaining = count.toNat := by omega
      rw [if_neg (show ¬count > s.queue.chars.length by omega), hmin, hadvance,
        if_neg (show ¬count - count > 0 by omega)]
      refine h.advance (by omega) hreads ?_ rfl
      rw [htext]
      exact List.drop_append_of_le_length (by omega)
    · have hmin : min (s.queue.chars.length : Int).toNat s.queue.chars.length =
          s.queue.chars.length := by omega
      have hadvance : min count.toNat t.remaining = t.remaining := by omega
      rw [if_pos (show count > s.queue.chars.length by omega), hmin, hadvance,
        if_pos (show count - s.queue.chars.length > 0 by omega)]
      have hend := skipInput_reads hreads (Nat.lt_succ_of_le hreads.length_le)
      refine h.advance (Nat.le_refl _) hend ?_ ?_
      · rw [htext, hrem, ← List.length_append, List.drop_length]
        simp [PeekList.drop]
      · simp only [PeekList.drop]
        omega

/-- What a call has to meet: skipping more characters than the queue holds skips them all. -/
def Skippable (s : BufferOn PeekList) (t : TextCursor) : BufferCall → Prop
  | .skipChars count => count ≤ s.queue.chars.length ∨ t.remaining ≤ count
  | _ => True

/-- Every call of the run meets it. -/
def SkippableRun (table : UnicharDecompositionTable) :
    BufferOn PeekList → TextCursor → List BufferCall → Prop
  | _, _, [] => True
  | s, t, c :: cs => Skippable s t c ∧ SkippableRun table (s.call table c).2 (t.call c).2 cs

/-- A call answers as the cursor does, and the buffer follows the cursor again. -/
theorem Follows.call {c : BufferCall} (h : s.Follows table t) (hc : Skippable s t c) :
    (s.call table c).1 = (t.call c).1 ∧ (s.call table c).2.Follows table (t.call c).2 := by
  cases c with
  | getNextChar => exact h.getNextChar
  | peekNextChar => exact h.peekNextChar
  | resetPeekPointer =>
    obtain ⟨htext, _, hread⟩ := h
    exact ⟨rfl, htext, rfl, hread⟩
  | skipChars count => exact ⟨rfl, h.skipChars hc⟩

theorem Follows.answers_eq {calls : List BufferCall} (h : s.Follows table t)
    (hrun : SkippableRun table s t calls) :
    answers (BufferOn.call table) s calls = answers TextCursor.call t calls := by
  induction calls generalizing s t with
  | nil => rfl
  | cons c calls ih =>
    obtain ⟨hc, hrest⟩ := hrun
    obtain ⟨hanswer, hnext⟩ := h.call hc
    rw [answers, answers, hanswer, ih hnext hrest]

/-- A new buffer on the bounded list. -/
def opened (table : UnicharDecompositionTable) (str : Option (List UInt8)) (len : Int) :
    BufferOn PeekList :=
  ⟨.init table str len, .empty⟩

theorem follows_opened {str : Option (List UInt8)} {len : Int} {cs : List Unichar}
    (h : Delivers decodeNextUtf8CharToUnichar ⟨str, len⟩ cs) :
    (opened table str len).Follows table (.start (cs.flatMap (decomposition table))) :=
  ⟨⟨_, Utf8DecomposeIterator.reads_init h, rfl⟩, rfl, Nat.zero_le _⟩

/-- In every run without a partial skip beyond the queue, all answers are those of a cursor on the
decomposed text. -/
theorem answers_cursor {table : UnicharDecompositionTable} {str : Option (List UInt8)} {len : Int}
    {cs : List Unichar} (hcs : Delivers decodeNextUtf8CharToUnichar ⟨str, len⟩ cs)
    (calls : List BufferCall)
    (hrun : SkippableRun table (opened table str len) (.start (cs.flatMap (decomposition table)))
      calls) :
    answers (BufferOn.call table) (opened table str len) calls =
      answers TextCursor.call (.start (cs.flatMap (decomposition table))) calls :=
  (follows_opened hcs).answers_eq hrun

theorem delivers_abc :
    Delivers decodeNextUtf8CharToUnichar ⟨some [0x61, 0x62, 0x63], 3⟩ [0x61, 0x62, 0x63] :=
  .more rfl (.more rfl (.more rfl (.done rfl)))

theorem answers_cursor_abc :
    answers (BufferOn.call unicharDecompositionData)
        (opened unicharDecompositionData (some [0x61, 0x62, 0x63]) 3)
        [.peekNextChar, .peekNextChar, .skipChars 1, .peekNextChar, .getNextChar, .skipChars 5] =
      answers TextCursor.call
        (.start ([0x61, 0x62, 0x63].flatMap (decomposition unicharDecompositionData)))
        [.peekNextChar, .peekNextChar, .skipChars 1, .peekNextChar, .getNextChar, .skipChars 5] :=
  answers_cursor delivers_abc _ (by simp only [SkippableRun, Skippable]; decide +kernel)

/-- Nothing is queued when one of three characters is skipped, and all are lost. -/
theorem skipChars_loses :
    Delivers decodeNextUtf8CharToUnichar ⟨some [0x61, 0x62, 0x63], 3⟩ [0x61, 0x62, 0x63] ∧
    answers (BufferOn.call unicharDecompositionData)
        (opened unicharDecompositionData (some [0x61, 0x62, 0x63]) 3)
        [.skipChars 1, .getNextChar] = [none, none] ∧
    answers TextCursor.call
        (.start ([0x61, 0x62, 0x63].flatMap (decomposition unicharDecompositionData)))
        [.skipChars 1, .getNextChar] = [none, some 0x62] :=
  ⟨delivers_abc, by decide +kernel, by decide +kernel⟩

end BufferOn

end NdsDevkit.Collation
