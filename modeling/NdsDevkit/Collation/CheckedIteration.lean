import NdsDevkit.Collation.IteratorCorrect

namespace NdsDevkit.Collation

open Framework Text

/-- What a run with all checks made can stop at. -/
inductive Fault where
  /-- An index is neither a slot nor -1. -/
  | index
  /-- `assert(UnicharQueue_length(self) < UNICHAR_QUEUE_MAX_LENGTH)` in `push`. -/
  | push
  /-- `assert(UnicharQueue_length(self) > 0)` in `pop`. -/
  | pop
  /-- More characters are to be skipped than the queue holds. -/
  | skip
  /-- A loop is still running. -/
  | running
  deriving DecidableEq

namespace UnicharQueue

/-- `head` is a slot of the ring, `tail` and `peek` are slots or -1. -/
def InRange (self : UnicharQueue) : Prop :=
  (0 ≤ self.head ∧ self.head < unicharQueueMaxLength) ∧
    (-1 ≤ self.tail ∧ self.tail < unicharQueueMaxLength) ∧
    -1 ≤ self.peek ∧ self.peek < unicharQueueMaxLength

instance (self : UnicharQueue) : Decidable self.InRange :=
  inferInstanceAs (Decidable (_ ∧ _))

def checked (self : UnicharQueue) : Except Fault UnicharQueue :=
  if self.InRange then .ok self else .error .index

def checkedPush (self : UnicharQueue) (character : Unichar) :
    Except Fault (Bool × UnicharQueue) :=
  if self.head ≠ self.tail ∧ ¬ self.length < unicharQueueMaxLength then .error .push
  else do
    let queue ← (self.push character).2.checked
    return ((self.push character).1, queue)

def checkedPop (self : UnicharQueue) : Except Fault (Option Unichar × UnicharQueue) :=
  if ¬ self.tail < 0 ∧ ¬ self.length > 0 then .error .pop
  else do
    let queue ← self.pop.2.checked
    return (self.pop.1, queue)

def checkedPeekChar (self : UnicharQueue) : Except Fault (Option Unichar × UnicharQueue) := do
  let queue ← self.peekChar.2.checked
  return (self.peekChar.1, queue)

end UnicharQueue

variable (table : UnicharDecompositionTable)

namespace LookaheadBuffer

def checkedGetNextChar (self : LookaheadBuffer) :
    Except Fault (Option Unichar × LookaheadBuffer) := do
  match ← self.queue.checkedPop with
  | (some character, queue) => return (some character, { self with queue })
  | (none, _) =>
    let (character, it) := self.it.getNextCharacter table
    return (character, { self with it })

def checkedPeekNextChar (self : LookaheadBuffer) :
    Except Fault (Option Unichar × LookaheadBuffer) := do
  match ← self.queue.checkedPeekChar with
  | (some character, queue) => return (some character, { self with queue })
  | (none, _) =>
    if self.queue.isFull then return (none, self)
    else
      match self.it.getNextCharacter table with
      | (some character, it) =>
        match ← self.queue.checkedPush character with
        | (true, queue) =>
          let (character, queue) ← queue.checkedPeekChar
          return (character, ⟨it, queue⟩)
        | (false, queue) => return (none, ⟨it, queue⟩)
      | (none, it) => return (none, { self with it })

def checkedSkipChars (self : LookaheadBuffer) (count : Int) : Except Fault LookaheadBuffer :=
  if count > self.queue.length then .error .skip
  else do
    let queue ← (self.skipChars table count).queue.checked
    return { self.skipChars table count with queue }

def checkedResetPeekPointer (self : LookaheadBuffer) : Except Fault LookaheadBuffer := do
  let queue ← self.queue.resetPeekIndex.checked
  return { self with queue }

end LookaheadBuffer

def checkedSkipCombiningMarksLoop : Nat → LookaheadBuffer → Except Fault LookaheadBuffer
  | 0, _ => .error .running
  | n + 1, lookaheadBuffer => do
    match ← lookaheadBuffer.checkedPeekNextChar table with
    | (some c, lookaheadBuffer) =>
      if unicharIsCombiningMark c then
        checkedSkipCombiningMarksLoop n (← lookaheadBuffer.checkedSkipChars table 1)
      else return lookaheadBuffer
    | (none, lookaheadBuffer) => return lookaheadBuffer

def checkedSkipCombiningMarks (lookaheadBuffer : LookaheadBuffer) :
    Except Fault LookaheadBuffer :=
  checkedSkipCombiningMarksLoop table
    (lookaheadBuffer.queue.length.toNat + (lookaheadBuffer.it.pending table).length + 1)
    lookaheadBuffer

/-- The walk, with the check of each peek made before the pass that peeks. -/
def checkedTrieWalk (parseStyle : CollationParseStyle) : Nat → TrieWalk → Except Fault TrieWalk
  | 0, _ => .error .running
  | n + 1, s => do
    if s.node.isSome then
      let _ ← s.lookaheadBuffer.checkedPeekNextChar table
    match trieWalkBody table parseStyle s with
    | .exit s => return s
    | .again s => checkedTrieWalk parseStyle n s

def checkedGetNextCEArrayFromTrie (cd : CollationData) (lookaheadBuffer : LookaheadBuffer) :
    Except Fault (Option CEArray × LookaheadBuffer) :=
  match cd.trie with
  | none => return (none, lookaheadBuffer)
  | some collationTrie => do
    match ← lookaheadBuffer.checkedGetNextChar table with
    | (none, lookaheadBuffer) => return (none, lookaheadBuffer)
    | (some c, lookaheadBuffer) =>
      let walk ← checkedTrieWalk table cd.parseStyle (unicharQueueMaxLength + 1)
        ⟨findTrieNode collationTrie c, none, 0, 0, lookaheadBuffer⟩
      match walk.lastValid with
      | some elements =>
        let lookaheadBuffer ← walk.lookaheadBuffer.checkedSkipChars table walk.lastValidDepth
        return (some elements, ← lookaheadBuffer.checkedResetPeekPointer)
      | none =>
        let lookaheadBuffer ← if cd.parseStyle = .combiningMarkSubset then
          checkedSkipCombiningMarks table walk.lookaheadBuffer else pure walk.lookaheadBuffer
        return (some (.single undefinedCE), ← lookaheadBuffer.checkedResetPeekPointer)

def checkedGetNextCEArrayFromSimpleEntries (cd : CollationData)
    (lookaheadBuffer : LookaheadBuffer) : Except Fault (Option CEArray × LookaheadBuffer) :=
  match cd.simpleEntries with
  | none => return (none, lookaheadBuffer)
  | some simpleEntries => do
    match ← lookaheadBuffer.checkedPeekNextChar table with
    | (none, lookaheadBuffer) => return (none, lookaheadBuffer)
    | (some c, lookaheadBuffer) =>
      match findSimpleEntry simpleEntries c with
      | none => return (none, ← lookaheadBuffer.checkedResetPeekPointer)
      | some entry =>
        let lookaheadBuffer ← lookaheadBuffer.checkedSkipChars table 1
        if cd.parseStyle = .combiningMarkSubset then
          let lookaheadBuffer ← checkedSkipCombiningMarks table lookaheadBuffer
          return (some (.single entry.collationElement),
            ← lookaheadBuffer.checkedResetPeekPointer)
        else return (some (.single entry.collationElement), lookaheadBuffer)

def checkedGetNextCEArray (cd : CollationData) (lookaheadBuffer : LookaheadBuffer) :
    Except Fault (Option CEArray × LookaheadBuffer) := do
  match ← checkedGetNextCEArrayFromSimpleEntries table cd lookaheadBuffer with
  | (some elements, lookaheadBuffer) => return (some elements, lookaheadBuffer)
  | (none, lookaheadBuffer) => checkedGetNextCEArrayFromTrie table cd lookaheadBuffer

namespace CollationElementIterator

def checkedGetNext (cd : CollationData) (self : CollationElementIterator) :
    Except Fault (Option CollationElement × CollationElementIterator) :=
  match cd.trie, self.currentCEArray with
  | none, _ => return (none, self)
  | some _, collationElement :: currentCEArray =>
    return (some collationElement, { self with currentCEArray })
  | some _, [] => do
    match ← checkedGetNextCEArray table cd self.lookaheadBuffer with
    | (none, lookaheadBuffer) => return (none, { self with lookaheadBuffer })
    | (some elements, lookaheadBuffer) =>
      return (some elements.first, ⟨lookaheadBuffer, elements.val.tail⟩)

/-- Whether the next call fetches an element array. -/
def fetches (cd : CollationData) (self : CollationElementIterator) : Nat :=
  if self.currentCEArray = [] ∧ (self.getNext table cd).1.isSome then 1 else 0

/-- The states that calls of `getNext` lead to, also after it has returned false, with the number
of element arrays fetched on the way. -/
inductive Reaches (cd : CollationData) (start : CollationElementIterator) :
    CollationElementIterator → Nat → Prop where
  | refl : Reaches cd start start 0
  | call {it fetched} (h : Reaches cd start it fetched) :
    Reaches cd start (it.getNext table cd).2 (fetched + it.fetches table cd)

end CollationElementIterator

namespace UnicharQueue

variable {q : UnicharQueue} {slot p : Nat} {xs : List Unichar}

theorem Holds.inRange (h : q.Holds slot xs p) : q.InRange := by
  have hs := h.slot_lt
  have hhead := h.head
  have htail := h.tail
  have hpeek := h.peek
  rw [InRange, unicharQueueMaxLength]
  split_ifs at htail hpeek <;> omega

theorem Holds.checked (h : q.Holds slot xs p) : q.checked = .ok q := if_pos h.inRange

theorem Holds.checkedPush (h : q.Holds slot xs p) (hl : xs.length < 5) (c : Unichar) :
    q.checkedPush c = .ok (q.push c) := by
  obtain ⟨q', hpush, hq'⟩ := h.push hl c
  have hassert : ¬ (q.head ≠ q.tail ∧ ¬ q.length < unicharQueueMaxLength) := by
    rw [h.length_eq, unicharQueueMaxLength]
    omega
  rw [UnicharQueue.checkedPush, if_neg hassert, hpush, hq'.checked]
  rfl

theorem Holds.checkedPop (h : q.Holds slot xs p) : q.checkedPop = .ok q.pop := by
  have hassert : ¬ (¬ q.tail < 0 ∧ ¬ q.length > 0) := by
    have htail := h.tail
    rw [h.length_eq]
    split_ifs at htail <;> omega
  rw [UnicharQueue.checkedPop, if_neg hassert]
  cases xs with
  | nil =>
    rw [h.pop_nil, h.checked]
    rfl
  | cons c xs =>
    obtain ⟨q', hpop, hq'⟩ := h.pop_cons
    rw [hpop, hq'.checked]
    rfl

theorem Holds.checkedPeekChar (h : q.Holds slot xs p) : q.checkedPeekChar = .ok q.peekChar := by
  rw [UnicharQueue.checkedPeekChar]
  rcases Nat.lt_or_ge p xs.length with hlt | hge
  · obtain ⟨q', hpeek, hq'⟩ := h.peekChar_lt hlt
    rw [hpeek, hq'.checked]
    rfl
  · have hend : p = xs.length := Nat.le_antisymm h.peek_le hge
    subst hend
    rw [h.peekChar_end, h.checked]
    rfl

end UnicharQueue

variable {table} {w : LookaheadBuffer.Window} {lb : LookaheadBuffer} {p : Nat}

namespace LookaheadBuffer

theorem Shows.inRange (h : lb.Shows table w p) : lb.queue.InRange := by
  obtain ⟨xs, _, hq, _⟩ := h.holds
  exact hq.inRange

theorem Shows.checkedGetNextChar (h : lb.Shows table w p) :
    lb.checkedGetNextChar table = .ok (lb.getNextChar table) := by
  obtain ⟨xs, _, hq, _⟩ := h.holds
  rw [LookaheadBuffer.checkedGetNextChar, LookaheadBuffer.getNextChar, hq.checkedPop]
  rcases lb.queue.pop with ⟨_ | c, q⟩ <;> rfl

theorem Shows.checkedPeekNextChar (h : lb.Shows table w p) :
    lb.checkedPeekNextChar table = .ok (lb.peekNextChar table) := by
  obtain ⟨xs, _, hq, _⟩ := h.holds
  rw [LookaheadBuffer.checkedPeekNextChar, LookaheadBuffer.peekNextChar, hq.checkedPeekChar]
  rcases lb.queue.peekChar with ⟨_ | c, q⟩
  · simp only [bind, Except.bind]
    split
    · rfl
    · next hfull =>
      rcases lb.it.getNextCharacter table with ⟨_ | c, it⟩
      · rfl
      · have hlt : xs.length < 5 := by
          have hl := hq.length_le
          rw [hq.isFull_iff] at hfull
          omega
        obtain ⟨q', hpush, hq'⟩ := hq.push hlt c
        simp only [hq.checkedPush hlt, hpush, hq'.checkedPeekChar]
        rfl
  · rfl

theorem Shows.checkedSkipChars {n : Nat} (h : lb.Shows table w p) (hn : n ≤ p) :
    lb.checkedSkipChars table n = .ok (lb.skipChars table n) := by
  obtain ⟨xs, hlen, hq, _⟩ := h.holds
  obtain ⟨xs', _, hq', _⟩ := (h.skipChars hn).holds
  have hp := hq.peek_le
  have hle : ¬ (n : Int) > lb.queue.length := by
    rw [hq.length_eq]
    omega
  rw [LookaheadBuffer.checkedSkipChars, if_neg hle, hq'.checked]
  rfl

theorem Shows.checkedResetPeekPointer (h : lb.Shows table w p) :
    lb.checkedResetPeekPointer = .ok lb.resetPeekPointer := by
  obtain ⟨xs, _, hq, _⟩ := h.resetPeekPointer.holds
  rw [LookaheadBuffer.checkedResetPeekPointer]
  have hreset : lb.queue.resetPeekIndex.checked = .ok lb.queue.resetPeekIndex := hq.checked
  rw [hreset]
  rfl

end LookaheadBuffer

open LookaheadBuffer

theorem checkedSkipCombiningMarksLoop_eq {n : Nat} (h : lb.Shows table w p)
    (hn : w.chars.length < n) :
    checkedSkipCombiningMarksLoop table n lb = .ok (skipCombiningMarksLoop table n lb) := by
  induction n generalizing lb w with
  | zero => omega
  | succ n ih =>
    rw [checkedSkipCombiningMarksLoop, skipCombiningMarksLoop, h.checkedPeekNextChar]
    by_cases hend : p = 5 ∨ w.chars[p]? = none
    · obtain ⟨lb', hpk, _⟩ := h.peekNextChar_none hend
      rw [hpk]
      rfl
    · obtain ⟨h5, hsome⟩ := not_or.mp hend
      obtain ⟨c, hc⟩ := Option.ne_none_iff_exists'.mp hsome
      obtain ⟨hp, hq⟩ := h.peek_le
      obtain ⟨lb', hpk, hs', hsk, hlt⟩ := h.skipPeeked (by omega) hc
      have hcheck : lb'.checkedSkipChars table 1 = .ok (lb'.skipChars table 1) :=
        hs'.checkedSkipChars (n := 1) (by omega)
      rw [hpk]
      simp only [bind, Except.bind, hcheck, ih hsk (by omega)]
      split <;> rfl

theorem checkedSkipCombiningMarks_eq (h : lb.Shows table w p) :
    checkedSkipCombiningMarks table lb = .ok (skipCombiningMarks table lb) :=
  checkedSkipCombiningMarksLoop_eq h (by rw [h.length_eq]; exact Nat.lt_succ_self _)

/-- What holds between the passes of a walk: each character it went past has been peeked. -/
structure TrieWalk.Peeked (table : UnicharDecompositionTable) (s : TrieWalk) : Prop where
  shows : ∃ w, s.lookaheadBuffer.Shows table w s.currentDepth
  lastValidDepth_le : s.lastValidDepth ≤ s.currentDepth

theorem TrieWalk.Peeked.depth_le {s : TrieWalk} (h : s.Peeked table) : s.currentDepth ≤ 5 := by
  obtain ⟨w, hs⟩ := h.shows
  obtain ⟨hp, hq⟩ := hs.peek_le
  omega

/-- A pass either ends the walk or peeks one more character. -/
theorem TrieWalk.Peeked.body {s : TrieWalk} (h : s.Peeked table) (style : CollationParseStyle) :
    (∃ s', trieWalkBody table style s = .exit s' ∧ s'.Peeked table) ∨
      ∃ s', trieWalkBody table style s = .again s' ∧ s'.Peeked table ∧
        s'.currentDepth = s.currentDepth + 1 := by
  obtain ⟨⟨w, hs⟩, hle⟩ := h
  obtain ⟨node, lastValid, lastValidDepth, currentDepth, lb⟩ := s
  simp only at hs hle
  cases node with
  | none => exact .inl ⟨_, rfl, ⟨w, hs⟩, hle⟩
  | some node =>
    have hp := hs.peek_le
    by_cases hend : currentDepth = 5 ∨ w.chars[currentDepth]? = none
    · obtain ⟨lb', hpk, hs'⟩ := hs.peekNextChar_none hend
      refine .inl ?_
      rw [trieWalkBody]
      cases he : node.collationElements with
      | none =>
        simp only [he, Option.isSome_none, Bool.false_eq_true, if_false, hpk]
        refine ⟨_, rfl, ?_⟩
        exact ⟨⟨w, hs'⟩, hle⟩
      | some elements =>
        simp only [he, Option.isSome_some, if_true, hpk]
        refine ⟨_, rfl, ?_⟩
        exact ⟨⟨w, hs'⟩, Nat.le_refl _⟩
    · obtain ⟨h5, hsome⟩ := not_or.mp hend
      obtain ⟨c, hc⟩ := Option.ne_none_iff_exists'.mp hsome
      obtain ⟨lb', hpk, hs'⟩ := hs.peekNextChar_some (by omega) hc
      refine .inr ?_
      rw [trieWalkBody]
      cases he : node.collationElements with
      | none =>
        simp only [he, Option.isSome_none, Bool.false_eq_true, if_false, hpk]
        split
        · refine ⟨_, rfl, ?_, rfl⟩
          exact ⟨⟨_, hs'⟩, Nat.le_succ_of_le hle⟩
        · refine ⟨_, rfl, ?_, rfl⟩
          exact ⟨⟨_, hs'⟩, Nat.le_succ_of_le hle⟩
      | some elements =>
        simp only [he, Option.isSome_some, if_true, hpk]
        split
        · refine ⟨_, rfl, ?_, rfl⟩
          exact ⟨⟨_, hs'⟩, Nat.le_refl _⟩
        · refine ⟨_, rfl, ?_, rfl⟩
          exact ⟨⟨_, hs'⟩, Nat.le_succ _⟩

/-- The walk comes to its end within six passes. -/
theorem checkedTrieWalk_spec {n : Nat} {s : TrieWalk} (style : CollationParseStyle)
    (h : s.Peeked table) (hn : 5 < s.currentDepth + n) :
    ∃ s', checkedTrieWalk table style n s = .ok s' ∧
      loop (trieWalkBody table style) n s = some s' ∧ s'.Peeked table := by
  induction n generalizing s with
  | zero =>
    have := h.depth_le
    omega
  | succ n ih =>
    obtain ⟨w, hs⟩ := h.shows
    have hpeeks : checkedTrieWalk table style (n + 1) s =
        match trieWalkBody table style s with
        | .exit s => .ok s
        | .again s => checkedTrieWalk table style n s := by
      rw [checkedTrieWalk]
      split
      · rw [hs.checkedPeekNextChar]
        rfl
      · rfl
    rcases h.body style with ⟨s', hbody, h'⟩ | ⟨s', hbody, h', hdepth⟩
    · refine ⟨s', ?_, loop_exit hbody n, h'⟩
      rw [hpeeks, hbody]
    · obtain ⟨t, hrun, hloop, ht⟩ := ih h' (by omega)
      refine ⟨t, ?_, ?_, ht⟩
      · rw [hpeeks, hbody]
        exact hrun
      · rw [loop_again hbody]
        exact hloop

variable (cd : CollationData)

theorem checkedGetNextCEArrayFromTrie_eq (h : lb.Shows table w 0) :
    checkedGetNextCEArrayFromTrie table cd lb = .ok (getNextCEArrayFromTrie table cd lb) := by
  rw [checkedGetNextCEArrayFromTrie, getNextCEArrayFromTrie]
  cases cd.trie with
  | none => rfl
  | some root =>
    simp only [h.checkedGetNextChar, bind, Except.bind]
    cases hw : w.chars with
    | nil =>
      obtain ⟨lb1, hg, _⟩ := h.getNextChar_nil hw
      rw [hg]
      rfl
    | cons c l =>
      obtain ⟨lb1, hg, hs1⟩ := h.getNextChar_cons hw
      have hstart : TrieWalk.Peeked table ⟨findTrieNode root c, none, 0, 0, lb1⟩ :=
        ⟨⟨_, hs1⟩, Nat.le_refl _⟩
      obtain ⟨walk, hrun, hloop, ⟨w', hs⟩, hle⟩ :=
        checkedTrieWalk_spec cd.parseStyle hstart (n := unicharQueueMaxLength + 1)
          (Nat.lt_succ_self 5)
      have hwalk : trieWalk table cd.parseStyle ⟨findTrieNode root c, none, 0, 0, lb1⟩ = walk := by
        rw [trieWalk, hloop]
        rfl
      simp only [hg, hrun, hwalk]
      cases walk.lastValid with
      | some elements =>
        simp only [hs.checkedSkipChars hle, (hs.skipChars hle).checkedResetPeekPointer]
        rfl
      | none =>
        by_cases hstyle : cd.parseStyle = .combiningMarkSubset
        · obtain ⟨p', hs'⟩ := skipCombiningMarks_spec hs
          simp only [if_pos hstyle, checkedSkipCombiningMarks_eq hs, hs'.checkedResetPeekPointer]
          rfl
        · simp only [if_neg hstyle, pure, Except.pure, hs.checkedResetPeekPointer]

theorem checkedGetNextCEArrayFromSimpleEntries_eq (h : lb.Shows table w 0) :
    checkedGetNextCEArrayFromSimpleEntries table cd lb =
      .ok (getNextCEArrayFromSimpleEntries table cd lb) := by
  rw [checkedGetNextCEArrayFromSimpleEntries, getNextCEArrayFromSimpleEntries]
  cases cd.simpleEntries with
  | none => rfl
  | some entries =>
    simp only [h.checkedPeekNextChar, bind, Except.bind]
    cases hw : w.chars with
    | nil =>
      obtain ⟨lb1, hpk, _⟩ := h.peekNextChar_none (.inr (by rw [hw]; rfl))
      rw [hpk]
      rfl
    | cons c l =>
      obtain ⟨lb1, hpk, hs1, hsk, _⟩ := h.skipPeeked (c := c) (by omega) (by rw [hw]; rfl)
      simp only [hpk]
      cases findSimpleEntry entries c with
      | none =>
        simp only [hs1.checkedResetPeekPointer]
        rfl
      | some entry =>
        have hcheck : lb1.checkedSkipChars table 1 = .ok (lb1.skipChars table 1) :=
          hs1.checkedSkipChars (n := 1) (Nat.le_refl _)
        simp only [hcheck]
        by_cases hstyle : cd.parseStyle = .combiningMarkSubset
        · obtain ⟨p', hs'⟩ := skipCombiningMarks_spec hsk
          simp only [if_pos hstyle, checkedSkipCombiningMarks_eq hsk, hs'.checkedResetPeekPointer]
          rfl
        · simp only [if_neg hstyle]
          rfl

theorem checkedGetNextCEArray_eq (h : lb.Shows table w 0) :
    checkedGetNextCEArray table cd lb = .ok (getNextCEArray table cd lb) := by
  rw [checkedGetNextCEArray, getNextCEArray, checkedGetNextCEArrayFromSimpleEntries_eq cd h]
  cases hw : w.chars with
  | nil =>
    obtain ⟨lb1, hs, hs1⟩ := getNextCEArrayFromSimpleEntries_none cd h (by simp [hw])
    rw [hs]
    exact checkedGetNextCEArrayFromTrie_eq cd hs1
  | cons c l =>
    cases he : cd.simpleEntries.bind fun entries => findSimpleEntry entries c with
    | some entry =>
      obtain ⟨lb1, hs, _⟩ := getNextCEArrayFromSimpleEntries_some h hw he
      rw [hs]
      rfl
    | none =>
      obtain ⟨lb1, hs, hs1⟩ := getNextCEArrayFromSimpleEntries_none cd h (by simpa [hw] using he)
      rw [hs]
      exact checkedGetNextCEArrayFromTrie_eq cd hs1

namespace CollationElementIterator

variable {it : CollationElementIterator} {rest : List CollationElement}

theorem At.checkedGetNext (h : it.At table (w, rest)) :
    it.checkedGetNext table cd = .ok (it.getNext table cd) := by
  rw [CollationElementIterator.checkedGetNext, CollationElementIterator.getNext]
  cases cd.trie with
  | none => rfl
  | some root =>
    cases it.currentCEArray with
    | cons collationElement rest => rfl
    | nil =>
      simp only [checkedGetNextCEArray_eq cd h.shows, bind, Except.bind]
      rcases getNextCEArray table cd it.lookaheadBuffer with ⟨_ | elements, lb⟩ <;> rfl

/-- Each array that is fetched takes a character. -/
theorem At.getNext_reaches (h : it.At table (w, rest)) :
    ∃ w' rest', (it.getNext table cd).2.At table (w', rest') ∧
      it.fetches table cd + w'.chars.length ≤ w.chars.length := by
  obtain ⟨lb, current⟩ := it
  obtain ⟨hs, rfl⟩ := h
  rw [CollationElementIterator.fetches, CollationElementIterator.getNext]
  cases cd.trie with
  | none => exact ⟨w, current, ⟨hs, rfl⟩, by simp⟩
  | some root =>
    cases current with
    | cons collationElement rest => exact ⟨w, rest, ⟨hs, rfl⟩, by simp⟩
    | nil =>
      rcases getNextCEArray_spec cd hs with ⟨_, w', lb', hg, hs', hw⟩ |
        ⟨elements, w', lb', hf, hg, hs'⟩
      · simp only [hg]
        exact ⟨w', [], ⟨hs', rfl⟩, by simp [hw]⟩
      · have hlt := Window.length_fetch_lt hs.slot_lt hf
        simp only [hg]
        refine ⟨w', elements.val.tail, ⟨hs', rfl⟩, ?_⟩
        simp only [Option.isSome_some, and_self, if_true] at hlt ⊢
        omega

/-- The iterator stands on a window of what is left, and each array so far has taken a
character. -/
theorem Reaches.at {start it : CollationElementIterator} {fetched : Nat}
    (hr : start.Reaches table cd it fetched) (h : start.At table (w, rest)) :
    ∃ w' rest', it.At table (w', rest') ∧ fetched + w'.chars.length ≤ w.chars.length := by
  induction hr with
  | refl => exact ⟨w, rest, h, by omega⟩
  | call _ ih =>
    obtain ⟨w1, rest1, h1, hle1⟩ := ih
    obtain ⟨w2, rest2, h2, hle2⟩ := h1.getNext_reaches cd
    exact ⟨w2, rest2, h2, by omega⟩

end CollationElementIterator

/-- Iteration comes to an end, and whatever state the calls lead to, the next one stops at no
check. No more element arrays are fetched than there are characters. -/
theorem iteration_safe (table : UnicharDecompositionTable) (cd : CollationData)
    (queue : UnicharQueue) (str : List UInt8) :
    (∃ ces, Delivers (CollationElementIterator.getNext table cd) (iteratorFor table queue str)
      ces) ∧
    ∀ it fetched, (iteratorFor table queue str).Reaches table cd it fetched →
      it.checkedGetNext table cd = .ok (it.getNext table cd) ∧
      it.lookaheadBuffer.queue.InRange ∧
      fetched ≤ (decomposedChars table str).length := by
  have hat := iteratorFor_at table queue str
  constructor
  · obtain ⟨ces, hd⟩ := windowNext_delivers cd hat.shows
    exact ⟨ces, hat.delivers hd⟩
  · intro it fetched hr
    obtain ⟨w, rest, h, hle⟩ := hr.at cd hat
    exact ⟨h.checkedGetNext cd, h.shows.inRange, by simp only at hle; omega⟩

end NdsDevkit.Collation
