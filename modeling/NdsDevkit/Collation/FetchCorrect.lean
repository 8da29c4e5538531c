import NdsDevkit.Framework.KeyRuns
import NdsDevkit.Collation.Reference

namespace NdsDevkit.Collation

open Framework Text

namespace LookaheadBuffer.Window

/-- Marks from the peek position on are dropped from the front. -/
def skipMarks (w : Window) (p : Nat) : Window :=
  let marks := ((w.chars.drop p).takeWhile unicharIsCombiningMark).length
  if p < 5 then
    { slot := (w.slot + marks) % 5
      queued := max (w.queued - marks) (if (w.chars.drop (p + marks)).isEmpty then p else p + 1)
      chars := w.chars.drop marks }
  else w

def ignoreMarks (cd : CollationData) (w : Window) (p : Nat) : Window :=
  if cd.parseStyle = .combiningMarkSubset then w.skipMarks p else w

/-- The search in the trie, after the first character has been taken. -/
def trieFetch (cd : CollationData) (root : CollationTrieNode) (c : Unichar) (w : Window) :
    CEArray × Window :=
  match findTrieNode root c with
  | none => (.single undefinedCE, w.ignoreMarks cd 0)
  | some node =>
    let p := walked findTrieNode cd.parseStyle unicharQueueMaxLength node w.chars
    match longestMatch findTrieNode cd.parseStyle unicharQueueMaxLength node w.chars with
    | some (elements, depth) => (elements, (w.peeked p).skip depth)
    | none => (.single undefinedCE, (w.peeked p).ignoreMarks cd p)

/-- What fetching an element array does to the window. -/
def fetch (cd : CollationData) (w : Window) : Option (CEArray × Window) :=
  match w.chars with
  | [] => none
  | c :: _ =>
    match cd.simpleEntries.bind fun entries => findSimpleEntry entries c with
    | some entry =>
      some (.single entry.collationElement, ((w.peeked 1).skip 1).ignoreMarks cd 0)
    | none =>
      let w := if cd.simpleEntries.isSome then w.peeked 1 else w
      cd.trie.map fun root => w.pop.trieFetch cd root c

variable {w : Window} {p : Nat}

@[simp] theorem pop_chars (w : Window) : w.pop.chars = w.chars.tail := by
  rw [pop]
  split <;> rfl

@[simp] theorem skip_chars (w : Window) (n : Nat) :
    (w.skip n).chars = w.chars.drop (w.dropped n) := rfl

theorem skipMarks_five (w : Window) : w.skipMarks 5 = w := rfl

theorem skipMarks_nil (hs : w.slot < 5) (hp : p ≤ w.queued) (hl : w.chars.drop p = []) :
    w.skipMarks p = w := by
  rw [skipMarks]
  split
  · ext : 1
    · simp [hl, Nat.mod_eq_of_lt hs]
    · simp [hl, hp]
    · simp [hl]
  · rfl

theorem skipMarks_stop {c : Unichar} {l : List Unichar} (h5 : p < 5) (hs : w.slot < 5)
    (hl : w.chars.drop p = c :: l) (hc : unicharIsCombiningMark c = false) :
    w.skipMarks p = w.peeked (p + 1) := by
  rw [skipMarks]
  rw [if_pos h5]
  ext : 1
  · simp [hl, hc, Nat.mod_eq_of_lt hs]
  · simp [hl, hc, peeked]
  · simp [hl, hc]

theorem skipMarks_mark {c : Unichar} {l : List Unichar} (h5 : p < 5) (hs : w.slot < 5)
    (hl : w.chars.drop p = c :: l) (hc : unicharIsCombiningMark c = true) :
    w.skipMarks p = ((w.peeked (p + 1)).skip 1).skipMarks p := by
  have htail : w.chars.tail.drop p = l := by
    rw [List.drop_tail, ← List.tail_drop, hl, List.tail_cons]
  rw [skip_one (by simpa using hs)]
  unfold skipMarks
  simp only [if_pos h5, peeked_chars, peeked_slot, htail, hl, List.takeWhile_cons, hc, if_true,
    List.length_cons]
  generalize (l.takeWhile unicharIsCombiningMark).length = k
  have hdrop : w.chars.tail.drop (p + k) = w.chars.drop (p + (k + 1)) := by
    rw [List.drop_tail]
    rfl
  ext : 1
  · simp only
    omega
  · simp only [hdrop, peeked]
    split <;> omega
  · simp only [List.drop_tail]

theorem skipMarks_chars_zero (w : Window) :
    (w.skipMarks 0).chars = w.chars.dropWhile unicharIsCombiningMark := by
  rw [skipMarks]
  rw [if_pos (by omega), List.drop_zero]
  exact drop_length_takeWhile _ w.chars

theorem fetch_nil (cd : CollationData) (hw : w.chars = []) : w.fetch cd = none := by
  simp [fetch, hw]

theorem fetch_cons {c : Unichar} {l : List Unichar} (cd : CollationData)
    (hw : w.chars = c :: l) : w.fetch cd =
      match cd.simpleEntries.bind fun entries => findSimpleEntry entries c with
      | some entry =>
        some (.single entry.collationElement, ((w.peeked 1).skip 1).ignoreMarks cd 0)
      | none => cd.trie.map fun root =>
          (if cd.simpleEntries.isSome then w.peeked 1 else w).pop.trieFetch cd root c := by
  simp [fetch, hw]

end LookaheadBuffer.Window

variable {table : UnicharDecompositionTable}

open LookaheadBuffer

/-- The loop over the marks, from any peek position. -/
theorem skipCombiningMarksLoop_spec {n p : Nat} {lb : LookaheadBuffer} {w : Window}
    (h : lb.Shows table w p) (hn : w.chars.length < n) :
    ∃ p', (skipCombiningMarksLoop table n lb).Shows table (w.skipMarks p) p' := by
  have hs := h.slot_lt
  obtain ⟨hp, hq⟩ := h.peek_le
  induction n generalizing lb w with
  | zero => omega
  | succ n ih =>
    rcases Nat.lt_or_ge p 5 with h5 | h5
    · cases hl : w.chars.drop p with
      | nil =>
        obtain ⟨lb', hpk, hs'⟩ :=
          h.peekNextChar_none (.inr (by rw [List.getElem?_eq_none_iff, ← List.drop_eq_nil_iff, hl]))
        rw [Window.skipMarks_nil hs hp hl]
        exact ⟨p, by simpa [skipCombiningMarksLoop, hpk] using hs'⟩
      | cons c l =>
        have hc : w.chars[p]? = some c := by
          rw [← List.head?_drop, hl, List.head?_cons]
        obtain ⟨lb', hpk, hs', hsk, hlt⟩ := h.skipPeeked h5 hc
        cases hm : unicharIsCombiningMark c with
        | false =>
          rw [Window.skipMarks_stop h5 hs hl hm]
          exact ⟨p + 1, by simpa [skipCombiningMarksLoop, hpk, hm] using hs'⟩
        | true =>
          have hlen : ((w.peeked (p + 1)).skip 1).chars.length < n := by omega
          obtain ⟨p', hend⟩ := ih hsk hlen hsk.slot_lt hsk.peek_le.1 hsk.peek_le.2
          rw [Window.skipMarks_mark h5 hs hl hm]
          exact ⟨p', by simpa [skipCombiningMarksLoop, hpk, hm] using hend⟩
    · have hp5 : p = 5 := by omega
      subst hp5
      obtain ⟨lb', hpk, hs'⟩ := h.peekNextChar_none (.inl rfl)
      rw [Window.skipMarks_five]
      exact ⟨5, by simpa [skipCombiningMarksLoop, hpk] using hs'⟩

theorem skipCombiningMarks_spec {p : Nat} {lb : LookaheadBuffer} {w : Window}
    (h : lb.Shows table w p) :
    ∃ p', (skipCombiningMarks table lb).Shows table (w.skipMarks p) p' :=
  skipCombiningMarksLoop_spec h (by rw [h.length_eq]; exact Nat.lt_succ_self _)

/-- The match a walk has recorded. -/
def TrieWalk.found (s : TrieWalk) : Option (CEArray × Nat) :=
  s.lastValid.map fun elements => (elements, s.lastValidDepth)

section Walk

variable (style : CollationParseStyle) {s : TrieWalk} {node : CollationTrieNode}
  {lb : LookaheadBuffer}

theorem trieWalkBody_stop (hn : s.node = none) : trieWalkBody table style s = .exit s := by
  simp [trieWalkBody, hn]

/-- A pass that cannot peek records the node and ends the walk. -/
theorem trieWalkBody_end (hn : s.node = some node)
    (hpk : s.lookaheadBuffer.peekNextChar table = (none, lb)) :
    ∃ s', trieWalkBody table style s = .exit s' ∧ s'.lookaheadBuffer = lb ∧
      s'.found = (node.collationElements.map (·, s.currentDepth)).or s.found := by
  cases he : node.collationElements with
  | none => exact ⟨{ s with lookaheadBuffer := lb }, by simp [trieWalkBody, hn, hpk, he], rfl, rfl⟩
  | some elements =>
    exact ⟨⟨s.node, some elements, s.currentDepth, s.currentDepth, lb⟩,
      by simp [trieWalkBody, hn, hpk, he], rfl, rfl⟩

/-- A pass that peeks a character records the node and moves on. -/
theorem trieWalkBody_peek {c : Unichar} (hn : s.node = some node)
    (hpk : s.lookaheadBuffer.peekNextChar table = (some c, lb)) :
    ∃ s', trieWalkBody table style s = .again s' ∧ s'.lookaheadBuffer = lb ∧
      s'.node = nextNode findTrieNode style node c ∧ s'.currentDepth = s.currentDepth + 1 ∧
      (s'.found = (node.collationElements.map (·, s.currentDepth)).or s.found ∨
        (nextNode findTrieNode style node c = some node ∧ node.collationElements.isSome)) := by
  rw [trieWalkBody, nextNode, ignores]
  simp only [hn]
  cases he : node.collationElements with
  | none =>
    simp only [Option.isSome_none, Bool.false_eq_true, if_false, hpk]
    split
    · next hc =>
      obtain ⟨h1, h2, h3⟩ := hc
      rw [Option.isNone_iff_eq_none] at h1
      exact ⟨_, rfl, rfl, by simp [hn, h1, h2, h3], rfl, .inl rfl⟩
    · next hc =>
      refine ⟨_, rfl, rfl, ?_, rfl, .inl rfl⟩
      cases hf : findTrieNode node c with
      | some next => rfl
      | none =>
        rw [hf] at hc
        simp only [Option.isNone_none, true_and] at hc
        simp [hc]
  | some elements =>
    simp only [Option.isSome_some, if_true, hpk]
    split
    · next hc =>
      obtain ⟨h1, h2, h3⟩ := hc
      rw [Option.isNone_iff_eq_none] at h1
      exact ⟨_, rfl, rfl, by simp [h1, h2, h3], rfl, .inr ⟨by simp [h1, h2, h3], trivial⟩⟩
    · next hc =>
      refine ⟨_, rfl, rfl, ?_, rfl, .inl rfl⟩
      cases hf : findTrieNode node c with
      | some next => rfl
      | none =>
        rw [hf] at hc
        simp only [Option.isNone_none, true_and] at hc
        simp [hc]

/-- Where nothing can be peeked the walk ends with its node. -/
theorem trieWalk_end {budget : Nat} {w : Window} (hn : s.node = some node)
    (h : s.lookaheadBuffer.Shows table w s.currentDepth)
    (hend : s.currentDepth = 5 ∨ w.chars.drop s.currentDepth = []) :
    ∃ s', loop (trieWalkBody table style) (budget + 1) s = some s' ∧
      s'.lookaheadBuffer.Shows table w s.currentDepth ∧
      s'.found = ((node.collationElements.map (·, 0)).map
        fun m => (m.1, s.currentDepth + m.2)).or s.found := by
  have hnone : s.currentDepth = 5 ∨ w.chars[s.currentDepth]? = none := by
    rwa [List.getElem?_eq_none_iff, ← List.drop_eq_nil_iff]
  obtain ⟨lb, hpk, hs⟩ := h.peekNextChar_none hnone
  obtain ⟨s', hbody, rfl, hf⟩ := trieWalkBody_end style hn hpk
  exact ⟨s', loop_exit hbody budget, hs, by rw [hf, Option.map_map]; rfl⟩

/-- The walk finds the longest match. It looks at five characters at most, so the induction is on
what is left of them. -/
theorem trieWalk_loop {budget : Nat} {w : Window} (hn : s.node = some node)
    (hb : s.currentDepth + budget = 5)
    (h : s.lookaheadBuffer.Shows table (w.peeked s.currentDepth) s.currentDepth) :
    ∃ s' p, loop (trieWalkBody table style) (budget + 1) s = some s' ∧
      p = s.currentDepth + walked findTrieNode style budget node (w.chars.drop s.currentDepth) ∧
      s'.lookaheadBuffer.Shows table (w.peeked p) p ∧
      s'.found = ((longestMatch findTrieNode style budget node
        (w.chars.drop s.currentDepth)).map fun m => (m.1, s.currentDepth + m.2)).or s.found := by
  induction budget generalizing s node with
  | zero =>
    obtain ⟨s', hl, hs, hf⟩ := trieWalk_end style hn h (.inl (by omega))
    exact ⟨s', s.currentDepth, hl, rfl, hs, hf⟩
  | succ budget ih =>
    cases hl : w.chars.drop s.currentDepth with
    | nil =>
      obtain ⟨s', hl, hs, hf⟩ := trieWalk_end style hn h (.inr hl)
      exact ⟨s', s.currentDepth, hl, rfl, hs, hf⟩
    | cons c l =>
      have hc : (w.peeked s.currentDepth).chars[s.currentDepth]? = some c := by
        rw [Window.peeked_chars, ← List.head?_drop, hl, List.head?_cons]
      have hl' : w.chars.drop (s.currentDepth + 1) = l := by
        rw [← List.tail_drop, hl, List.tail_cons]
      obtain ⟨lb, hpk, hs⟩ := h.peekNextChar_some (by omega) hc
      rw [Window.peeked_peeked] at hs
      obtain ⟨s1, hbody, rfl, hn1, hd1, hf1⟩ := trieWalkBody_peek style hn hpk
      rw [loop_again hbody]
      cases hnext : nextNode findTrieNode style node c with
      | none =>
        rw [hnext] at hn1 hf1
        refine ⟨s1, s.currentDepth + 1, loop_exit (trieWalkBody_stop style hn1) budget, ?_, hs, ?_⟩
        · simp [walked, hnext]
        · rcases hf1 with hf1 | ⟨hcontra, _⟩
          · rw [hf1]
            simp [longestMatch, hnext, Function.comp_def]
          · cases hcontra
      | some next =>
        rw [hnext] at hn1 hf1
        rw [← hd1] at hs hl'
        obtain ⟨s2, p, hloop, hp, hs2, hf2⟩ := ih hn1 (by omega) hs
        rw [hl'] at hp hf2
        refine ⟨s2, p, hloop, ?_, hs2, ?_⟩
        · simp only [walked, hnext, Option.map_some, Option.getD_some]
          omega
        · rw [hf2, hd1]
          simp only [longestMatch, hnext, Option.bind_some]
          rcases hf1 with hf1 | ⟨hsame, hown⟩
          · rw [hf1]
            cases longestMatch findTrieNode style budget next l with
            | none => simp [Function.comp_def]
            | some m => simp [Nat.add_assoc, Nat.add_comm 1]
          · obtain ⟨elements, he⟩ := Option.isSome_iff_exists.mp hown
            cases hsame
            obtain ⟨m, hm⟩ := Option.isSome_iff_exists.mp
              (longestMatch_isSome findTrieNode style he budget l)
            simp [hm, Nat.add_assoc, Nat.add_comm 1]

end Walk

variable {cd : CollationData} {lb : LookaheadBuffer} {w : Window}

theorem trieWalk_spec (style : CollationParseStyle) (node : CollationTrieNode)
    (h : lb.Shows table w 0) :
    ∃ p, p = walked findTrieNode style unicharQueueMaxLength node w.chars ∧
      (trieWalk table style ⟨some node, none, 0, 0, lb⟩).lookaheadBuffer.Shows table
        (w.peeked p) p ∧
      (trieWalk table style ⟨some node, none, 0, 0, lb⟩).found =
        longestMatch findTrieNode style unicharQueueMaxLength node w.chars := by
  have h0 : lb.Shows table (w.peeked 0) 0 := by rwa [Window.peeked_zero]
  obtain ⟨s', p, hl, hp, hs, hf⟩ :=
    trieWalk_loop style (s := ⟨some node, none, 0, 0, lb⟩) rfl (Nat.zero_add 5) h0
  have hw : trieWalk table style ⟨some node, none, 0, 0, lb⟩ = s' := by
    rw [trieWalk]
    rw [show unicharQueueMaxLength + 1 = 5 + 1 from rfl, hl]
    rfl
  rw [hw]
  refine ⟨p, by simpa [unicharQueueMaxLength] using hp, hs, ?_⟩
  rw [hf]
  simp [TrieWalk.found, unicharQueueMaxLength]

theorem trieWalk_none (style : CollationParseStyle) (lb : LookaheadBuffer) :
    trieWalk table style ⟨none, none, 0, 0, lb⟩ = ⟨none, none, 0, 0, lb⟩ := by
  rw [trieWalk]
  rw [loop_exit (trieWalkBody_stop style rfl)]
  rfl

theorem ignoreMarks_spec {p : Nat} (cd : CollationData) (h : lb.Shows table w p) :
    (if cd.parseStyle = .combiningMarkSubset then skipCombiningMarks table lb
      else lb).resetPeekPointer.Shows table (w.ignoreMarks cd p) 0 := by
  rw [Window.ignoreMarks]
  split
  · obtain ⟨p', hs⟩ := skipCombiningMarks_spec h
    exact hs.resetPeekPointer
  · exact h.resetPeekPointer

theorem getNextCEArrayFromTrie_nil (cd : CollationData) (h : lb.Shows table w 0)
    (hw : w.chars = []) :
    ∃ lb', getNextCEArrayFromTrie table cd lb = (none, lb') ∧ lb'.Shows table w 0 := by
  rw [getNextCEArrayFromTrie]
  cases cd.trie with
  | none => exact ⟨lb, rfl, h⟩
  | some root =>
    obtain ⟨lb', hg, hs⟩ := h.getNextChar_nil hw
    simp only [hg]
    exact ⟨lb', rfl, hs⟩

theorem getNextCEArrayFromTrie_cons {root : CollationTrieNode} {c : Unichar} {l : List Unichar}
    (h : lb.Shows table w 0) (hw : w.chars = c :: l) (hroot : cd.trie = some root) :
    ∃ lb', getNextCEArrayFromTrie table cd lb = (some (w.pop.trieFetch cd root c).1, lb') ∧
      lb'.Shows table (w.pop.trieFetch cd root c).2 0 := by
  obtain ⟨lb1, hg, hs1⟩ := h.getNextChar_cons hw
  rw [getNextCEArrayFromTrie, Window.trieFetch]
  simp only [hroot, hg]
  cases findTrieNode root c with
  | none =>
    rw [trieWalk_none]
    exact ⟨_, rfl, ignoreMarks_spec cd hs1⟩
  | some node =>
    obtain ⟨p, hp, hs, hf⟩ := trieWalk_spec cd.parseStyle node hs1
    generalize trieWalk table cd.parseStyle ⟨some node, none, 0, 0, lb1⟩ = walk at hs hf
    simp only [← hp, ← hf, TrieWalk.found]
    cases hv : walk.lastValid with
    | none => exact ⟨_, rfl, ignoreMarks_spec cd hs⟩
    | some elements =>
      rw [TrieWalk.found, hv] at hf
      have hle : walk.lastValidDepth ≤ p := by
        rw [hp]
        exact longestMatch_le hf.symm
      exact ⟨_, rfl, (hs.skipChars hle).resetPeekPointer⟩

theorem getNextCEArrayFromSimpleEntries_some {entry : SimpleCollationEntry} {c : Unichar}
    {l : List Unichar} (h : lb.Shows table w 0) (hw : w.chars = c :: l)
    (he : (cd.simpleEntries.bind fun entries => findSimpleEntry entries c) = some entry) :
    ∃ lb', getNextCEArrayFromSimpleEntries table cd lb =
        (some (.single entry.collationElement), lb') ∧
      lb'.Shows table (((w.peeked 1).skip 1).ignoreMarks cd 0) 0 := by
  obtain ⟨entries, hentries, hfind⟩ := Option.bind_eq_some_iff.mp he
  obtain ⟨lb1, hpk, hs1⟩ := h.peekNextChar_some (c := c) (by omega) (by simp [hw])
  have hs2 := hs1.skipChars (n := 1) (Nat.le_refl _)
  have hd : (w.peeked 1).dropped 1 = 1 := by
    have := h.slot_lt
    simp only [Window.dropped, Window.peeked_slot]
    omega
  rw [Nat.zero_add, hd, Nat.sub_self] at hs2
  rw [getNextCEArrayFromSimpleEntries, Window.ignoreMarks]
  simp only [hentries, hpk, hfind]
  refine ⟨_, rfl, ?_⟩
  split
  · obtain ⟨p', hs⟩ := skipCombiningMarks_spec hs2
    exact hs.resetPeekPointer
  · exact hs2

theorem getNextCEArrayFromSimpleEntries_none (cd : CollationData) (h : lb.Shows table w 0)
    (he : ∀ c l, w.chars = c :: l →
      (cd.simpleEntries.bind fun entries => findSimpleEntry entries c) = none) :
    ∃ lb', getNextCEArrayFromSimpleEntries table cd lb = (none, lb') ∧
      lb'.Shows table (if cd.simpleEntries.isSome ∧ w.chars ≠ [] then w.peeked 1 else w) 0 := by
  rw [getNextCEArrayFromSimpleEntries]
  cases hentries : cd.simpleEntries with
  | none => exact ⟨lb, rfl, by simpa using h⟩
  | some entries =>
    cases hw : w.chars with
    | nil =>
      obtain ⟨lb1, hpk, hs1⟩ := h.peekNextChar_none (.inr (by simp [hw]))
      exact ⟨lb1, by simp [hpk], by simpa using hs1⟩
    | cons c l =>
      obtain ⟨lb1, hpk, hs1⟩ := h.peekNextChar_some (c := c) (by omega) (by simp [hw])
      have hfind : findSimpleEntry entries c = none := by
        simpa [hentries] using he c l hw
      exact ⟨lb1.resetPeekPointer, by simp [hpk, hfind], by simpa using hs1.resetPeekPointer⟩

/-- The code fetches what the window fetches. -/
theorem getNextCEArray_spec (cd : CollationData) (h : lb.Shows table w 0) :
    (w.fetch cd = none ∧ ∃ w' lb', getNextCEArray table cd lb = (none, lb') ∧
      lb'.Shows table w' 0 ∧ w'.chars = w.chars) ∨
      ∃ elements w' lb', w.fetch cd = some (elements, w') ∧
        getNextCEArray table cd lb = (some elements, lb') ∧ lb'.Shows table w' 0 := by
  rw [getNextCEArray]
  cases hw : w.chars with
  | nil =>
    obtain ⟨lb1, hs, hs1⟩ := getNextCEArrayFromSimpleEntries_none cd h (by simp [hw])
    rw [if_neg (by simp [hw])] at hs1
    obtain ⟨lb2, ht, hs2⟩ := getNextCEArrayFromTrie_nil cd hs1 hw
    exact .inl ⟨Window.fetch_nil cd hw, w, lb2, by simp [hs, ht], hs2, hw⟩
  | cons c l =>
    rw [Window.fetch_cons cd hw]
    cases he : cd.simpleEntries.bind fun entries => findSimpleEntry entries c with
    | some entry =>
      obtain ⟨lb1, hs, hs1⟩ := getNextCEArrayFromSimpleEntries_some h hw he
      exact .inr ⟨_, _, lb1, rfl, by simp [hs], hs1⟩
    | none =>
      have hnone (c' : Unichar) (l' : List Unichar) (hw' : w.chars = c' :: l') :
          (cd.simpleEntries.bind fun entries => findSimpleEntry entries c') = none := by
        rw [hw] at hw'
        cases hw'
        exact he
      obtain ⟨lb1, hs, hs1⟩ := getNextCEArrayFromSimpleEntries_none cd h hnone
      simp only [hw, ne_eq, reduceCtorEq, not_false_eq_true, and_true] at hs1
      have hw1 : (if cd.simpleEntries.isSome = true then w.peeked 1 else w).chars = c :: l := by
        split <;> simpa using hw
      cases hroot : cd.trie with
      | none => exact .inl ⟨rfl, _, lb1, by simp [hs, getNextCEArrayFromTrie, hroot], hs1, hw1⟩
      | some root =>
        obtain ⟨lb2, ht, hs2⟩ := getNextCEArrayFromTrie_cons hs1 hw1 hroot
        simp only [hs, ht]
        refine .inr ⟨_, _, lb2, ?_, rfl, hs2⟩
        rfl

theorem LookaheadBuffer.Shows.fetch {w' : Window} {elements : CEArray} (h : lb.Shows table w 0)
    (hf : w.fetch cd = some (elements, w')) : ∃ lb' : LookaheadBuffer, lb'.Shows table w' 0 := by
  rcases getNextCEArray_spec cd h with ⟨hnone, _⟩ | ⟨_, _, lb', hf', _, hs'⟩
  · rw [hnone] at hf
    cases hf
  · rw [hf'] at hf
    cases hf
    exact ⟨lb', hs'⟩

end NdsDevkit.Collation
