import NdsDevkit.Collation.Refinement

namespace NdsDevkit.Collation

open Framework Text LookaheadBuffer

/-- The number of combining marks from a position on. -/
def marksFrom (n : Nat) (l : List Unichar) : Nat :=
  ((l.drop n).takeWhile unicharIsCombiningMark).length

/-- The buffers that a run passes to the search in the trie. -/
def EntersTrie (table : UnicharDecompositionTable) (cd : CollationData) (str : List UInt8)
    (lb : LookaheadBuffer) : Prop :=
  ∃ queue it, Visits (CollationElementIterator.getNext table cd) (iteratorFor table queue str) it ∧
    it.currentCEArray = [] ∧
      getNextCEArrayFromSimpleEntries table cd it.lookaheadBuffer = (none, lb)

/-- The search yields the undefined element and takes one character, with the marks directly behind
it where these are ignored. What is behind them is still delivered. -/
def TakesOne (table : UnicharDecompositionTable) (cd : CollationData) (lb : LookaheadBuffer)
    (l : List Unichar) : Prop :=
  ∃ lb', getNextCEArrayFromTrie table cd lb = (some (.single undefinedCE), lb') ∧
    Delivers (LookaheadBuffer.getNextChar table) lb' (cd.afterSingle l)

/-- Behind the last character that the walk looks at are as many marks as directly behind the first
one; none count where the walk has used up the queue. -/
def MarksAgree (cd : CollationData) (root : CollationTrieNode) (c : Unichar) (l : List Unichar) :
    Prop :=
  cd.parseStyle = .combiningMarkSubset → ∀ node, root.child c = some node →
    let p := walked CollationTrieNode.child cd.parseStyle unicharQueueMaxLength node l
    (if p < unicharQueueMaxLength then marksFrom p l else 0) = marksFrom 0 l

variable {table : UnicharDecompositionTable} {cd : CollationData} {lb : LookaheadBuffer}
  {w : Window} {p : Nat} {root : CollationTrieNode} {c : Unichar} {l : List Unichar}

/-- Reading character by character delivers what the window shows. -/
theorem LookaheadBuffer.Shows.delivers (h : lb.Shows table w p) :
    Delivers (LookaheadBuffer.getNextChar table) lb w.chars := by
  induction hl : w.chars generalizing lb w p with
  | nil =>
    obtain ⟨lb', hg, _⟩ := h.getNextChar_nil hl
    exact .done (by rw [hg])
  | cons c l ih =>
    obtain ⟨lb', hg, hs⟩ := h.getNextChar_cons hl
    have hrest := ih hs (by rw [Window.pop_chars, hl, List.tail_cons])
    exact .more (by rw [hg]) (by rwa [hg])

theorem walked_eq {style : CollationParseStyle} {node : CollationTrieNode} (h : node.Sorted)
    (budget : Nat) (l : List Unichar) : walked findTrieNode style budget node l =
      walked CollationTrieNode.child style budget node l := by
  induction budget generalizing node l with
  | zero => rfl
  | succ budget ih =>
    cases l with
    | nil => rfl
    | cons c l =>
      simp only [walked, nextNode, h.findTrieNode_eq]
      cases hn : node.child c with
      | some next => simp [ih (h.child_sorted hn)]
      | none =>
        cases ignores style c with
        | true => simp [ih h]
        | false => simp

/-- Where no simple entry is found the buffer is as before, with the peek undone. -/
theorem shows_entersTrie {str : List UInt8} (h : EntersTrie table cd str lb) :
    ∃ w, lb.Shows table w 0 := by
  obtain ⟨queue, it, hv, _, hsimple⟩ := h
  obtain ⟨w, rest, _, hat⟩ := visits_window hv
  have hnone : ∀ c l, w.chars = c :: l →
      (cd.simpleEntries.bind fun entries => findSimpleEntry entries c) = none := by
    intro c l hw
    by_contra hsome
    obtain ⟨entry, he⟩ := Option.ne_none_iff_exists'.mp hsome
    obtain ⟨lb', hs, _⟩ := getNextCEArrayFromSimpleEntries_some hat.shows hw he
    rw [hsimple] at hs
    cases hs
  obtain ⟨lb', hs, hshows⟩ := getNextCEArrayFromSimpleEntries_none cd hat.shows hnone
  rw [hsimple] at hs
  cases hs
  exact ⟨_, hshows⟩

theorem marksFrom_le (n : Nat) (l : List Unichar) : marksFrom n l ≤ l.length := by
  have hle := (List.takeWhile_sublist unicharIsCombiningMark (l := l.drop n)).length_le
  rw [List.length_drop] at hle
  rw [marksFrom]
  omega

/-- Dropping characters from the front drops the marks there if there are as many. -/
theorem drop_eq_dropWhile_iff {k : Nat} (hk : k ≤ l.length) :
    l.drop k = l.dropWhile unicharIsCombiningMark ↔ k = marksFrom 0 l := by
  have hmarks := marksFrom_le 0 l
  rw [← drop_length_takeWhile]
  constructor
  · intro h
    have hlen := congrArg List.length h
    rw [List.length_drop, List.length_drop] at hlen
    unfold marksFrom at hmarks ⊢
    rw [List.drop_zero] at hmarks ⊢
    omega
  · intro heq
    obtain rfl := heq
    rfl

/-- What the marks routine leaves, from any peek position. -/
theorem ignoreMarks_chars_iff (hw : w.chars = l) :
    (w.ignoreMarks cd p).chars = cd.afterSingle l ↔ (cd.parseStyle = .combiningMarkSubset →
      (if p < unicharQueueMaxLength then marksFrom p l else 0) = marksFrom 0 l) := by
  subst hw
  rw [Window.ignoreMarks, CollationData.afterSingle]
  split
  · next hstyle =>
    simp only [hstyle, true_implies]
    rw [Window.skipMarks, unicharQueueMaxLength]
    split
    · exact drop_eq_dropWhile_iff (marksFrom_le p w.chars)
    · exact drop_eq_dropWhile_iff (Nat.zero_le _)
  · next hstyle => simp [hstyle]

/-- What is left when the search finds nothing. -/
theorem trieFetch_unmatched (hsorted : root.Sorted) (hroot : cd.trie = some root)
    (hw : w.chars = l) (hnone : cd.trieMatch c l = none) :
    (w.trieFetch cd root c).1 = .single undefinedCE ∧
      ((w.trieFetch cd root c).2.chars = cd.afterSingle l ↔ MarksAgree cd root c l) := by
  rw [Window.trieFetch, MarksAgree]
  rw [hsorted.findTrieNode_eq]
  rw [CollationData.trieMatch, hroot, Option.bind_some] at hnone
  cases hchild : root.child c with
  | none =>
    refine ⟨rfl, ?_⟩
    simp only [reduceCtorEq, false_implies, implies_true, iff_true]
    rw [ignoreMarks_chars, hw]
  | some node =>
    rw [hchild, Option.bind_some] at hnone
    have hnode := hsorted.child_sorted hchild
    simp only [hw, longestMatch_eq hnode, hnone, walked_eq hnode, Option.some.injEq, forall_eq',
      true_and]
    exact ignoreMarks_chars_iff hw

theorem Shows.takesOne_iff (hs : lb.Shows table w 0) (hl : w.chars = c :: l)
    (hroot : cd.trie = some root) (hsorted : root.Sorted) (hnone : cd.trieMatch c l = none) :
    TakesOne table cd lb l ↔ MarksAgree cd root c l := by
  obtain ⟨lb', hget, hs'⟩ := getNextCEArrayFromTrie_cons hs hl hroot
  obtain ⟨hundefined, hchars⟩ := trieFetch_unmatched hsorted hroot
    (show w.pop.chars = l by rw [Window.pop_chars, hl, List.tail_cons]) hnone
  rw [← hchars]
  constructor
  · intro hex
    obtain ⟨lb'', hget', hdelivers⟩ := hex
    rw [hget, Prod.mk.injEq] at hget'
    obtain rfl := hget'.2
    exact hs'.delivers.unique hdelivers
  · intro h
    exact ⟨lb', by rw [hget, hundefined], h ▸ hs'.delivers⟩

/-- An unmatched character takes itself and its marks along and nothing else exactly if the marks
are counted where they should be. -/
theorem unmatched_takesOne_iff {str : List UInt8} (hroot : cd.trie = some root)
    (hsorted : root.Sorted) (hlb : EntersTrie table cd str lb)
    (hl : lb.upcoming table = c :: l) (hnone : cd.trieMatch c l = none) :
    TakesOne table cd lb l ↔ MarksAgree cd root c l := by
  obtain ⟨w, hs⟩ := shows_entersTrie hlb
  rw [hs.upcoming_eq] at hl
  exact Shows.takesOne_iff hs hl hroot hsorted hnone

/-- `ac` has an element, `a` has none. -/
def digraphRoot : CollationTrieNode := .mk none [.mk none [.mk (some (.single 1)) [] 99] 97] 0

def digraphData : CollationData := ⟨.combiningMarkSubset, some digraphRoot, none⟩

theorem digraphRoot_sorted : digraphRoot.Sorted := .single (.single (.leaf _ _))

/-- The buffer in front of a whole string. -/
def bufferFor (str : List UInt8) : LookaheadBuffer :=
  (iteratorFor unicharDecompositionData ⟨fun _ => 0, 0, 0, 0⟩ str).lookaheadBuffer

theorem bufferFor_enters (str : List UInt8) :
    EntersTrie unicharDecompositionData digraphData str (bufferFor str) :=
  ⟨⟨fun _ => 0, 0, 0, 0⟩, _, .refl _, rfl, rfl⟩

theorem bufferFor_shows (str : List UInt8) : (bufferFor str).Shows unicharDecompositionData
    ⟨0, 0, decomposedChars unicharDecompositionData str⟩ 0 :=
  (iteratorFor_at unicharDecompositionData _ str).shows

/-- `ab`: the walk stops at `b`, and no marks are there. -/
theorem unmatched_takesOne_ab :
    TakesOne unicharDecompositionData digraphData (bufferFor [97, 98]) [98] := by
  have hchars : decomposedChars unicharDecompositionData [97, 98] = [97, 98] := by decide +kernel
  refine (unmatched_takesOne_iff rfl digraphRoot_sorted (bufferFor_enters [97, 98])
    ((bufferFor_shows [97, 98]).upcoming_eq.trans hchars) rfl).mpr ?_
  intro _ node hnode
  cases hnode
  decide

/-- `ab` with an accent on `b`: the accent takes `b` away. -/
theorem unmatched_takes_b :
    EntersTrie unicharDecompositionData digraphData [97, 98, 0xcc, 0x81]
      (bufferFor [97, 98, 0xcc, 0x81]) ∧
    (bufferFor [97, 98, 0xcc, 0x81]).upcoming unicharDecompositionData = [97, 98, 0x301] ∧
    digraphData.trieMatch 97 [98, 0x301] = none ∧
    ¬TakesOne unicharDecompositionData digraphData (bufferFor [97, 98, 0xcc, 0x81])
      [98, 0x301] := by
  have hshows := bufferFor_shows [97, 98, 0xcc, 0x81]
  rw [show decomposedChars unicharDecompositionData [97, 98, 0xcc, 0x81] = [97, 98, 0x301] by
    decide +kernel] at hshows
  refine ⟨bufferFor_enters _, hshows.upcoming_eq, rfl, ?_⟩
  rw [Shows.takesOne_iff hshows rfl rfl digraphRoot_sorted rfl]
  intro h
  exact absurd (h rfl _ rfl) (by decide)

end NdsDevkit.Collation
