import Mathlib.Data.List.Infix
import NdsDevkit.Collation.Refinement
import NdsDevkit.Text.DecompositionData

namespace NdsDevkit.Collation

open Framework Text LookaheadBuffer

/-- A simple entry as a node without children. -/
def SimpleCollationEntry.node (entry : SimpleCollationEntry) : CollationTrieNode :=
  .mk (some (.single entry.collationElement)) [] entry.character

/-- The node with simple entries among its children, each in its sorted position. -/
def CollationTrieNode.withEntries (node : CollationTrieNode)
    (entries : List SimpleCollationEntry) : CollationTrieNode :=
  .mk node.collationElements
    ((entries.map SimpleCollationEntry.node).merge node.children
      fun a b => decide (a.character ≤ b.character))
    node.character

namespace CollationData

/-- The same data with all its simple entries in the trie. -/
def entriesInTrie (cd : CollationData) : CollationData :=
  { cd with
    trie := cd.trie.map fun root => root.withEntries (cd.simpleEntries.getD [])
    simpleEntries := none }

/-- The arrays at the top are strictly sorted, and no simple entry is for a child of the root. -/
structure Apart (cd : CollationData) : Prop where
  entries : SortedBy SimpleCollationEntry.character (cd.simpleEntries.getD [])
  children : ∀ root, cd.trie = some root → SortedBy CollationTrieNode.character root.children
  apart : ∀ root, cd.trie = some root → ∀ entry, entry ∈ cd.simpleEntries.getD [] →
    ∀ node, node ∈ root.children → entry.character ≠ node.character

/-- How many characters behind the first one are skipped in bulk. -/
def bulkDepth (cd : CollationData) : List Unichar → Nat
  | [] => 0
  | c :: l =>
    if (cd.simpleEntries.bind fun entries => findSimpleEntry entries c).isSome then 0
    else
      (((cd.trie.bind fun root => findTrieNode root c).bind fun node =>
        longestMatch findTrieNode cd.parseStyle unicharQueueMaxLength node l).map Prod.snd).getD 0

end CollationData

/-- If an array is to be fetched, the characters skipped in bulk end before the ring does. -/
def CollationElementIterator.SkipsInRing (table : UnicharDecompositionTable) (cd : CollationData)
    (it : CollationElementIterator) : Prop :=
  it.currentCEArray = [] →
    skipSlot cd it.lookaheadBuffer.queue + cd.bulkDepth (it.lookaheadBuffer.upcoming table) ≤
      unicharQueueMaxLength

/-- No character is followed by more combining marks than the queue holds. -/
def MarksFit (l : List Unichar) : Prop :=
  ∀ c rest, c :: rest <:+ l →
    (rest.takeWhile unicharIsCombiningMark).length ≤ unicharQueueMaxLength

instance (l : List Unichar) : Decidable (MarksFit l) :=
  decidable_of_iff (∀ t ∈ l.tails, (t.tail.takeWhile unicharIsCombiningMark).length ≤
      unicharQueueMaxLength) <| by
    constructor
    · intro h c rest hs
      exact h _ ((List.mem_tails _ _).mpr hs)
    · intro h t ht
      cases t with
      | nil => exact Nat.zero_le _
      | cons c rest => exact h c rest ((List.mem_tails _ _).mp ht)

theorem MarksFit.suffix {l l' : List Unichar} (h : MarksFit l) (hs : l' <:+ l) : MarksFit l' :=
  fun c rest hc => h c rest (hc.trans hs)

namespace LookaheadBuffer.Window

def SkipsInRing (cd : CollationData) (w : Window) : Prop :=
  w.skipSlot cd + cd.bulkDepth w.chars ≤ 5

instance (cd : CollationData) (w : Window) : Decidable (w.SkipsInRing cd) :=
  inferInstanceAs (Decidable (_ ≤ _))

end LookaheadBuffer.Window

variable {table : UnicharDecompositionTable} {cd : CollationData}

theorem CollationElementIterator.At.skipsInRing_iff {it : CollationElementIterator} {w : Window}
    (h : it.At table (w, [])) : it.SkipsInRing table cd ↔ w.SkipsInRing cd := by
  rw [SkipsInRing, Window.SkipsInRing]
  rw [h.shows.upcoming_eq, h.shows.skipSlot_eq]
  exact ⟨fun hr => hr h.current, fun hr _ => hr⟩

section Search

variable {root : CollationTrieNode} {c : Unichar} (hcd : cd.Apart) (hroot : cd.trie = some root)

include hcd hroot

theorem withEntries_sorted : SortedBy CollationTrieNode.character
    (root.withEntries (cd.simpleEntries.getD [])).children := by
  apply SortedBy.merge
  · exact List.pairwise_map.mpr hcd.entries
  · exact hcd.children root hroot
  · intro a ha b hb
    obtain ⟨entry, hentry, rfl⟩ := List.mem_map.mp ha
    exact hcd.apart root hroot entry hentry b hb

theorem findTrieNode_withEntries {node : CollationTrieNode} :
    findTrieNode (root.withEntries (cd.simpleEntries.getD [])) c = some node ↔
      (∃ entry, entry ∈ cd.simpleEntries.getD [] ∧ entry.node = node ∧ entry.character = c) ∨
        findTrieNode root c = some node := by
  unfold findTrieNode
  rw [binarySearch_iff_mem (withEntries_sorted hcd hroot),
    binarySearch_iff_mem (hcd.children root hroot)]
  simp only [CollationTrieNode.withEntries, CollationTrieNode.children, List.mem_merge,
    List.mem_map, or_and_right]
  constructor
  · intro hor
    rcases hor with ⟨⟨entry, hmem, rfl⟩, hc⟩ | hnode
    · exact .inl ⟨entry, hmem, rfl, hc⟩
    · exact .inr hnode
  · intro hor
    rcases hor with ⟨entry, hmem, rfl, hc⟩ | hnode
    · exact .inl ⟨⟨entry, hmem, rfl⟩, hc⟩
    · exact .inr hnode

theorem findTrieNode_of_simple {entry : SimpleCollationEntry}
    (he : (cd.simpleEntries.bind fun entries => findSimpleEntry entries c) = some entry) :
    findTrieNode (root.withEntries (cd.simpleEntries.getD [])) c = some entry.node := by
  obtain ⟨entries, hentries, hsearch⟩ := Option.bind_eq_some_iff.mp he
  obtain ⟨hmem, hc⟩ := binarySearch_some hsearch
  exact (findTrieNode_withEntries hcd hroot).mpr
    (.inl ⟨entry, by rw [hentries]; exact hmem, rfl, hc⟩)

theorem findTrieNode_of_not_simple
    (he : (cd.simpleEntries.bind fun entries => findSimpleEntry entries c) = none) :
    findTrieNode (root.withEntries (cd.simpleEntries.getD [])) c = findTrieNode root c := by
  apply Option.ext
  intro node
  rw [findTrieNode_withEntries hcd hroot]
  refine ⟨fun h => h.resolve_left ?_, .inr⟩
  intro hex
  obtain ⟨entry, hmem, _, hc⟩ := hex
  have hentries := hcd.entries
  cases hsimple : cd.simpleEntries with
  | none =>
    rw [hsimple] at hmem
    cases hmem
  | some entries =>
    rw [hsimple, Option.getD_some] at hmem hentries
    have hsearch := (binarySearch_iff_mem hentries).mpr ⟨hmem, hc⟩
    rw [hsimple, Option.bind_some, findSimpleEntry, hsearch] at he
    cases he

end Search

/-- The walk from a node without children goes past the marks that are ignored. -/
theorem longestMatch_entry (style : CollationParseStyle) (entry : SimpleCollationEntry)
    (budget : Nat) (l : List Unichar) :
    longestMatch findTrieNode style budget entry.node l =
      some (.single entry.collationElement,
        min budget (if style = .combiningMarkSubset then
          (l.takeWhile unicharIsCombiningMark).length else 0)) := by
  have hchild : ∀ c, findTrieNode entry.node c = none := fun c => rfl
  induction budget generalizing l with
  | zero => simp [longestMatch, SimpleCollationEntry.node, CollationTrieNode.collationElements]
  | succ budget ih =>
    cases l with
    | nil => simp [longestMatch, SimpleCollationEntry.node, CollationTrieNode.collationElements]
    | cons c l =>
      simp only [longestMatch, nextNode, hchild, Option.none_or, ignores]
      cases style with
      | combiningMarkExact =>
        simp [SimpleCollationEntry.node, CollationTrieNode.collationElements]
      | combiningMarkSubset =>
        by_cases hmark : unicharIsCombiningMark c = true
        · simp [hmark, ih]
        · simp [hmark, SimpleCollationEntry.node, CollationTrieNode.collationElements]

namespace LookaheadBuffer.Window

variable {w w' : Window}

theorem ignoreMarks_congr (cd : CollationData) (p : Nat) (h : w'.chars = w.chars) :
    (w'.ignoreMarks cd p).chars = (w.ignoreMarks cd p).chars := by
  unfold ignoreMarks skipMarks
  split
  · split
    · simp only [h]
    · exact h
  · exact h

/-- The search in the trie goes by the characters alone as long as nothing is skipped beyond the
end of the ring. -/
theorem trieFetch_congr {cd' : CollationData} {root root' : CollationTrieNode} {c : Unichar}
    (hstyle : cd'.parseStyle = cd.parseStyle)
    (hfind : findTrieNode root' c = findTrieNode root c) (hchars : w'.chars = w.chars)
    (hfit : ∀ node found, findTrieNode root c = some node →
      longestMatch findTrieNode cd.parseStyle unicharQueueMaxLength node w.chars = some found →
      found.2 ≤ 5 - w.slot ∧ found.2 ≤ 5 - w'.slot) :
    (w'.trieFetch cd' root' c).1 = (w.trieFetch cd root c).1 ∧
      (w'.trieFetch cd' root' c).2.chars = (w.trieFetch cd root c).2.chars := by
  have hignore : ∀ p (v : Window), v.ignoreMarks cd' p = v.ignoreMarks cd p := by
    intro p v
    simp only [ignoreMarks, hstyle]
  unfold trieFetch
  simp only [hfind, hstyle, hchars, hignore]
  cases hn : findTrieNode root c with
  | none => exact ⟨rfl, ignoreMarks_congr cd 0 hchars⟩
  | some node =>
    simp only
    cases hm : longestMatch findTrieNode cd.parseStyle unicharQueueMaxLength node w.chars with
    | none => exact ⟨rfl, ignoreMarks_congr cd _ (by simpa using hchars)⟩
    | some found =>
      obtain ⟨h1, h2⟩ := hfit node found hn hm
      refine ⟨rfl, ?_⟩
      simp only [skip_chars, dropped, peeked_slot, peeked_chars, hchars, Nat.min_eq_left h1,
        Nat.min_eq_left h2]

/-- The search in the trie ends at the node of a simple entry and skips the marks behind it. -/
theorem trieFetch_entry (cd : CollationData) {root : CollationTrieNode} {c : Unichar}
    {entry : SimpleCollationEntry} (hfind : findTrieNode root c = some entry.node)
    (hmarks : (w.chars.takeWhile unicharIsCombiningMark).length ≤ unicharQueueMaxLength)
    (hfit : ∀ found, longestMatch findTrieNode cd.parseStyle unicharQueueMaxLength entry.node
      w.chars = some found → w.slot + found.2 ≤ 5) :
    (w.trieFetch cd root c).1 = .single entry.collationElement ∧
      (w.trieFetch cd root c).2.chars = cd.afterSingle w.chars := by
  have hmatch := longestMatch_entry cd.parseStyle entry unicharQueueMaxLength w.chars
  have hring := hfit _ hmatch
  rw [trieFetch, CollationData.afterSingle]
  simp only [hfind, hmatch, skip_chars, dropped, peeked_slot, peeked_chars, true_and]
  split
  · next hstyle =>
    simp only [if_pos hstyle] at hring
    rw [Nat.min_eq_left (by omega), Nat.min_eq_right hmarks]
    exact drop_length_takeWhile _ w.chars
  · rw [Nat.min_zero, Nat.zero_min, List.drop_zero]

/-- One fetch with the simple entries and one with the trie alone, from the same characters. -/
theorem fetch_agree (hcd : cd.Apart) (hroot : cd.trie.isSome) {c : Unichar} {l : List Unichar}
    (hs : w.slot < 5) (hw : w.chars = c :: l) (hw' : w'.chars = c :: l)
    (hmarks : (l.takeWhile unicharIsCombiningMark).length ≤ 5)
    (hfit : w.SkipsInRing cd) (hfit' : w'.SkipsInRing cd.entriesInTrie) :
    ∃ elements v v', w.fetch cd = some (elements, v) ∧
      w'.fetch cd.entriesInTrie = some (elements, v') ∧ v'.chars = v.chars := by
  obtain ⟨root, hroot⟩ := Option.isSome_iff_exists.mp hroot
  have hroot' : cd.entriesInTrie.trie = some (root.withEntries (cd.simpleEntries.getD [])) := by
    simp [CollationData.entriesInTrie, hroot]
  have hstyle : cd.entriesInTrie.parseStyle = cd.parseStyle := rfl
  have hnone : cd.entriesInTrie.simpleEntries = none := rfl
  have hslot' := pop_slot cd.entriesInTrie w'
  unfold SkipsInRing CollationData.bulkDepth at hfit hfit'
  rw [fetch_cons cd hw, fetch_cons _ hw', hroot', hroot]
  generalize cd.entriesInTrie = cd' at *
  simp only [hnone, Option.isSome_none, Bool.false_eq_true, if_false] at hslot'
  simp only [hw, hroot, Option.bind_some] at hfit
  simp only [hw', hroot', hnone, Option.bind_none, Option.bind_some, Option.isSome_none,
    Bool.false_eq_true, if_false, ← hslot', hstyle] at hfit'
  simp only [hnone, Option.bind_none, Option.isSome_none, Bool.false_eq_true, if_false,
    Option.map_some]
  have hchars' : w'.pop.chars = l := by rw [pop_chars, hw', List.tail_cons]
  cases he : cd.simpleEntries.bind fun entries => findSimpleEntry entries c with
  | some entry =>
    have hnode := findTrieNode_of_simple hcd hroot he
    have hfit0 : ∀ found, longestMatch findTrieNode cd'.parseStyle unicharQueueMaxLength
        entry.node w'.pop.chars = some found → w'.pop.slot + found.2 ≤ 5 := by
      intro found hm
      rw [hchars', hstyle] at hm
      simpa [hnode, hm] using hfit'
    obtain ⟨hel, hrest⟩ := trieFetch_entry cd' hnode (by rwa [hchars']) hfit0
    refine ⟨_, _, _, rfl, congrArg some (Prod.ext hel rfl), ?_⟩
    rw [hrest, hchars', ignoreMarks_chars, skip_one (by simpa using hs), peeked_chars, hw,
      List.tail_cons]
    simp only [CollationData.afterSingle, hstyle]
  | none =>
    have hsame := findTrieNode_of_not_simple hcd hroot he
    have hchars : (if cd.simpleEntries.isSome then w.peeked 1 else w).pop.chars = l := by
      rw [pop_chars]
      split <;> simp [hw]
    have hslot := pop_slot cd w
    generalize (if cd.simpleEntries.isSome then w.peeked 1 else w).pop = v at hchars hslot
    have hfit0 : ∀ node found, findTrieNode root c = some node →
        longestMatch findTrieNode cd.parseStyle unicharQueueMaxLength node v.chars = some found →
        found.2 ≤ 5 - v.slot ∧ found.2 ≤ 5 - w'.pop.slot := by
      intro node found hn hm
      rw [hchars] at hm
      simp only [he, Option.isSome_none, Bool.false_eq_true, if_false, hn, Option.bind_some, hm,
        Option.map_some, Option.getD_some] at hfit
      simp only [hsame, hn, Option.bind_some, hm, Option.map_some, Option.getD_some] at hfit'
      omega
    obtain ⟨hel, hrest⟩ := trieFetch_congr hstyle hsame (hchars'.trans hchars.symm) hfit0
    exact ⟨_, (v.trieFetch cd root c).2, (w'.pop.trieFetch cd' _ c).2, rfl,
      congrArg some (Prod.ext hel rfl), hrest⟩

end LookaheadBuffer.Window

/-- Fetch for fetch, both iterators deliver the same. -/
theorem windowNext_agree (hcd : cd.Apart) (hroot : cd.trie.isSome) {lb lb' : LookaheadBuffer}
    {w w' : Window} (hs : lb.Shows table w 0) (hs' : lb'.Shows table w' 0)
    (hchars : w'.chars = w.chars) (hmarks : MarksFit w.chars)
    (hfit : ∀ v, Visits (windowNext cd) (w, []) (v, []) → v.SkipsInRing cd)
    (hfit' : ∀ v, Visits (windowNext cd.entriesInTrie) (w', []) (v, []) →
      v.SkipsInRing cd.entriesInTrie) :
    ∃ ces, Delivers (windowNext cd) (w, []) ces ∧
      Delivers (windowNext cd.entriesInTrie) (w', []) ces := by
  have hroot' : cd.entriesInTrie.trie.isSome := by
    simpa [CollationData.entriesInTrie] using hroot
  induction hn : w.chars.length using Nat.strongRecOn generalizing lb lb' w w' with
  | ind n ih =>
    cases hw : w.chars with
    | nil =>
      exact ⟨[], windowNext_stop (Window.fetch_nil cd hw),
        windowNext_stop (Window.fetch_nil _ (hchars.trans hw))⟩
    | cons c l =>
      obtain ⟨elements, v, v', hf, hf', hvv⟩ := Window.fetch_agree hcd hroot hs.slot_lt hw
        (hchars.trans hw) (hmarks c l (hw ▸ List.suffix_refl _)) (hfit w (.refl _))
        (hfit' w' (.refl _))
      have hvisit := windowNext_visits hroot hf
      have hvisit' := windowNext_visits hroot' hf'
      have hlt := Window.length_fetch_lt hs.slot_lt hf
      have hsuffix := (Window.fetch_suffix hs.slot_lt hw hf).trans (List.suffix_cons c l)
      obtain ⟨lb1, hs1⟩ := hs.fetch hf
      obtain ⟨lb2, hs2⟩ := hs'.fetch hf'
      obtain ⟨ces, hd, hd'⟩ := ih _ (by omega) hs1 hs2 hvv (hmarks.suffix (by rwa [hw]))
        (fun u hu => hfit u (hvisit.trans hu)) (fun u hu => hfit' u (hvisit'.trans hu)) rfl
      exact ⟨_, windowNext_fetch hroot hf hd, windowNext_fetch hroot' hf' hd'⟩

/-- Whether the bulk skips stay inside the ring can be told from the windows. -/
theorem skipsInRing_iff_windows (table : UnicharDecompositionTable) (cd : CollationData)
    (queue : UnicharQueue) (str : List UInt8) :
    (∀ it, Visits (CollationElementIterator.getNext table cd) (iteratorFor table queue str) it →
      it.SkipsInRing table cd) ↔
      ∀ w, Visits (windowNext cd) (⟨0, 0, decomposedChars table str⟩, []) (w, []) →
        w.SkipsInRing cd := by
  constructor
  · intro h w hvs
    obtain ⟨it, hv, hat⟩ :=
      hvs.sim (fun _ _ h => h.getNext cd) (iteratorFor_at table queue str)
    exact hat.skipsInRing_iff.mp (h it hv)
  · intro h it hv hrest
    obtain ⟨w, rest, hvs, hat⟩ := visits_window hv
    obtain rfl : rest = [] := hat.current.symm.trans hrest
    exact hat.skipsInRing_iff.mpr (h w hvs) hrest

/-- In every pair of runs in which no bulk skip goes beyond the end of the ring, the data with its
simple entries and the trie alone deliver the same elements. -/
theorem entriesInTrie_agrees (table : UnicharDecompositionTable) (cd : CollationData)
    (hcd : cd.Apart) (queue queue' : UnicharQueue) (str : List UInt8)
    (hmarks : MarksFit (decomposedChars table str))
    (hfit : ∀ it, Visits (CollationElementIterator.getNext table cd)
      (iteratorFor table queue str) it → it.SkipsInRing table cd)
    (hfit' : ∀ it, Visits (CollationElementIterator.getNext table cd.entriesInTrie)
      (iteratorFor table queue' str) it → it.SkipsInRing table cd.entriesInTrie) :
    ∃ ces, Delivers (CollationElementIterator.getNext table cd) (iteratorFor table queue str) ces ∧
      Delivers (CollationElementIterator.getNext table cd.entriesInTrie)
        (iteratorFor table queue' str) ces := by
  have hat := iteratorFor_at table queue str
  have hat' := iteratorFor_at table queue' str
  cases hroot : cd.trie with
  | none =>
    refine ⟨[], hat.delivers (.done ?_), hat'.delivers (.done ?_)⟩
    · simp [windowNext, hroot]
    · simp [windowNext, CollationData.entriesInTrie, hroot]
  | some root =>
    obtain ⟨ces, hd, hd'⟩ := windowNext_agree hcd (by rw [hroot]; rfl) hat.shows hat'.shows rfl
      hmarks ((skipsInRing_iff_windows table cd queue str).mp hfit)
      ((skipsInRing_iff_windows table cd.entriesInTrie queue' str).mp hfit')
    exact ⟨ces, hat.delivers hd, hat'.delivers hd'⟩

/-- `a` is a simple entry, `b` is in the trie. -/
def letterData : CollationData where
  parseStyle := .combiningMarkSubset
  trie := some (.mk none [.mk (some (.single 2)) [] 98] 0)
  simpleEntries := some [⟨97, 1⟩]

theorem letterData_entriesInTrie : letterData.entriesInTrie =
    ⟨.combiningMarkSubset, some (.mk none
      [.mk (some (.single 1)) [] 97, .mk (some (.single 2)) [] 98] 0), none⟩ := by
  simp [CollationData.entriesInTrie, letterData, CollationTrieNode.withEntries,
    SimpleCollationEntry.node, CollationTrieNode.collationElements, CollationTrieNode.children,
    CollationTrieNode.character]

theorem letterData_apart : letterData.Apart := by
  refine ⟨List.pairwise_singleton _ _, ?_, ?_⟩
  · intro root hroot
    cases hroot
    exact List.pairwise_singleton _ _
  · intro root hroot entry hentry node hnode
    cases hroot
    obtain rfl := List.mem_singleton.mp hentry
    obtain rfl := List.mem_singleton.mp hnode
    decide

theorem entriesInTrie_agrees_accent :
    ∃ ces, Delivers (CollationElementIterator.getNext unicharDecompositionData letterData)
        (iteratorFor unicharDecompositionData ⟨fun _ => 0, 0, 0, 0⟩ [97, 0xCC, 0x81, 98]) ces ∧
      Delivers (CollationElementIterator.getNext unicharDecompositionData letterData.entriesInTrie)
        (iteratorFor unicharDecompositionData ⟨fun _ => 0, 0, 0, 0⟩ [97, 0xCC, 0x81, 98]) ces := by
  have hchars :
      decomposedChars unicharDecompositionData [97, 0xCC, 0x81, 98] = [97, 0x301, 98] := by
    decide +kernel
  refine entriesInTrie_agrees unicharDecompositionData letterData letterData_apart _ _ _
    (by rw [hchars]; decide) ?_ ?_
  · rw [skipsInRing_iff_windows, hchars]
    intro w hvs
    generalize hs : (w, ([] : List CollationElement)) = s at hvs
    rcases hvs with _ | ⟨_, _ | ⟨_, _ | ⟨h, _⟩⟩⟩
    · cases hs
      decide
    · cases hs
      decide
    · cases hs
      decide
    · cases h
  · rw [skipsInRing_iff_windows, hchars, letterData_entriesInTrie]
    intro w hvs
    generalize hs : (w, ([] : List CollationElement)) = s at hvs
    rcases hvs with _ | ⟨_, _ | ⟨_, _ | ⟨h, _⟩⟩⟩
    · cases hs
      decide
    · cases hs
      decide
    · cases hs
      decide
    · cases h

/-- With the ring's end behind the first of two marks the trie leaves the second one behind. -/
theorem entriesInTrie_ring_end : letterData.Apart ∧
    MarksFit (decomposedChars unicharDecompositionData
      [97, 97, 97, 97, 97, 0xCC, 0x81, 0xCC, 0x81]) ∧
    ∀ queue queue', ¬ ∃ ces,
      Delivers (CollationElementIterator.getNext unicharDecompositionData letterData)
        (iteratorFor unicharDecompositionData queue [97, 97, 97, 97, 97, 0xCC, 0x81, 0xCC, 0x81])
        ces ∧
      Delivers (CollationElementIterator.getNext unicharDecompositionData letterData.entriesInTrie)
        (iteratorFor unicharDecompositionData queue' [97, 97, 97, 97, 97, 0xCC, 0x81, 0xCC, 0x81])
        ces := by
  have hchars : decomposedChars unicharDecompositionData
      [97, 97, 97, 97, 97, 0xCC, 0x81, 0xCC, 0x81] = [97, 97, 97, 97, 97, 0x301, 0x301] := by
    decide +kernel
  refine ⟨letterData_apart, by rw [hchars]; decide, ?_⟩
  intro queue queue' hex
  obtain ⟨ces, hd, hd'⟩ := hex
  have hrun : Delivers (windowNext letterData)
      (⟨0, 0, [97, 97, 97, 97, 97, 0x301, 0x301]⟩, []) [1, 1, 1, 1, 1] :=
    .more rfl (.more rfl (.more rfl (.more rfl (.more rfl (.done rfl)))))
  have hrun' : Delivers (windowNext letterData.entriesInTrie)
      (⟨0, 0, [97, 97, 97, 97, 97, 0x301, 0x301]⟩, []) [1, 1, 1, 1, 1, 0] :=
    letterData_entriesInTrie ▸
      .more rfl (.more rfl (.more rfl (.more rfl (.more rfl (.more rfl (.done rfl))))))
  have hat := iteratorFor_at unicharDecompositionData queue
    [97, 97, 97, 97, 97, 0xCC, 0x81, 0xCC, 0x81]
  have hat' := iteratorFor_at unicharDecompositionData queue'
    [97, 97, 97, 97, 97, 0xCC, 0x81, 0xCC, 0x81]
  rw [hchars] at hat hat'
  have h1 := hd.unique (hat.delivers hrun)
  have h2 := hd'.unique (hat'.delivers hrun')
  rw [h1] at h2
  cases h2

end NdsDevkit.Collation
