import NdsDevkit.Framework.Stream
import NdsDevkit.Collation.FetchCorrect

namespace NdsDevkit.Collation

open Framework Text LookaheadBuffer

namespace LookaheadBuffer.Window

variable {w w' : Window} {cd : CollationData} {elements : CEArray}

theorem ignoreMarks_suffix (cd : CollationData) (w : Window) (p : Nat) :
    (w.ignoreMarks cd p).chars <:+ w.chars := by
  rw [ignoreMarks, skipMarks]
  split
  · split
    · exact List.drop_suffix _ _
    · exact List.suffix_refl _
  · exact List.suffix_refl _

theorem trieFetch_suffix (cd : CollationData) (root : CollationTrieNode) (c : Unichar)
    (w : Window) : (w.trieFetch cd root c).2.chars <:+ w.chars := by
  rw [trieFetch]
  cases findTrieNode root c with
  | none => exact ignoreMarks_suffix cd w 0
  | some node =>
    simp only
    split
    · exact List.drop_suffix _ _
    · exact ignoreMarks_suffix cd _ _

/-- A fetch takes the first character, and others behind it. -/
theorem fetch_suffix {c : Unichar} {l : List Unichar} (hs : w.slot < 5) (hw : w.chars = c :: l)
    (h : w.fetch cd = some (elements, w')) : w'.chars <:+ l := by
  rw [fetch_cons cd hw] at h
  cases he : cd.simpleEntries.bind fun entries => findSimpleEntry entries c with
  | some entry =>
    rw [he] at h
    cases h
    have hskip : ((w.peeked 1).skip 1).chars = l := by
      rw [skip_one (by simpa using hs), peeked_chars, hw, List.tail_cons]
    exact hskip ▸ ignoreMarks_suffix cd ((w.peeked 1).skip 1) 0
  | none =>
    simp only [he, Option.map_eq_some_iff] at h
    obtain ⟨root, _, hr⟩ := h
    have hsuffix := trieFetch_suffix cd root c
      (if cd.simpleEntries.isSome then w.peeked 1 else w).pop
    have htail : (if cd.simpleEntries.isSome then w.peeked 1 else w).chars.tail = l := by
      split <;> simp [hw]
    rwa [hr, pop_chars, htail] at hsuffix

theorem length_fetch_lt (hs : w.slot < 5) (h : w.fetch cd = some (elements, w')) :
    w'.chars.length < w.chars.length := by
  cases hw : w.chars with
  | nil =>
    rw [fetch_nil cd hw] at h
    cases h
  | cons c l => exact Nat.lt_succ_of_le (fetch_suffix hs hw h).length_le

end LookaheadBuffer.Window

/-- The collation element iterator on a window. -/
def windowNext (cd : CollationData) (s : Window × List CollationElement) :
    Option CollationElement × (Window × List CollationElement) :=
  if cd.trie.isNone then (none, s)
  else
    match s.2 with
    | collationElement :: rest => (some collationElement, (s.1, rest))
    | [] =>
      match s.1.fetch cd with
      | none => (none, s)
      | some (elements, w) => (some elements.first, (w, elements.val.tail))

section

variable {table : UnicharDecompositionTable} {cd : CollationData}

/-- The iterator stands at this place. -/
structure CollationElementIterator.At (table : UnicharDecompositionTable)
    (it : CollationElementIterator) (s : Window × List CollationElement) : Prop where
  shows : it.lookaheadBuffer.Shows table s.1 0
  current : it.currentCEArray = s.2

variable {it : CollationElementIterator} {s : Window × List CollationElement}

/-- The code's iterator and the iterator on its window return the same. -/
theorem CollationElementIterator.At.getNext (cd : CollationData) (h : it.At table s) :
    (it.getNext table cd).1 = (windowNext cd s).1 ∧
      ((windowNext cd s).1.isSome → (it.getNext table cd).2.At table (windowNext cd s).2) := by
  obtain ⟨w, rest⟩ := s
  obtain ⟨lb, current⟩ := it
  obtain ⟨hs, rfl⟩ := h
  rw [CollationElementIterator.getNext, windowNext]
  cases cd.trie with
  | none => exact ⟨rfl, fun hsome => by cases hsome⟩
  | some root =>
    simp only [Option.isNone_some, Bool.false_eq_true, if_false]
    cases current with
    | cons collationElement rest => exact ⟨rfl, fun _ => ⟨hs, rfl⟩⟩
    | nil =>
      rcases getNextCEArray_spec cd hs with ⟨hf, w', lb', hg, _⟩ | ⟨elements, w', lb', hf, hg, hs'⟩
      · simp only [hf, hg, true_and]
        intro hsome
        cases hsome
      · simp only [hf, hg, true_and]
        exact fun _ => ⟨hs', rfl⟩

/-- What is delivered depends on the place alone. -/
theorem CollationElementIterator.At.delivers {ces : List CollationElement} (h : it.At table s)
    (hd : Delivers (windowNext cd) s ces) :
    Delivers (CollationElementIterator.getNext table cd) it ces :=
  Delivers.sim (fun _ _ hat => hat.getNext cd) h hd

/-- What is left of the current array comes before everything else. -/
theorem windowNext_rest {w : Window} {ces : List CollationElement} (rest : List CollationElement)
    (hroot : cd.trie.isSome) (hd : Delivers (windowNext cd) (w, []) ces) :
    Delivers (windowNext cd) (w, rest) (rest ++ ces) := by
  obtain ⟨root, hroot⟩ := Option.isSome_iff_exists.mp hroot
  induction rest with
  | nil => exact hd
  | cons collationElement rest ih =>
    refine .more (by simp [windowNext, hroot]) ?_
    simpa [windowNext, hroot] using ih

theorem windowNext_fetch {w w' : Window} {elements : CEArray} {ces : List CollationElement}
    (hroot : cd.trie.isSome) (hf : w.fetch cd = some (elements, w'))
    (hd : Delivers (windowNext cd) (w', []) ces) :
    Delivers (windowNext cd) (w, []) (elements.val ++ ces) := by
  have hrest := windowNext_rest elements.val.tail hroot hd
  obtain ⟨root, hroot⟩ := Option.isSome_iff_exists.mp hroot
  rw [← List.cons_head_tail elements.property, List.cons_append]
  refine .more (by simp [windowNext, hroot, hf, CEArray.first]) ?_
  simpa [windowNext, hroot, hf] using hrest

theorem windowNext_stop {w : Window} (hf : w.fetch cd = none) :
    Delivers (windowNext cd) (w, []) [] := by
  refine .done ?_
  rw [windowNext]
  cases cd.trie with
  | none => rfl
  | some root => simp [hf]

/-- The iterator comes to an end: every fetch takes a character. -/
theorem windowNext_delivers {lb : LookaheadBuffer} {w : Window} (cd : CollationData)
    (h : lb.Shows table w 0) : ∃ ces, Delivers (windowNext cd) (w, []) ces := by
  induction hn : w.chars.length using Nat.strongRecOn generalizing lb w with
  | ind n ih =>
    rcases getNextCEArray_spec cd h with ⟨hf, _⟩ | ⟨elements, w', lb', hf, _, hs'⟩
    · exact ⟨[], windowNext_stop hf⟩
    · cases hroot : cd.trie with
      | none => exact ⟨[], .done (by simp [windowNext, hroot])⟩
      | some root =>
        have hlt := Window.length_fetch_lt h.slot_lt hf
        obtain ⟨ces, hd⟩ := ih _ (by omega) hs' rfl
        exact ⟨_, windowNext_fetch (by simp [hroot]) hf hd⟩

/-- The start of a string, whatever the queue held. -/
theorem iteratorFor_at (table : UnicharDecompositionTable) (queue : UnicharQueue)
    (str : List UInt8) :
    (iteratorFor table queue str).At table (⟨0, 0, decomposedChars table str⟩, []) := by
  obtain ⟨hv, hp⟩ := Utf8DecomposeIterator.init_spec table str
  refine ⟨?_, rfl⟩
  rw [← hp]
  exact shows_init hv queue

/-- The elements of a string are a function of the string alone. -/
theorem iteratorFor_delivers (table : UnicharDecompositionTable) (cd : CollationData)
    (str : List UInt8) : ∃ ces, ∀ queue,
      Delivers (CollationElementIterator.getNext table cd) (iteratorFor table queue str) ces := by
  obtain ⟨ces, hd⟩ := windowNext_delivers cd
    (iteratorFor_at table ⟨fun _ => 0, 0, 0, 0⟩ str).shows
  exact ⟨ces, fun queue => (iteratorFor_at table queue str).delivers hd⟩

end

end NdsDevkit.Collation
