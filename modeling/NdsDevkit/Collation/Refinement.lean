import NdsDevkit.Collation.IteratorCorrect
import NdsDevkit.Text.DecompositionData

namespace NdsDevkit.Collation

open Framework Text LookaheadBuffer

/-- How many characters behind the first one the elements at the front stand for. -/
def CollationData.matchDepth (cd : CollationData) : List Unichar → Nat
  | [] => 0
  | c :: l =>
    if (cd.simpleElement c).isSome then 0 else ((cd.trieMatch c l).map Prod.snd).getD 0

namespace UnicharQueue

/-- The slot of the first character, or of the next one to come. -/
def firstSlot (q : UnicharQueue) : Nat := (if q.tail < 0 then q.head else q.tail).toNat

def contents (q : UnicharQueue) : List Unichar :=
  (List.range q.length.toNat).map fun i => q.buffer ((q.firstSlot + i) % unicharQueueMaxLength)

variable {q : UnicharQueue} {slot p : Nat} {xs : List Unichar}

theorem Holds.firstSlot_eq (h : q.Holds slot xs p) : q.firstSlot = slot := by
  have hs := h.slot_lt
  have htail := h.tail
  rw [firstSlot]
  rw [h.head]
  split_ifs at htail ⊢ <;> omega

theorem Holds.contents_eq (h : q.Holds slot xs p) : q.contents = xs := by
  rw [contents, unicharQueueMaxLength]
  rw [h.length_eq, h.firstSlot_eq, Int.toNat_natCast]
  refine List.ext_getElem (by simp) ?_
  intro i _ hi
  have := h.slots i hi
  rw [List.getElem?_eq_getElem hi, Option.some.injEq] at this
  simp [this]

end UnicharQueue

/-- The slot of the character behind the next one, once that has been taken. -/
def skipSlot (cd : CollationData) (q : UnicharQueue) : Nat :=
  if q.tail < 0 ∧ cd.simpleEntries.isNone then q.firstSlot
  else (q.firstSlot + 1) % unicharQueueMaxLength

def LookaheadBuffer.upcoming (table : UnicharDecompositionTable) (lb : LookaheadBuffer) :
    List Unichar :=
  lb.queue.contents ++ lb.it.pending table

/-- If an array is to be fetched, the characters it stands for end before the ring does. -/
def CollationElementIterator.RoomToSkip (table : UnicharDecompositionTable) (cd : CollationData)
    (it : CollationElementIterator) : Prop :=
  it.currentCEArray = [] →
    skipSlot cd it.lookaheadBuffer.queue + cd.matchDepth (it.lookaheadBuffer.upcoming table) ≤
      unicharQueueMaxLength

namespace LookaheadBuffer.Window

def skipSlot (cd : CollationData) (w : Window) : Nat :=
  if w.queued = 0 ∧ cd.simpleEntries.isNone then w.slot else (w.slot + 1) % 5

def Room (cd : CollationData) (w : Window) : Prop := w.skipSlot cd + cd.matchDepth w.chars ≤ 5

instance (cd : CollationData) (w : Window) : Decidable (w.Room cd) :=
  inferInstanceAs (Decidable (_ ≤ _))

end LookaheadBuffer.Window

variable {table : UnicharDecompositionTable} {cd : CollationData}

section

variable {lb : LookaheadBuffer}
  {w : Window} {p : Nat}

theorem LookaheadBuffer.Shows.upcoming_eq (h : lb.Shows table w p) :
    lb.upcoming table = w.chars := by
  obtain ⟨xs, _, hq, hl⟩ := h.holds
  rw [LookaheadBuffer.upcoming, hq.contents_eq, hl]

theorem LookaheadBuffer.Shows.skipSlot_eq (h : lb.Shows table w p) :
    skipSlot cd lb.queue = w.skipSlot cd := by
  obtain ⟨xs, hn, hq, _⟩ := h.holds
  have htail : lb.queue.tail < 0 ↔ w.queued = 0 := by
    have := hq.tail
    rw [hn] at this
    split_ifs at this <;> omega
  simp only [skipSlot, Window.skipSlot, htail, hq.firstSlot_eq, unicharQueueMaxLength]

theorem CollationElementIterator.At.room_iff {it : CollationElementIterator}
    (h : it.At table (w, [])) : it.RoomToSkip table cd ↔ w.Room cd := by
  rw [RoomToSkip, Window.Room]
  rw [h.shows.upcoming_eq, h.shows.skipSlot_eq]
  exact ⟨fun hr => hr h.current, fun hr _ => hr⟩

/-- The window after the first character has been taken by the trie. -/
theorem pop_slot (cd : CollationData) (w : Window) :
    (if cd.simpleEntries.isSome then w.peeked 1 else w).pop.slot = w.skipSlot cd := by
  rw [Window.skipSlot]
  cases cd.simpleEntries with
  | none =>
    simp only [Option.isSome_none, Bool.false_eq_true, if_false, Option.isNone_none, and_true]
    rw [Window.pop]
    split <;> rfl
  | some entries =>
    simp only [Option.isSome_some, if_true, Option.isNone_some, Bool.false_eq_true, and_false,
      if_false]
    rw [Window.pop]
    rw [if_neg (by simp [Window.peeked])]
    rfl

theorem ignoreMarks_chars (cd : CollationData) (w : Window) :
    (w.ignoreMarks cd 0).chars = cd.afterSingle w.chars := by
  rw [Window.ignoreMarks, CollationData.afterSingle]
  split
  · exact w.skipMarks_chars_zero
  · rfl

variable (hwf : cd.WellFormed)

include hwf

theorem simpleElement_eq (c : Unichar) : cd.simpleElement c =
    (cd.simpleEntries.bind fun entries => findSimpleEntry entries c).map
      SimpleCollationEntry.collationElement := by
  rw [CollationData.simpleElement]
  cases he : cd.simpleEntries with
  | none => rfl
  | some entries =>
    have hs := hwf.simple entries he
    simp only [Option.bind_some, findSimpleEntry]
    rw [binarySearch_eq_find c hs]

/-- A fetch returns the reference's elements, and leaves its characters if the ring has room. -/
theorem fetch_iff {c : Unichar} {l : List Unichar} (hs : w.slot < 5) (hw : w.chars = c :: l) :
    ∃ w', w.fetch cd = some ((cd.refStep c l).1, w') ∧
      (w'.chars = (cd.refStep c l).2 ↔ w.Room cd) := by
  obtain ⟨root, hroot, hsorted, hvalid⟩ := hwf.root
  have hslot4 : w.skipSlot cd ≤ 4 := by
    rw [Window.skipSlot]
    split <;> omega
  rw [Window.Room]
  rw [Window.fetch_cons cd hw, hw]
  rw [CollationData.refStep, CollationData.matchDepth]
  simp only [simpleElement_eq hwf]
  cases he : cd.simpleEntries.bind fun entries => findSimpleEntry entries c with
  | some entry =>
    refine ⟨_, rfl, ?_⟩
    rw [ignoreMarks_chars, Window.skip_one (by simpa using hs)]
    simp only [Window.peeked_chars, hw, List.tail_cons, Option.map_some, Option.isSome_some,
      if_true,
      true_iff]
    omega
  | none =>
    have hpop := pop_slot cd w
    have hchars : (if cd.simpleEntries.isSome then w.peeked 1 else w).pop.chars = l := by
      rw [Window.pop_chars]
      split <;> simp [hw]
    generalize (if cd.simpleEntries.isSome then w.peeked 1 else w).pop = wp at hpop hchars
    simp only [hroot, Option.map_some, Option.map_none, Option.isSome_none, Bool.false_eq_true,
      if_false]
    rw [Window.trieFetch, CollationData.trieMatch]
    rw [hroot, hsorted.findTrieNode_eq, hchars, Option.bind_some]
    cases hn : root.child c with
    | none =>
      refine ⟨_, rfl, ?_⟩
      rw [ignoreMarks_chars, hchars]
      simp only [Option.bind_none, Option.map_none, Option.getD_none, true_iff]
      omega
    | some node =>
      obtain ⟨elements, hel⟩ :=
        Option.isSome_iff_exists.mp (hvalid node (List.mem_of_find?_eq_some hn))
      obtain ⟨⟨found, depth⟩, hm⟩ := Option.isSome_iff_exists.mp
        (longestMatch_isSome findTrieNode cd.parseStyle hel unicharQueueMaxLength l)
      have hdl : depth ≤ l.length := Nat.le_trans (longestMatch_le hm) (walked_le _ _ _).2
      rw [longestMatch_eq (hsorted.child_sorted hn)] at hm
      simp only [longestMatch_eq (hsorted.child_sorted hn), hm, Option.bind_some, Option.map_some,
        Option.getD_some]
      refine ⟨_, rfl, ?_⟩
      rw [Window.skip_chars, Window.peeked_chars, hchars, Window.dropped, Window.peeked_slot, hpop]
      constructor
      · intro hd
        have := congrArg List.length hd
        rw [List.length_drop, List.length_drop] at this
        omega
      · intro hr
        rw [Nat.min_eq_left (by omega)]

omit hwf in
theorem windowNext_visits {w' : Window} {elements : CEArray} (hroot : cd.trie.isSome)
    (hf : w.fetch cd = some (elements, w')) : Visits (windowNext cd) (w, []) (w', []) := by
  obtain ⟨root, hroot⟩ := Option.isSome_iff_exists.mp hroot
  have hrest (rest : List CollationElement) : Visits (windowNext cd) (w', rest) (w', []) := by
    induction rest with
    | nil => exact .refl _
    | cons collationElement rest ih =>
      refine .step (a := collationElement) (by simp [windowNext, hroot]) ?_
      simpa [windowNext, hroot] using ih
  refine .step (a := elements.first) (by simp [windowNext, hroot, hf]) ?_
  simpa [windowNext, hroot, hf] using hrest elements.val.tail

/-- While there is always room, every fetch is a step of the reference. -/
theorem windowNext_refines (hs : lb.Shows table w 0)
    (hroom : ∀ w', Visits (windowNext cd) (w, []) (w', []) → w'.Room cd) :
    Delivers (windowNext cd) (w, []) (cd.refElements w.chars) := by
  have hroot : cd.trie.isSome := by
    obtain ⟨root, hroot, _⟩ := hwf.root
    rw [hroot]
    rfl
  induction hn : w.chars.length using Nat.strongRecOn generalizing lb w with
  | ind n ih =>
    cases hw : w.chars with
    | nil =>
      rw [CollationData.refElements]
      exact windowNext_stop (Window.fetch_nil cd hw)
    | cons c l =>
      obtain ⟨w', hf, hchars⟩ := fetch_iff hwf hs.slot_lt hw
      have hvisit := windowNext_visits hroot hf
      obtain ⟨lb', hs'⟩ := hs.fetch hf
      have hlt := Window.length_fetch_lt hs.slot_lt hf
      have htail := ih _ (by omega) hs' (fun v hv => hroom v (hvisit.trans hv)) rfl
      rw [CollationData.refElements, ← hchars.mpr (hroom w (.refl _))]
      exact windowNext_fetch hroot hf htail

end

/-- Every state of a run of the iterator stands on one of the run of its windows. -/
theorem visits_window {queue : UnicharQueue} {str : List UInt8} {it : CollationElementIterator}
    (hv : Visits (CollationElementIterator.getNext table cd) (iteratorFor table queue str) it) :
    ∃ w rest, Visits (windowNext cd) (⟨0, 0, decomposedChars table str⟩, []) (w, rest) ∧
      it.At table (w, rest) := by
  have hstep (s : Window × List CollationElement) (it : CollationElementIterator)
      (h : it.At table s) : (windowNext cd s).1 = (it.getNext table cd).1 ∧
        ((it.getNext table cd).1.isSome →
          (it.getNext table cd).2.At table (windowNext cd s).2) := by
    obtain ⟨h1, h2⟩ := h.getNext cd
    rw [h1]
    exact ⟨rfl, h2⟩
  obtain ⟨⟨w, rest⟩, hvs, hat⟩ := hv.sim hstep (iteratorFor_at table queue str)
  exact ⟨w, rest, hvs, hat⟩

/-- Room can be told from the windows. -/
theorem roomToSkip_of_windows (queue : UnicharQueue) (str : List UInt8)
    (hroom : ∀ s, Visits (windowNext cd) (⟨0, 0, decomposedChars table str⟩, []) s →
      s.2 = [] → s.1.Room cd)
    (it : CollationElementIterator)
    (hv : Visits (CollationElementIterator.getNext table cd) (iteratorFor table queue str) it) :
    it.RoomToSkip table cd := by
  obtain ⟨w, rest, hvs, hat⟩ := visits_window hv
  intro hrest
  have hnil : rest = [] := hat.current.symm.trans hrest
  subst hnil
  exact hat.room_iff.mpr (hroom _ hvs rfl) hrest

/-- In every run whose fetches all find room to skip, the iterator delivers the elements of the
list-level reading. -/
theorem getNext_refines (table : UnicharDecompositionTable) (cd : CollationData)
    (hwf : cd.WellFormed) (queue : UnicharQueue) (str : List UInt8)
    (hroom : ∀ it, Visits (CollationElementIterator.getNext table cd)
      (iteratorFor table queue str) it → it.RoomToSkip table cd) :
    Delivers (CollationElementIterator.getNext table cd) (iteratorFor table queue str)
      (cd.refElements (decomposedChars table str)) := by
  have hat := iteratorFor_at table queue str
  refine hat.delivers (windowNext_refines hwf hat.shows ?_)
  intro w' hv
  obtain ⟨it, hvit, hat'⟩ := hv.sim (fun _ _ h => h.getNext cd) hat
  exact hat'.room_iff.mp (hroom it hvit)

/-- `a` and `abc` have elements, `ab` has none. -/
def trigraphData : CollationData where
  parseStyle := .combiningMarkExact
  trie := some (.mk none
    [.mk (some (.single 1)) [.mk none [.mk (some (.single 2)) [] 99] 98] 97] 0)
  simpleEntries := none

theorem trigraphData_wellFormed : trigraphData.WellFormed := by
  refine ⟨?_, _, rfl, .single (.single (.single (.leaf _ _))), ?_⟩
  · intro entries h
    cases h
  · simp [CollationTrieNode.children, CollationTrieNode.collationElements]

theorem getNext_refines_trigraph :
    Delivers (CollationElementIterator.getNext unicharDecompositionData trigraphData)
      (iteratorFor unicharDecompositionData ⟨fun _ => 0, 0, 0, 0⟩ [97, 98, 99]) [2] := by
  have hroom : ∀ s, Visits (windowNext trigraphData)
      (⟨0, 0, decomposedChars unicharDecompositionData [97, 98, 99]⟩, []) s →
      s.2 = [] → s.1.Room trigraphData := by
    rw [show decomposedChars unicharDecompositionData [97, 98, 99] = [97, 98, 99] by
      decide +kernel]
    intro s hv _
    cases hv with
    | refl => decide
    | step _ hv =>
      rw [show (windowNext trigraphData (⟨0, 0, [97, 98, 99]⟩, [])).2 = (⟨2, 0, []⟩, []) from rfl]
        at hv
      cases hv with
      | refl => decide
      | step ha _ => cases ha
  have h := getNext_refines unicharDecompositionData trigraphData trigraphData_wellFormed
    ⟨fun _ => 0, 0, 0, 0⟩ [97, 98, 99] (roomToSkip_of_windows _ _ hroom)
  rwa [show trigraphData.refElements
    (decomposedChars unicharDecompositionData [97, 98, 99]) = [2] by
    decide +kernel] at h

/-- When the ring ends between `b` and `c`, `c` is read once more. -/
theorem getNext_ring_end : trigraphData.WellFormed ∧ ∀ queue,
    ¬ Delivers (CollationElementIterator.getNext unicharDecompositionData trigraphData)
      (iteratorFor unicharDecompositionData queue [97, 97, 97, 97, 97, 98, 99])
      (trigraphData.refElements
        (decomposedChars unicharDecompositionData [97, 97, 97, 97, 97, 98, 99])) := by
  refine ⟨trigraphData_wellFormed, ?_⟩
  intro queue h
  have hchars : decomposedChars unicharDecompositionData [97, 97, 97, 97, 97, 98, 99] =
      [97, 97, 97, 97, 97, 98, 99] := by decide +kernel
  have href : trigraphData.refElements [97, 97, 97, 97, 97, 98, 99] = [1, 1, 1, 1, 2] := by
    decide +kernel
  have hrun : Delivers (windowNext trigraphData)
      (⟨0, 0, [97, 97, 97, 97, 97, 98, 99]⟩, []) [1, 1, 1, 1, 2, 0] :=
    .more rfl (.more rfl (.more rfl (.more rfl (.more rfl (.more rfl (.done rfl))))))
  have hat := iteratorFor_at unicharDecompositionData queue [97, 97, 97, 97, 97, 98, 99]
  rw [hchars] at hat h
  rw [href] at h
  have := h.unique (hat.delivers hrun)
  cases this

end NdsDevkit.Collation
