import Mathlib.Data.List.Infix
import NdsDevkit.Collation.CompareCorrect
import NdsDevkit.Collation.Refinement

namespace NdsDevkit.Collation

open Framework Text LookaheadBuffer

/-- No base character is followed by more than one combining mark. -/
def AtMostOneMark (l : List Unichar) : Prop :=
  ∀ c rest, c :: rest <:+ l → ¬unicharIsCombiningMark c →
    (rest.takeWhile unicharIsCombiningMark).length ≤ 1

theorem AtMostOneMark.suffix {l l' : List Unichar} (h : AtMostOneMark l) (hs : l' <:+ l) :
    AtMostOneMark l' :=
  fun c rest hc => h c rest (hc.trans hs)

theorem atMostOneMark_nil : AtMostOneMark [] := by
  intro c rest hs
  simp at hs

theorem atMostOneMark_cons {c : Unichar} {l : List Unichar} : AtMostOneMark (c :: l) ↔
    (¬unicharIsCombiningMark c → (l.takeWhile unicharIsCombiningMark).length ≤ 1) ∧
      AtMostOneMark l := by
  constructor
  · intro h
    exact ⟨h c l (List.suffix_refl _), h.suffix (List.suffix_cons c l)⟩
  · intro h d rest hs
    rcases List.suffix_cons_iff.mp hs with he | hs
    · cases he
      exact h.1
    · exact h.2 d rest hs

/-- The node behind the marks that follow, if there is one for them. -/
def CollationTrieNode.behind (node : CollationTrieNode) : List Unichar → CollationTrieNode
  | [] => node
  | c :: _ => (node.child c).getD node

namespace CollationData

variable (cd : CollationData)

/-- The elements of a character and the marks that follow. -/
def clusterElements (c : Unichar) (marks : List Unichar) : CEArray :=
  match cd.simpleElement c with
  | some collationElement => .single collationElement
  | none =>
    ((cd.trie.bind fun root => root.child c).bind fun node =>
      (node.behind marks).collationElements).getD (.single undefinedCE)

/-- A trie of base characters, each alone or with one combining mark. -/
structure Accented : Prop where
  parseStyle : cd.parseStyle = .combiningMarkSubset
  base : ∀ root, cd.trie = some root → ∀ node ∈ root.children,
    ¬unicharIsCombiningMark node.character ∧ node.collationElements.isSome
  accent : ∀ root, cd.trie = some root → ∀ node ∈ root.children, ∀ next ∈ node.children,
    unicharIsCombiningMark next.character ∧ next.collationElements.isSome ∧ next.children = []

end CollationData

theorem CollationTrieNode.child_some {node next : CollationTrieNode} {c : Unichar}
    (h : node.child c = some next) : next ∈ node.children ∧ next.character = c :=
  ⟨List.mem_of_find?_eq_some h, by simpa using List.find?_some h⟩

theorem longestMatch_stop {child : ChildSearch} {style : CollationParseStyle} (budget : Nat)
    {node : CollationTrieNode} {l : List Unichar}
    (h : ∀ c, l.head? = some c → nextNode child style node c = none) :
    longestMatch child style budget node l = node.collationElements.map (·, 0) := by
  cases budget with
  | zero => rfl
  | succ budget =>
    cases l with
    | nil => rfl
    | cons c l => simp [longestMatch, h c rfl]

variable {cd : CollationData} {c : Unichar} {l : List Unichar}

theorem ignores_subset (c : Unichar) :
    ignores .combiningMarkSubset c = unicharIsCombiningMark c := by
  simp [ignores]

theorem head_of_takeWhile_nil (h : l.takeWhile unicharIsCombiningMark = []) {c : Unichar}
    (hc : l.head? = some c) : ¬unicharIsCombiningMark c := by
  cases l with
  | nil => cases hc
  | cons d l =>
    cases hc
    intro hm
    rw [List.takeWhile_cons_of_pos hm] at h
    cases h

theorem takeWhile_eq_cons {p : Unichar → Bool} {m : Unichar} {marks : List Unichar}
    (h : l.takeWhile p = m :: marks) : ∃ l', l = m :: l' ∧ p m ∧ l'.takeWhile p = marks := by
  cases l with
  | nil => cases h
  | cons d l =>
    by_cases hd : p d
    · rw [List.takeWhile_cons_of_pos hd] at h
      cases h
      exact ⟨l, rfl, hd, rfl⟩
    · rw [List.takeWhile_cons_of_neg hd] at h
      cases h

/-- A walk from a base character takes the one mark that follows it. -/
theorem longestMatch_accent {node : CollationTrieNode} (hnode : node.collationElements.isSome)
    (hnext : ∀ next ∈ node.children,
      unicharIsCombiningMark next.character ∧ next.collationElements.isSome ∧ next.children = [])
    (hone : (l.takeWhile unicharIsCombiningMark).length ≤ 1) :
    longestMatch CollationTrieNode.child .combiningMarkSubset unicharQueueMaxLength node l =
      (node.behind (l.takeWhile unicharIsCombiningMark)).collationElements.map
        (·, (l.takeWhile unicharIsCombiningMark).length) := by
  have hbase : ∀ c, ¬unicharIsCombiningMark c →
      nextNode CollationTrieNode.child .combiningMarkSubset node c = none := by
    intro c hc
    have hchild : node.child c = none := by
      apply Option.eq_none_iff_forall_not_mem.mpr
      intro next hn
      obtain ⟨hmem, rfl⟩ := CollationTrieNode.child_some hn
      exact hc (hnext next hmem).1
    rw [nextNode, hchild, ignores_subset, if_neg hc]
    rfl
  cases hmarks : l.takeWhile unicharIsCombiningMark with
  | nil => exact longestMatch_stop _ fun c hc => hbase c (head_of_takeWhile_nil hmarks hc)
  | cons m marks =>
    obtain ⟨l, rfl, hm, rfl⟩ := takeWhile_eq_cons hmarks
    rw [hmarks, List.length_cons] at hone
    have hnil : l.takeWhile unicharIsCombiningMark = [] :=
      List.eq_nil_of_length_eq_zero (Nat.le_zero.mp (Nat.le_of_succ_le_succ hone))
    have hstep : nextNode CollationTrieNode.child .combiningMarkSubset node m =
        some ((node.child m).getD node) := by
      rw [nextNode, ignores_subset, if_pos hm]
      cases node.child m <;> rfl
    rw [hnil]
    change longestMatch _ _ (4 + 1) node (m :: l) = _
    rw [longestMatch, hstep, Option.bind_some, longestMatch_stop]
    · have hsome : ((node.child m).getD node).collationElements.isSome := by
        cases hn : node.child m with
        | none => exact hnode
        | some next => exact (hnext next (CollationTrieNode.child_some hn).1).2.1
      obtain ⟨elements, he⟩ := Option.isSome_iff_exists.mp hsome
      rw [CollationTrieNode.behind, he]
      rfl
    · intro c hc
      have hcm := head_of_takeWhile_nil hnil hc
      cases hn : node.child m with
      | none => exact hbase c hcm
      | some next =>
        have hleaf := (hnext next (CollationTrieNode.child_some hn).1).2.2
        rw [Option.getD_some, nextNode, ignores_subset, if_neg hcm, CollationTrieNode.child, hleaf]
        rfl

namespace CollationData.Accented

variable (h : cd.Accented)

include h

theorem child_mark (hc : unicharIsCombiningMark c) :
    (cd.trie.bind fun root => root.child c) = none := by
  cases hroot : cd.trie with
  | none => rfl
  | some root =>
    apply Option.eq_none_iff_forall_not_mem.mpr
    intro node hn
    obtain ⟨hmem, rfl⟩ := CollationTrieNode.child_some hn
    exact (h.base root hroot node hmem).1 hc

theorem trieMatch_eq (hl : AtMostOneMark (c :: l)) : cd.trieMatch c l =
    ((cd.trie.bind fun root => root.child c).bind fun node =>
      (node.behind (l.takeWhile unicharIsCombiningMark)).collationElements).map
        (·, (l.takeWhile unicharIsCombiningMark).length) := by
  rw [trieMatch]
  by_cases hc : unicharIsCombiningMark c
  · rw [h.child_mark hc]
    rfl
  · have hone := (atMostOneMark_cons.mp hl).1 hc
    cases hroot : cd.trie with
    | none => rfl
    | some root =>
      cases hn : root.child c with
      | none => simp [hn]
      | some node =>
        have hmem := (CollationTrieNode.child_some hn).1
        rw [Option.bind_some, hn, Option.bind_some, Option.bind_some, h.parseStyle]
        exact longestMatch_accent (h.base root hroot node hmem).2 (h.accent root hroot node hmem)
          hone

/-- An element array is fetched for a character together with the marks that follow it. -/
theorem refStep_eq (hl : AtMostOneMark (c :: l)) : cd.refStep c l =
    (cd.clusterElements c (l.takeWhile unicharIsCombiningMark),
      l.dropWhile unicharIsCombiningMark) := by
  have hafter : cd.afterSingle l = l.dropWhile unicharIsCombiningMark := if_pos h.parseStyle
  rw [refStep, clusterElements, h.trieMatch_eq hl, hafter]
  cases cd.simpleElement c with
  | some collationElement => rfl
  | none =>
    cases (cd.trie.bind fun root => root.child c).bind fun node =>
        (node.behind (l.takeWhile unicharIsCombiningMark)).collationElements with
    | none => rfl
    | some elements => exact congrArg (elements, ·) (drop_length_takeWhile _ l)

theorem refElements_cons (hl : AtMostOneMark (c :: l)) : cd.refElements (c :: l) =
    (cd.clusterElements c (l.takeWhile unicharIsCombiningMark)).val ++
      cd.refElements (l.dropWhile unicharIsCombiningMark) := by
  rw [refElements, h.refStep_eq hl]

theorem matchDepth_le (hl : AtMostOneMark l) : cd.matchDepth l ≤ 1 := by
  cases l with
  | nil => exact Nat.zero_le 1
  | cons c l =>
    rw [matchDepth]
    split
    · exact Nat.zero_le 1
    · by_cases hc : unicharIsCombiningMark c
      · rw [trieMatch, h.child_mark hc]
        exact Nat.zero_le 1
      · rw [h.trieMatch_eq hl]
        have hone := (atMostOneMark_cons.mp hl).1 hc
        cases (cd.trie.bind fun root => root.child c).bind fun node =>
          (node.behind (l.takeWhile unicharIsCombiningMark)).collationElements with
        | none => exact Nat.zero_le 1
        | some elements => exact hone

end CollationData.Accented

theorem windowNext_suffix (s : Window × List CollationElement) (hs : s.1.slot < 5) :
    (windowNext cd s).2.1.chars <:+ s.1.chars := by
  obtain ⟨w, rest⟩ := s
  rw [windowNext]
  split
  · exact List.suffix_refl _
  · cases rest with
    | cons collationElement rest => exact List.suffix_refl _
    | nil =>
      cases hf : w.fetch cd with
      | none => simp
      | some r =>
        obtain ⟨elements, w'⟩ := r
        simp only
        cases hw : w.chars with
        | nil =>
          rw [Window.fetch_nil cd hw] at hf
          cases hf
        | cons c l => exact (Window.fetch_suffix hs hw hf).trans (List.suffix_cons c l)

variable {table : UnicharDecompositionTable}

/-- Every window of a run shows what is left of the characters. -/
theorem visits_suffix {it : CollationElementIterator} {s s' : Window × List CollationElement}
    (hat : it.At table s) (hv : Visits (windowNext cd) s s') : s'.1.chars <:+ s.1.chars := by
  induction hv generalizing it with
  | refl s => exact List.suffix_refl _
  | @step s t a ha _ ih =>
    have hnext := (hat.getNext cd).2 (by rw [ha]; rfl)
    exact (ih hnext).trans (windowNext_suffix s hat.shows.slot_lt)

/-- With one mark at most behind each base character there is always room in the ring. -/
theorem CollationData.Accented.roomToSkip (h : cd.Accented) {queue : UnicharQueue}
    {str : List UInt8} (hmarks : AtMostOneMark (decomposedChars table str))
    {it : CollationElementIterator}
    (hv : Visits (CollationElementIterator.getNext table cd) (iteratorFor table queue str) it) :
    it.RoomToSkip table cd := by
  obtain ⟨w, rest, hvs, hat⟩ := visits_window hv
  intro hrest
  obtain rfl : rest = [] := hat.current.symm.trans hrest
  refine hat.room_iff.mpr ?_ hrest
  have hdepth : cd.matchDepth w.chars ≤ 1 :=
    h.matchDepth_le (hmarks.suffix (visits_suffix (iteratorFor_at table queue str) hvs))
  have hslot : w.skipSlot cd ≤ 4 := by
    have hlt : w.slot < 5 := hat.shows.slot_lt
    rw [Window.skipSlot]
    split <;> omega
  rw [Window.Room]
  omega

/-- Texts with the same elements compare as equal. -/
theorem CollationData.Accented.localizedCompare_zero (h : cd.Accented) (hwf : cd.WellFormed)
    {a b : List UInt8} (ha : AtMostOneMark (decomposedChars table a))
    (hb : AtMostOneMark (decomposedChars table b))
    (he : cd.refElements (decomposedChars table a) = cd.refElements (decomposedChars table b)) :
    LocalizedCompare table cd a b 0 := by
  refine (localizedCompare_of_delivers
    (fun queue => getNext_refines table cd hwf queue a fun _ => h.roomToSkip ha)
    (fun queue => getNext_refines table cd hwf queue b fun _ => h.roomToSkip hb) 0).mpr ?_
  rw [he, Std.ReflOrd.compare_self]
  rfl

/-! ### Other spellings with the same elements -/

/-- The same elements, also behind the marks in front, which are the same. -/
structure Alike (cd : CollationData) (l l' : List Unichar) : Prop where
  single : AtMostOneMark l'
  marks : l.takeWhile unicharIsCombiningMark = l'.takeWhile unicharIsCombiningMark
  elements : cd.refElements l = cd.refElements l'
  behind : cd.refElements (l.dropWhile unicharIsCombiningMark) =
    cd.refElements (l'.dropWhile unicharIsCombiningMark)

variable {l' : List Unichar}

theorem Alike.nil (cd : CollationData) : Alike cd [] [] := ⟨atMostOneMark_nil, rfl, rfl, rfl⟩

theorem dropWhile_of_takeWhile_nil (h : l.takeWhile unicharIsCombiningMark = []) :
    l.dropWhile unicharIsCombiningMark = l := by
  rw [← drop_length_takeWhile, h]
  rfl

/-- Without marks in front it is enough that the elements are the same. -/
theorem Alike.of_nil (h : l.takeWhile unicharIsCombiningMark = [])
    (h' : l'.takeWhile unicharIsCombiningMark = []) (hsingle : AtMostOneMark l')
    (he : cd.refElements l = cd.refElements l') : Alike cd l l' := by
  refine ⟨hsingle, h.trans h'.symm, he, ?_⟩
  rwa [dropWhile_of_takeWhile_nil h, dropWhile_of_takeWhile_nil h']

theorem Alike.single_cons (h : Alike cd l l') (hl : AtMostOneMark (c :: l)) :
    AtMostOneMark (c :: l') := by
  refine atMostOneMark_cons.mpr ⟨?_, h.single⟩
  rw [← h.marks]
  exact (atMostOneMark_cons.mp hl).1

variable (hcd : cd.Accented)

include hcd

/-- A character that is kept. -/
theorem Alike.cons (h : Alike cd l l') (hl : AtMostOneMark (c :: l)) :
    Alike cd (c :: l) (c :: l') := by
  have hl' := h.single_cons hl
  have he : cd.refElements (c :: l) = cd.refElements (c :: l') := by
    rw [hcd.refElements_cons hl, hcd.refElements_cons hl', h.marks, h.behind]
  by_cases hc : unicharIsCombiningMark c
  · refine ⟨hl', ?_, he, ?_⟩
    · rw [List.takeWhile_cons_of_pos hc, List.takeWhile_cons_of_pos hc, h.marks]
    · rw [List.dropWhile_cons_of_pos hc, List.dropWhile_cons_of_pos hc, h.behind]
  · exact .of_nil (List.takeWhile_cons_of_neg hc) (List.takeWhile_cons_of_neg hc) hl' he

theorem Alike.append (h : Alike cd l l') {front : List Unichar}
    (hl : AtMostOneMark (front ++ l)) : Alike cd (front ++ l) (front ++ l') := by
  induction front with
  | nil => exact h
  | cons c front ih => exact (ih (hl.suffix (List.suffix_cons c _))).cons hcd hl

/-- The elements of base characters with no mark behind them. -/
theorem refElements_bases {r : List Unichar} (hr : ∀ b ∈ r, ¬unicharIsCombiningMark b)
    (hl : AtMostOneMark l) (hmarks : l.takeWhile unicharIsCombiningMark = []) :
    AtMostOneMark (r ++ l) ∧ (r ++ l).takeWhile unicharIsCombiningMark = [] ∧
      cd.refElements (r ++ l) =
        (r.flatMap fun b => (cd.clusterElements b []).val) ++ cd.refElements l := by
  induction r with
  | nil => exact ⟨hl, hmarks, rfl⟩
  | cons b r ih =>
    obtain ⟨hb, hr⟩ := List.forall_mem_cons.mp hr
    obtain ⟨hone, hnil, he⟩ := ih hr
    have hone' : AtMostOneMark (b :: (r ++ l)) :=
      atMostOneMark_cons.mpr ⟨fun _ => by rw [hnil]; exact Nat.zero_le 1, hone⟩
    refine ⟨hone', List.takeWhile_cons_of_neg hb, ?_⟩
    rw [List.cons_append, hcd.refElements_cons hone', hnil, dropWhile_of_takeWhile_nil hnil, he,
      List.flatMap_cons, List.append_assoc]

/-- A character with its mark is spelled with base characters. -/
theorem Alike.spell (h : Alike cd l l') {m : Unichar} {r : List Unichar}
    (hl : AtMostOneMark (c :: m :: l)) (hc : ¬unicharIsCombiningMark c)
    (hm : unicharIsCombiningMark m) (hr : ∀ b ∈ r, ¬unicharIsCombiningMark b)
    (he : (cd.clusterElements c [m]).val = r.flatMap fun b => (cd.clusterElements b []).val) :
    Alike cd (c :: m :: l) (r ++ l') := by
  have htake : (m :: l).takeWhile unicharIsCombiningMark =
      m :: l.takeWhile unicharIsCombiningMark := List.takeWhile_cons_of_pos hm
  have hnil : l.takeWhile unicharIsCombiningMark = [] := by
    have hone := (atMostOneMark_cons.mp hl).1 hc
    rw [htake, List.length_cons] at hone
    exact List.eq_nil_of_length_eq_zero (by omega)
  obtain ⟨hone, hbase, helements⟩ := refElements_bases hcd hr h.single (h.marks.symm.trans hnil)
  refine .of_nil (List.takeWhile_cons_of_neg hc) hbase hone ?_
  rw [hcd.refElements_cons hl, htake, hnil, he, helements, List.dropWhile_cons_of_pos hm,
    dropWhile_of_takeWhile_nil hnil, h.elements]

/-- A character is spelled with another one twice, and keeps its mark. -/
theorem Alike.double (h : Alike cd l l') {b : Unichar} (hl : AtMostOneMark (c :: l))
    (hc : ¬unicharIsCombiningMark c) (hb : ¬unicharIsCombiningMark b)
    (he : ∀ marks, (cd.clusterElements c marks).val =
      (cd.clusterElements b []).val ++ (cd.clusterElements b marks).val) :
    Alike cd (c :: l) (b :: b :: l') := by
  have hone : AtMostOneMark (b :: l') := by
    refine atMostOneMark_cons.mpr ⟨?_, h.single⟩
    intro _
    rw [← h.marks]
    exact (atMostOneMark_cons.mp hl).1 hc
  obtain ⟨htwo, hbase, helements⟩ := refElements_bases hcd (r := [b]) (by simpa using hb) hone
    (List.takeWhile_cons_of_neg hb)
  refine .of_nil (List.takeWhile_cons_of_neg hc) hbase htwo ?_
  rw [hcd.refElements_cons hl, he, show b :: b :: l' = [b] ++ b :: l' from rfl, helements,
    hcd.refElements_cons hone, h.marks, h.behind]
  simp

end NdsDevkit.Collation
