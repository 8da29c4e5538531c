import NdsDevkit.Collation.CollationElementIterator

namespace NdsDevkit.Collation

open Framework Text

abbrev ChildSearch := CollationTrieNode → Unichar → Option CollationTrieNode

def CollationTrieNode.child (node : CollationTrieNode) (c : Unichar) : Option CollationTrieNode :=
  node.children.find? fun next => next.character == c

section Match

variable (child : ChildSearch) (style : CollationParseStyle)

/-- A mark without a node is passed over. -/
def ignores (c : Unichar) : Bool := style = .combiningMarkSubset ∧ unicharIsCombiningMark c

/-- The node after the next character. -/
def nextNode (node : CollationTrieNode) (c : Unichar) : Option CollationTrieNode :=
  (child node c).or (if ignores style c then some node else none)

/-- The elements of the deepest node that has some, with the number of characters up to it. The
walk sees `budget` characters at most. -/
def longestMatch : Nat → CollationTrieNode → List Unichar → Option (CEArray × Nat)
  | budget + 1, node, c :: l =>
    (((nextNode child style node c).bind fun next => longestMatch budget next l).map
      fun found => (found.1, found.2 + 1)).or (node.collationElements.map (·, 0))
  | _, node, _ => node.collationElements.map (·, 0)

/-- How many characters the walk looks at. -/
def walked : Nat → CollationTrieNode → List Unichar → Nat
  | budget + 1, node, c :: l =>
    ((nextNode child style node c).map fun next => walked budget next l).getD 0 + 1
  | _, _, _ => 0

theorem longestMatch_isSome {node : CollationTrieNode} {elements : CEArray}
    (h : node.collationElements = some elements) (budget : Nat) (l : List Unichar) :
    (longestMatch child style budget node l).isSome := by
  cases budget with
  | zero => simp [longestMatch, h]
  | succ budget =>
    cases l with
    | nil => simp [longestMatch, h]
    | cons c l => simp [longestMatch, h]

variable {child style}

theorem longestMatch_le {budget : Nat} {node : CollationTrieNode} {l : List Unichar}
    {found : CEArray × Nat} (h : longestMatch child style budget node l = some found) :
    found.2 ≤ walked child style budget node l := by
  induction budget generalizing node l found with
  | zero =>
    simp only [longestMatch, Option.map_eq_some_iff] at h
    obtain ⟨_, _, rfl⟩ := h
    exact Nat.zero_le _
  | succ budget ih =>
    cases l with
    | nil =>
      simp only [longestMatch, Option.map_eq_some_iff] at h
      obtain ⟨_, _, rfl⟩ := h
      exact Nat.zero_le _
    | cons c l =>
      simp only [longestMatch, Option.or_eq_some_iff, Option.map_eq_some_iff,
        Option.bind_eq_some_iff] at h
      rcases h with ⟨deeper, ⟨next, hnext, hd⟩, rfl⟩ | ⟨_, _, _, rfl⟩
      · have := ih hd
        simp only [walked, hnext, Option.map_some, Option.getD_some]
        omega
      · exact Nat.zero_le _

theorem walked_le (budget : Nat) (node : CollationTrieNode) (l : List Unichar) :
    walked child style budget node l ≤ budget ∧ walked child style budget node l ≤ l.length := by
  induction budget generalizing node l with
  | zero => simp [walked]
  | succ budget ih =>
    cases l with
    | nil => simp [walked]
    | cons c l =>
      simp only [walked, List.length_cons]
      cases nextNode child style node c with
      | none => simp
      | some next =>
        have := ih next l
        simp only [Option.map_some, Option.getD_some]
        omega

end Match

/-- Children in strictly increasing order, all the way down. -/
inductive CollationTrieNode.Sorted : CollationTrieNode → Prop where
  | intro {node : CollationTrieNode} (h : SortedBy CollationTrieNode.character node.children)
      (hc : ∀ next ∈ node.children, next.Sorted) : node.Sorted

theorem CollationTrieNode.Sorted.findTrieNode_eq {node : CollationTrieNode} (h : node.Sorted)
    (c : Unichar) : findTrieNode node c = node.child c := by
  obtain ⟨hs, _⟩ := h
  exact binarySearch_eq_find c hs

theorem CollationTrieNode.Sorted.child_sorted {node next : CollationTrieNode} {c : Unichar}
    (h : node.Sorted) (hn : node.child c = some next) : next.Sorted := by
  obtain ⟨_, hc⟩ := h
  exact hc next (List.mem_of_find?_eq_some hn)

theorem CollationTrieNode.Sorted.leaf (elements : Option CEArray) (c : Unichar) :
    (CollationTrieNode.mk elements [] c).Sorted :=
  .intro .nil (by simp [CollationTrieNode.children])

theorem CollationTrieNode.Sorted.single {elements : Option CEArray} {next : CollationTrieNode}
    {c : Unichar} (h : next.Sorted) : (CollationTrieNode.mk elements [next] c).Sorted :=
  .intro (List.pairwise_singleton _ _) (by simpa [CollationTrieNode.children] using h)

/-- On sorted data the search does not matter. -/
theorem longestMatch_eq {style : CollationParseStyle} {node : CollationTrieNode} (h : node.Sorted)
    (budget : Nat) (l : List Unichar) : longestMatch findTrieNode style budget node l =
      longestMatch CollationTrieNode.child style budget node l := by
  induction budget generalizing node l with
  | zero => rfl
  | succ budget ih =>
    cases l with
    | nil => rfl
    | cons c l =>
      simp only [longestMatch, nextNode, h.findTrieNode_eq]
      cases hn : node.child c with
      | some next => simp [ih (h.child_sorted hn)]
      | none =>
        cases ignores style c with
        | true => simp [ih h]
        | false => simp

namespace CollationData

variable (cd : CollationData)

/-- What follows an element that was looked up by its first character alone. -/
def afterSingle (l : List Unichar) : List Unichar :=
  if cd.parseStyle = .combiningMarkSubset then l.dropWhile unicharIsCombiningMark else l

def simpleElement (c : Unichar) : Option CollationElement :=
  cd.simpleEntries.bind fun entries =>
    (entries.find? fun e => e.character == c).map SimpleCollationEntry.collationElement

/-- The longest match in the trie of a character and those that follow. -/
def trieMatch (c : Unichar) (l : List Unichar) : Option (CEArray × Nat) :=
  (cd.trie.bind fun root => root.child c).bind fun node =>
    longestMatch CollationTrieNode.child cd.parseStyle unicharQueueMaxLength node l

/-- The elements at a character, and the characters behind them. -/
def refStep (c : Unichar) (l : List Unichar) : CEArray × List Unichar :=
  match cd.simpleElement c with
  | some collationElement => (.single collationElement, cd.afterSingle l)
  | none =>
    match cd.trieMatch c l with
    | some (elements, depth) => (elements, l.drop depth)
    | none => (.single undefinedCE, cd.afterSingle l)

theorem length_afterSingle_le (l : List Unichar) : (cd.afterSingle l).length ≤ l.length := by
  rw [afterSingle]
  split
  · exact List.Sublist.length_le (List.dropWhile_sublist _)
  · exact Nat.le_refl _

theorem length_refStep_le (c : Unichar) (l : List Unichar) :
    (cd.refStep c l).2.length ≤ l.length := by
  rw [refStep]
  split
  · exact cd.length_afterSingle_le l
  · split
    · simp
    · exact cd.length_afterSingle_le l

/-- The collation elements of a list of characters. -/
def refElements : List Unichar → List CollationElement
  | [] => []
  | c :: l => (cd.refStep c l).1.val ++ refElements (cd.refStep c l).2
termination_by l => l.length
decreasing_by exact Nat.lt_succ_of_le (cd.length_refStep_le c l)

/-- Strictly sorted data with a trie that has elements for each single character. -/
structure WellFormed : Prop where
  simple : ∀ entries, cd.simpleEntries = some entries →
    SortedBy SimpleCollationEntry.character entries
  root : ∃ root, cd.trie = some root ∧ root.Sorted ∧
    ∀ node ∈ root.children, node.collationElements.isSome

end CollationData

end NdsDevkit.Collation
