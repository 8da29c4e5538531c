import NdsDevkit.Framework.BinarySearch
import NdsDevkit.Framework.Loop
import NdsDevkit.Collation.LookaheadBuffer

namespace NdsDevkit.Collation

open Framework Text

abbrev CollationElement := UInt32

/-- The element of input that maps to nothing else. -/
def undefinedCE : CollationElement := 0

/-- How combining marks are treated: they must match the trie, or those that are not in the
trie are ignored. -/
inductive CollationParseStyle where
  | combiningMarkExact
  | combiningMarkSubset
  deriving DecidableEq

/-- An element array. No array of the collation data is empty. -/
abbrev CEArray := { elements : List CollationElement // elements ≠ [] }

def CEArray.single (ce : CollationElement) : CEArray := ⟨[ce], by simp⟩

def CEArray.first (elements : CEArray) : CollationElement := elements.val.head elements.property

/-- A node without elements cannot be matched itself, but its children can. -/
inductive CollationTrieNode where
  | mk (collationElements : Option CEArray) (children : List CollationTrieNode)
      (character : Unichar)

namespace CollationTrieNode

def collationElements : CollationTrieNode → Option CEArray
  | mk collationElements _ _ => collationElements

def children : CollationTrieNode → List CollationTrieNode
  | mk _ children _ => children

def character : CollationTrieNode → Unichar
  | mk _ _ character => character

end CollationTrieNode

structure SimpleCollationEntry where
  character : Unichar
  collationElement : CollationElement

structure CollationData where
  parseStyle : CollationParseStyle
  trie : Option CollationTrieNode
  simpleEntries : Option (List SimpleCollationEntry)

def findTrieNode (trie : CollationTrieNode) (searched_char : Unichar) : Option CollationTrieNode :=
  binarySearch CollationTrieNode.character trie.children searched_char

def findSimpleEntry (simpleEntries : List SimpleCollationEntry) (searched_char : Unichar) :
    Option SimpleCollationEntry :=
  binarySearch SimpleCollationEntry.character simpleEntries searched_char

variable (table : UnicharDecompositionTable)

/-- `while (peek && combining mark) skip`, with at most `n` passes. -/
def skipCombiningMarksLoop : Nat → LookaheadBuffer → LookaheadBuffer
  | 0, lookaheadBuffer => lookaheadBuffer
  | n + 1, lookaheadBuffer =>
    match lookaheadBuffer.peekNextChar table with
    | (some c, lookaheadBuffer) =>
      if unicharIsCombiningMark c then
        skipCombiningMarksLoop n (lookaheadBuffer.skipChars table 1)
      else lookaheadBuffer
    | (none, lookaheadBuffer) => lookaheadBuffer

/-- Each pass takes a pending character, so their number is enough. -/
def skipCombiningMarks (lookaheadBuffer : LookaheadBuffer) : LookaheadBuffer :=
  skipCombiningMarksLoop table
    (lookaheadBuffer.queue.length.toNat + (lookaheadBuffer.it.pending table).length + 1)
    lookaheadBuffer

/-- The variables of the walk down the trie. `lastValid` is the array of the last node that has
one. -/
structure TrieWalk where
  node : Option CollationTrieNode
  lastValid : Option CEArray
  lastValidDepth : Nat
  currentDepth : Nat
  lookaheadBuffer : LookaheadBuffer

/-- One pass of `while (node != NULL)`. -/
def trieWalkBody (parseStyle : CollationParseStyle) (s : TrieWalk) : Pass TrieWalk TrieWalk :=
  match s.node with
  | none => .exit s
  | some node =>
    let isNodeValid := node.collationElements.isSome
    let s := if isNodeValid then
      { s with lastValid := node.collationElements, lastValidDepth := s.currentDepth } else s
    match s.lookaheadBuffer.peekNextChar table with
    | (none, lookaheadBuffer) => .exit { s with lookaheadBuffer }
    | (some c, lookaheadBuffer) =>
      let currentDepth := s.currentDepth + 1
      let next := findTrieNode node c
      if next.isNone ∧ parseStyle = .combiningMarkSubset ∧ unicharIsCombiningMark c then
        .again { s with
          currentDepth, lookaheadBuffer
          lastValidDepth := if isNodeValid then currentDepth else s.lastValidDepth }
      else .again { s with currentDepth, lookaheadBuffer, node := next }

/-- Every pass but the last one peeks a character, and a full queue ends the walk. -/
def trieWalk (parseStyle : CollationParseStyle) (s : TrieWalk) : TrieWalk :=
  (loop (trieWalkBody table parseStyle) (unicharQueueMaxLength + 1) s).getD s

/-- The element array of the longest match in the trie; `none` at the end of the input. -/
def getNextCEArrayFromTrie (cd : CollationData) (lookaheadBuffer : LookaheadBuffer) :
    Option CEArray × LookaheadBuffer :=
  match cd.trie with
  | none => (none, lookaheadBuffer)
  | some collationTrie =>
    match lookaheadBuffer.getNextChar table with
    | (none, lookaheadBuffer) => (none, lookaheadBuffer)
    | (some c, lookaheadBuffer) =>
      let walk := trieWalk table cd.parseStyle
        ⟨findTrieNode collationTrie c, none, 0, 0, lookaheadBuffer⟩
      match walk.lastValid with
      | some elements =>
        let lookaheadBuffer := walk.lookaheadBuffer.skipChars table walk.lastValidDepth
        (some elements, lookaheadBuffer.resetPeekPointer)
      | none =>
        let lookaheadBuffer := if cd.parseStyle = .combiningMarkSubset then
          skipCombiningMarks table walk.lookaheadBuffer else walk.lookaheadBuffer
        (some (.single undefinedCE), lookaheadBuffer.resetPeekPointer)

/-- The element of a simple entry; `none` when the next character has no entry. -/
def getNextCEArrayFromSimpleEntries (cd : CollationData) (lookaheadBuffer : LookaheadBuffer) :
    Option CEArray × LookaheadBuffer :=
  match cd.simpleEntries with
  | none => (none, lookaheadBuffer)
  | some simpleEntries =>
    match lookaheadBuffer.peekNextChar table with
    | (none, lookaheadBuffer) => (none, lookaheadBuffer)
    | (some c, lookaheadBuffer) =>
      match findSimpleEntry simpleEntries c with
      | none => (none, lookaheadBuffer.resetPeekPointer)
      | some entry =>
        let lookaheadBuffer := lookaheadBuffer.skipChars table 1
        let lookaheadBuffer := if cd.parseStyle = .combiningMarkSubset then
          (skipCombiningMarks table lookaheadBuffer).resetPeekPointer else lookaheadBuffer
        (some (.single entry.collationElement), lookaheadBuffer)

def getNextCEArray (cd : CollationData) (lookaheadBuffer : LookaheadBuffer) :
    Option CEArray × LookaheadBuffer :=
  match getNextCEArrayFromSimpleEntries table cd lookaheadBuffer with
  | (some elements, lookaheadBuffer) => (some elements, lookaheadBuffer)
  | (none, lookaheadBuffer) => getNextCEArrayFromTrie table cd lookaheadBuffer

/-- `currentCEArray` is what is left of the current array. -/
structure CollationElementIterator where
  lookaheadBuffer : LookaheadBuffer
  currentCEArray : List CollationElement

namespace CollationElementIterator

def init (lookaheadBuffer : LookaheadBuffer) : CollationElementIterator := ⟨lookaheadBuffer, []⟩

def getNext (cd : CollationData) (self : CollationElementIterator) :
    Option CollationElement × CollationElementIterator :=
  match cd.trie, self.currentCEArray with
  | none, _ => (none, self)
  | some _, collationElement :: currentCEArray =>
    (some collationElement, { self with currentCEArray })
  | some _, [] =>
    match getNextCEArray table cd self.lookaheadBuffer with
    | (none, lookaheadBuffer) => (none, { self with lookaheadBuffer })
    | (some elements, lookaheadBuffer) =>
      (some elements.first, ⟨lookaheadBuffer, elements.val.tail⟩)

end CollationElementIterator

/-- The iterator `LocalizedCompare` sets up for a string. The queue is a local variable with
unspecified contents. -/
def iteratorFor (queue : UnicharQueue) (str : List UInt8) : CollationElementIterator :=
  .init (.init (.init table (some str) str.length) queue)

/-- One pass of the comparison loop, on the elements read ahead from both strings. -/
def localizedCompareBody (cd : CollationData)
    (s : (Option CollationElement × CollationElementIterator) ×
      (Option CollationElement × CollationElementIterator)) :
    Pass ((Option CollationElement × CollationElementIterator) ×
      (Option CollationElement × CollationElementIterator)) Int :=
  match s.1.1, s.2.1 with
  | some collationElement1, some collationElement2 =>
    if collationElement1 ≠ collationElement2 then
      .exit (if collationElement1 < collationElement2 then -1 else 1)
    else .again (s.1.2.getNext table cd, s.2.2.getNext table cd)
  | none, none => .exit 0
  | none, some _ => .exit (-1)
  | some _, none => .exit 1

/-- `LocalizedCompare` returns `r`, whatever the two queues held before they were initialised. -/
def LocalizedCompare (cd : CollationData) (str1 str2 : List UInt8) (r : Int) : Prop :=
  ∀ queue1 queue2, Returns (localizedCompareBody table cd)
    ((iteratorFor table queue1 str1).getNext table cd,
      (iteratorFor table queue2 str2).getNext table cd) r

end NdsDevkit.Collation
