import NdsDevkit.Collation.Clusters

namespace NdsDevkit.Collation

open Framework Text

/-- A vowel, alone or with a diaeresis. -/
def vowelNode (character : Unichar) (collationElement : CollationElement) (umlaut : CEArray) :
    CollationTrieNode :=
  .mk (some (.single collationElement)) [.mk (some umlaut) [] 0x0308] character

def sharpSNode (character : Unichar) : CollationTrieNode :=
  .mk (some ⟨[45, 45], by decide⟩) [] character

/-- The tries of the two German collations differ in the elements of the umlauts. -/
def deDERootNode (umlautA umlautO umlautU : CEArray) : CollationTrieNode :=
  .mk none [vowelNode 0x0041 27 umlautA, vowelNode 0x004f 41 umlautO, vowelNode 0x0055 47 umlautU,
    vowelNode 0x0061 27 umlautA, vowelNode 0x006f 41 umlautO, vowelNode 0x0075 47 umlautU,
    sharpSNode 0x00df, sharpSNode 0x1e9e] 0

def deDESimpleCollationEntries : List SimpleCollationEntry := [
  ⟨0x0020, 1⟩, ⟨0x0021, 2⟩, ⟨0x0022, 3⟩, ⟨0x0023, 4⟩, ⟨0x0024, 5⟩, ⟨0x0025, 6⟩, ⟨0x0026, 7⟩,
  ⟨0x0027, 8⟩, ⟨0x0028, 9⟩, ⟨0x0029, 10⟩, ⟨0x002a, 11⟩, ⟨0x002b, 12⟩, ⟨0x002c, 13⟩, ⟨0x002d, 14⟩,
  ⟨0x002e, 15⟩, ⟨0x002f, 16⟩, ⟨0x0030, 17⟩, ⟨0x0031, 18⟩, ⟨0x0032, 19⟩, ⟨0x0033, 20⟩,
  ⟨0x0034, 21⟩, ⟨0x0035, 22⟩, ⟨0x0036, 23⟩, ⟨0x0037, 24⟩, ⟨0x0038, 25⟩, ⟨0x0039, 26⟩,
  ⟨0x0042, 28⟩, ⟨0x0043, 29⟩, ⟨0x0044, 30⟩, ⟨0x0045, 31⟩, ⟨0x0046, 32⟩, ⟨0x0047, 33⟩,
  ⟨0x0048, 34⟩, ⟨0x0049, 35⟩, ⟨0x004a, 36⟩, ⟨0x004b, 37⟩, ⟨0x004c, 38⟩, ⟨0x004d, 39⟩,
  ⟨0x004e, 40⟩, ⟨0x0050, 42⟩, ⟨0x0051, 43⟩, ⟨0x0052, 44⟩, ⟨0x0053, 45⟩, ⟨0x0054, 46⟩,
  ⟨0x0056, 48⟩, ⟨0x0057, 49⟩, ⟨0x0058, 50⟩, ⟨0x0059, 51⟩, ⟨0x005a, 52⟩, ⟨0x0062, 28⟩,
  ⟨0x0063, 29⟩, ⟨0x0064, 30⟩, ⟨0x0065, 31⟩, ⟨0x0066, 32⟩, ⟨0x0067, 33⟩, ⟨0x0068, 34⟩,
  ⟨0x0069, 35⟩, ⟨0x006a, 36⟩, ⟨0x006b, 37⟩, ⟨0x006c, 38⟩, ⟨0x006d, 39⟩, ⟨0x006e, 40⟩,
  ⟨0x0070, 42⟩, ⟨0x0071, 43⟩, ⟨0x0072, 44⟩, ⟨0x0073, 45⟩, ⟨0x0074, 46⟩, ⟨0x0076, 48⟩,
  ⟨0x0077, 49⟩, ⟨0x0078, 50⟩, ⟨0x0079, 51⟩, ⟨0x007a, 52⟩]

def collationDataDeDE (umlautA umlautO umlautU : CEArray) : CollationData where
  parseStyle := .combiningMarkSubset
  trie := some (deDERootNode umlautA umlautO umlautU)
  simpleEntries := some deDESimpleCollationEntries

def collationDataDeDEPhonebook : CollationData :=
  collationDataDeDE ⟨[27, 31], by decide⟩ ⟨[41, 31], by decide⟩ ⟨[47, 31], by decide⟩

def collationDataDeDEStandard : CollationData :=
  collationDataDeDE ⟨[27], by decide⟩ ⟨[41], by decide⟩ ⟨[47], by decide⟩

theorem deDESimpleCollationEntries_sorted :
    SortedBy SimpleCollationEntry.character deDESimpleCollationEntries := by
  decide +kernel

section

variable (umlautA umlautO umlautU : CEArray)

theorem deDERootNode_sorted : (deDERootNode umlautA umlautO umlautU).Sorted := by
  constructor
  · apply List.pairwise_map.mp
    change List.Pairwise (· < ·) [0x41, 0x4f, 0x55, 0x61, 0x6f, 0x75, 0xdf, 0x1e9e]
    decide
  · simp only [deDERootNode, CollationTrieNode.children, List.forall_mem_cons]
    have hvowel (c : Unichar) (ce : CollationElement) (umlaut : CEArray) :
        (vowelNode c ce umlaut).Sorted := .single (.leaf _ _)
    have hsharp (c : Unichar) : (sharpSNode c).Sorted := .leaf _ _
    simp [hvowel, hsharp]

theorem collationDataDeDE_wellFormed : (collationDataDeDE umlautA umlautO umlautU).WellFormed := by
  refine ⟨?_, _, rfl, deDERootNode_sorted umlautA umlautO umlautU, ?_⟩
  · intro entries h
    cases h
    exact deDESimpleCollationEntries_sorted
  · simp [deDERootNode, vowelNode, sharpSNode, CollationTrieNode.children,
      CollationTrieNode.collationElements]

theorem collationDataDeDE_accented : (collationDataDeDE umlautA umlautO umlautU).Accented := by
  refine ⟨rfl, ?_, ?_⟩
  · intro root hroot
    cases hroot
    simp [deDERootNode, vowelNode, sharpSNode, CollationTrieNode.children,
      CollationTrieNode.collationElements, CollationTrieNode.character, unicharIsCombiningMark]
  · intro root hroot
    cases hroot
    simp [deDERootNode, vowelNode, sharpSNode, CollationTrieNode.children,
      CollationTrieNode.collationElements, CollationTrieNode.character, unicharIsCombiningMark]

end

end NdsDevkit.Collation
