import NdsDevkit.Text.Utf8

namespace NdsDevkit.Text

def unicharIsCombiningMark (character : Unichar) : Bool :=
  (decide (character ≥ 0x0300) && decide (character ≤ 0x036f)) ||
  (decide (character ≥ 0x1dc0) && decide (character ≤ 0x1dff)) ||
  (decide (character ≥ 0x20d0) && decide (character ≤ 0x20ff)) ||
  (decide (character ≥ 0xfe20) && decide (character ≤ 0xfe2f)) ||
  character == 0x3099 || character == 0x309a

/-- A range of the decomposition table: one entry for each character, NULL for a character
without decomposition. A decomposition has at least one character. -/
structure UnicodeDecompositionRange where
  first : Unichar
  last : Unichar
  data : List (Option (List Unichar))
  length_data : data.length = last + 1 - first
  nonempty : ∀ d ∈ data, d ≠ some []

/-- The number of ranges is small; they are searched one after the other. -/
abbrev UnicharDecompositionTable := List UnicodeDecompositionRange

def unicharDecomposeInRange (range : UnicodeDecompositionRange) (character : Unichar) :
    Option (List Unichar) :=
  (range.data[character - range.first]?).join

def unicharDecompose : UnicharDecompositionTable → Unichar → Option (List Unichar)
  | [], _ => none
  | range :: ranges, character =>
    if range.first ≤ character ∧ character ≤ range.last then
      unicharDecomposeInRange range character
    else unicharDecompose ranges character

theorem unicharDecompose_ne_nil {table : UnicharDecompositionTable} {character : Unichar}
    {decomposed : List Unichar} (h : unicharDecompose table character = some decomposed) :
    decomposed ≠ [] := by
  induction table with
  | nil => cases h
  | cons range ranges ih =>
    unfold unicharDecompose at h
    split at h
    · obtain ⟨d, hd, rfl⟩ := Option.bind_eq_some_iff.mp h
      have hmem := List.mem_of_getElem? hd
      intro hnil
      exact range.nonempty _ hmem (by rw [hnil])
    · exact ih h

/-- The characters of a table with their decompositions. -/
def entries (table : UnicharDecompositionTable) : List (Unichar × List Unichar) :=
  table.flatMap fun range =>
    (range.data.zipIdx range.first).filterMap fun d => d.1.map fun decomposed => (d.2, decomposed)

theorem mem_entries {table : UnicharDecompositionTable} {c : Unichar} {decomposed : List Unichar}
    (h : unicharDecompose table c = some decomposed) : (c, decomposed) ∈ entries table := by
  induction table with
  | nil => cases h
  | cons range ranges ih =>
    unfold unicharDecompose at h
    rw [entries]
    rw [List.flatMap_cons, List.mem_append]
    split at h
    · next hin =>
      obtain ⟨d, hd, rfl⟩ := Option.bind_eq_some_iff.mp h
      left
      rw [List.mem_filterMap]
      refine ⟨(some decomposed, c), ?_, rfl⟩
      rw [List.mk_mem_zipIdx_iff_le_and_getElem?_sub]
      exact ⟨hin.1, hd⟩
    · exact .inr (ih h)

/-- The characters a character stands for: its decomposition, or itself. -/
def decomposition (table : UnicharDecompositionTable) (character : Unichar) : List Unichar :=
  (unicharDecompose table character).getD [character]

theorem decomposition_ne_nil (table : UnicharDecompositionTable) (character : Unichar) :
    decomposition table character ≠ [] := by
  rw [decomposition]
  cases h : unicharDecompose table character with
  | none => simp
  | some d => simpa using unicharDecompose_ne_nil h

end NdsDevkit.Text
