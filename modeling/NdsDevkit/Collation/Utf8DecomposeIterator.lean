import NdsDevkit.Text.Unichar

namespace NdsDevkit.Collation

open Text

/-- Iterator over the decomposed characters of a string. `currentCharDecomposition` is what is
left of the decomposition of the current character; its length is `decompositionLen`. -/
structure Utf8DecomposeIterator where
  input : Utf8Input
  currentCharDecomposition : List Unichar

namespace Utf8DecomposeIterator

variable (table : UnicharDecompositionTable)

def advanceToNextInputChar (self : Utf8DecomposeIterator) : Utf8DecomposeIterator :=
  match decodeNextUtf8CharToUnichar self.input with
  | (none, _) => ⟨⟨none, 0⟩, []⟩
  | (some currentChar, input) => ⟨input, decomposition table currentChar⟩

def init (inputStr : Option (List UInt8)) (inputLen : Int) : Utf8DecomposeIterator :=
  advanceToNextInputChar table ⟨⟨inputStr, inputLen⟩, []⟩

def getNextCharacter (self : Utf8DecomposeIterator) : Option Unichar × Utf8DecomposeIterator :=
  let self := if self.input.str.isSome ∧ self.currentCharDecomposition = [] then
    advanceToNextInputChar table self else self
  match self.input.str, self.currentCharDecomposition with
  | some _, c :: currentCharDecomposition => (some c, { self with currentCharDecomposition })
  | _, _ => (none, self)

end Utf8DecomposeIterator

/-- The decomposed characters of the decodable prefix of a byte string. -/
def decomposedChars (table : UnicharDecompositionTable) (bytes : List UInt8) : List Unichar :=
  (decodeAll bytes).1.flatMap fun c => decomposition table c.1

namespace Utf8DecomposeIterator

/-- The characters still to come. -/
def pending (table : UnicharDecompositionTable) (it : Utf8DecomposeIterator) : List Unichar :=
  match it.input.str with
  | none => []
  | some bytes => it.currentCharDecomposition ++ decomposedChars table bytes

/-- The length belongs to the pointer. -/
def Valid (it : Utf8DecomposeIterator) : Prop :=
  ∀ bytes, it.input.str = some bytes → it.input.strLen = bytes.length

variable (table : UnicharDecompositionTable) {it : Utf8DecomposeIterator}

theorem valid_none (n : Int) (d : List Unichar) :
    (⟨⟨none, n⟩, d⟩ : Utf8DecomposeIterator).Valid := by
  intro b hb
  cases hb

/-- Reading the next input character changes nothing about what is to come. -/
theorem advance_spec (hv : it.Valid) (hd : it.currentCharDecomposition = []) :
    (it.advanceToNextInputChar table).Valid ∧
      (it.advanceToNextInputChar table).pending table = it.pending table ∧
      ((it.advanceToNextInputChar table).input.str = none ∨
        (it.advanceToNextInputChar table).currentCharDecomposition ≠ []) := by
  obtain ⟨⟨str, len⟩, dec⟩ := it
  simp only at hd
  subst hd
  cases str with
  | none => exact ⟨valid_none _ _, rfl, .inl rfl⟩
  | some bytes =>
    have hlen : len = bytes.length := hv bytes rfl
    subst hlen
    cases hf : decodeFirst bytes with
    | none =>
      have hn := decodeFirst_none hf
      have hadv : (⟨⟨some bytes, bytes.length⟩, []⟩ : Utf8DecomposeIterator).advanceToNextInputChar
          table = ⟨⟨none, 0⟩, []⟩ := by
        rw [advanceToNextInputChar]
        split
        · rfl
        · next h => rw [h] at hn; cases hn
      rw [hadv]
      exact ⟨valid_none _ _, by simp [pending, decomposedChars, decodeAll_none hf], .inl rfl⟩
    | some r =>
      obtain ⟨c, rest⟩ := r
      obtain ⟨_, _, _, _, _, hdec⟩ := decodeFirst_some hf
      have hadv : (⟨⟨some bytes, bytes.length⟩, []⟩ : Utf8DecomposeIterator).advanceToNextInputChar
          table = ⟨⟨some rest, rest.length⟩, decomposition table c⟩ := by
        simp [advanceToNextInputChar, hdec]
      rw [hadv]
      refine ⟨?_, ?_, .inr (decomposition_ne_nil table c)⟩
      · intro b hb
        cases hb
        rfl
      · simp [pending, decomposedChars, decodeAll_some hf]

theorem init_spec (bytes : List UInt8) :
    (init table (some bytes) bytes.length).Valid ∧
      (init table (some bytes) bytes.length).pending table = decomposedChars table bytes := by
  have hv : (⟨⟨some bytes, bytes.length⟩, []⟩ : Utf8DecomposeIterator).Valid := by
    intro b hb
    cases hb
    rfl
  obtain ⟨h1, h2, _⟩ := advance_spec table hv rfl
  exact ⟨h1, h2⟩

/-- A call returns the next pending character. -/
theorem getNextCharacter_spec (hv : it.Valid) :
    ∃ it', it.getNextCharacter table = ((it.pending table).head?, it') ∧ it'.Valid ∧
      it'.pending table = (it.pending table).tail := by
  -- after the refill an empty decomposition means the end
  obtain ⟨it1, h1, hv1, hp1, hne⟩ : ∃ it1,
      (if it.input.str.isSome ∧ it.currentCharDecomposition = [] then
        it.advanceToNextInputChar table else it) = it1 ∧ it1.Valid ∧
      it1.pending table = it.pending table ∧
      (it1.input.str = none ∨ it1.currentCharDecomposition ≠ []) := by
    by_cases hc : it.input.str.isSome ∧ it.currentCharDecomposition = []
    · obtain ⟨ha, hb, hd⟩ := advance_spec table hv hc.2
      exact ⟨_, if_pos hc, ha, hb, hd⟩
    · refine ⟨it, if_neg hc, hv, rfl, ?_⟩
      cases hs : it.input.str with
      | none => exact .inl rfl
      | some b => exact .inr fun hn => hc ⟨by simp [hs], hn⟩
  rw [getNextCharacter]
  rw [h1, ← hp1]
  obtain ⟨⟨str, len⟩, dec⟩ := it1
  cases str with
  | none => exact ⟨_, rfl, hv1, rfl⟩
  | some bytes =>
    cases dec with
    | nil => simp at hne
    | cons c ds => exact ⟨_, rfl, fun b hb => hv1 b hb, rfl⟩

end Utf8DecomposeIterator

end NdsDevkit.Collation
