import NdsDevkit.Text.DecompositionData
import NdsDevkit.Tokenizer.SegmentationCorrect

namespace NdsDevkit.Tokenizer

open Framework Text NdsUnicode61Cursor

variable (fresh : Nat → Nat → UInt8) (table : UnicharDecompositionTable) (module : NdsUnicode61)
  (input : List UInt8)

/-- Every call returns, and the last one tells whether the whole input could be decoded. -/
def Terminates : Prop :=
  ∃ ts, Runs fresh table module (opened input) ts (if decodable input then .done else .error)

/-- The calls come to an end, unless undecodable bytes follow a run of bigrammable clusters that is
short or ends with a character that would start another cluster. -/
theorem terminates_iff : Terminates fresh table module input ↔
    (decodable input = true ∨ stalls module (pieces module 0 (decoded input)) = false) := by
  have hserves := serves_opened fresh table module input (opened input).token
  rw [Terminates]
  cases hclean : decodable input with
  | true =>
    obtain ⟨ts, hruns, _⟩ := hserves.complete hclean
    exact iff_of_true ⟨ts, hruns⟩ (.inl rfl)
  | false =>
    obtain ⟨ts, hruns⟩ := hserves.broken hclean
    cases hstalls : stalls module (pieces module 0 (decoded input)) with
    | true =>
      rw [hstalls] at hruns
      refine iff_of_false ?_ (by simp)
      intro hex
      obtain ⟨ts', hruns'⟩ := hex
      exact absurd (hruns.unique hruns').2 (by decide)
    | false =>
      rw [hstalls] at hruns
      exact iff_of_true ⟨ts, hruns⟩ (.inr rfl)

/-- A hiragana letter and a byte that no character starts with. -/
theorem kana_hangs : ¬ Terminates (fun _ _ => 0) unicharDecompositionData ⟨true, []⟩
    [0xE3, 0x81, 0x82, 0xFF] := by
  have hclean : decodable [0xE3, 0x81, 0x82, 0xFF] = false := by decide +kernel
  have hstalls : stalls ⟨true, []⟩
      (pieces ⟨true, []⟩ 0 (decoded [0xE3, 0x81, 0x82, 0xFF])) = true := by
    decide +kernel
  obtain ⟨ts, hruns⟩ := (serves_opened (fun _ _ => 0) unicharDecompositionData ⟨true, []⟩
    [0xE3, 0x81, 0x82, 0xFF] (opened [0xE3, 0x81, 0x82, 0xFF]).token).broken hclean
  rw [hstalls] at hruns
  intro hex
  obtain ⟨ts', hruns'⟩ := hex
  rw [hclean] at hruns'
  exact absurd (hruns.unique hruns').2 (by decide)

/-- The tokens of a decodable input are those of the reference, numbered from 0 on. -/
theorem tokens_segmentation (h : decodable input = true) :
    ∃ ts, Runs fresh table module (opened input) ts .done ∧
      ts.map (fun t => (t.startOffset, t.endOffset, t.position)) =
        (segmentation module (decoded input)).zipIdx.map
          fun s => (s.1.startOffset, s.1.endOffset, s.2) := by
  obtain ⟨ts, hruns, hmatches⟩ := runs_opened fresh table module h
  refine ⟨ts, hruns, ?_⟩
  have hprojected := congrArg
    (List.map fun (r : Nat × Nat × Nat × Nat) => (r.1, r.2.1, r.2.2.2)) hmatches
  rw [List.map_map, List.map_map] at hprojected
  exact hprojected

/-- A Latin letter and three hiragana letters. -/
theorem tokens_segmentation_mixed :
    ∃ ts, Runs (fun _ _ => 0) unicharDecompositionData ⟨true, []⟩
        (opened [0x61, 0xE3, 0x81, 0x82, 0xE3, 0x81, 0x84, 0xE3, 0x81, 0x86]) ts .done ∧
      ts.map (fun t => (t.startOffset, t.endOffset, t.position)) =
        [(0, 1, 0), (1, 4, 1), (4, 10, 2)] := by
  obtain ⟨ts, hruns, htokens⟩ := tokens_segmentation (fun _ _ => 0) unicharDecompositionData
    ⟨true, []⟩ [0x61, 0xE3, 0x81, 0x82, 0xE3, 0x81, 0x84, 0xE3, 0x81, 0x86] (by decide +kernel)
  refine ⟨ts, hruns, htokens.trans ?_⟩
  decide +kernel

end NdsDevkit.Tokenizer
