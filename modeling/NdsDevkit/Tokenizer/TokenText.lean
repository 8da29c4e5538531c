import NdsDevkit.Text.DecompositionData
import NdsDevkit.Tokenizer.SegmentationCorrect

namespace NdsDevkit.Tokenizer

open Framework Text NdsUnicode61Cursor

variable {table : UnicharDecompositionTable} {module : NdsUnicode61} {p k : Piece}
  {ps qs run : List Piece} {off : Nat}

/-- The pieces take up bytes, one behind the other from an offset on. -/
def Ordered : Nat → List Piece → Prop
  | _, [] => True
  | off, p :: ps => off ≤ p.start ∧ p.start < p.stop ∧ Ordered p.stop ps

theorem ordered_pieces {l : Chars} (h : ∀ c ∈ l, 0 < c.2) : Ordered off (pieces module off l) := by
  fun_induction pieces module off l with
  | case1 off => trivial
  | case2 off c l hc ih =>
    obtain ⟨hwidth, hl⟩ := List.forall_mem_cons.mp h
    have hbehind : ∀ d ∈ behindMarks l, 0 < d.2 := by
      intro d hd
      exact hl d ((List.dropWhile_sublist _).subset hd)
    exact ⟨Nat.le_refl _, by simp only [Piece.stop]; omega, ih hbehind⟩
  | case3 off c l hc ih =>
    obtain ⟨hwidth, hl⟩ := List.forall_mem_cons.mp h
    exact ⟨Nat.le_refl _, by simp only [Piece.stop, width_nil]; omega, ih hl⟩

theorem Ordered.behind (h : Ordered off (ps ++ qs)) :
    off ≤ runEnd off ps ∧ Ordered (runEnd off ps) qs := by
  induction ps generalizing off with
  | nil => exact ⟨Nat.le_refl _, h⟩
  | cons p ps ih =>
    obtain ⟨hstart, hstop, hrest⟩ := h
    obtain ⟨hle, hqs⟩ := ih hrest
    rw [runEnd_cons]
    exact ⟨by omega, hqs⟩

theorem bigrams_nonempty (h : Ordered off (k :: (run ++ qs))) :
    ∀ s ∈ bigrams k run, s.startOffset < s.endOffset := by
  induction run generalizing off k with
  | nil => simp [bigrams]
  | cons k' run ih =>
    obtain ⟨_, hk, hrest⟩ := h
    obtain ⟨hle, hk', _⟩ := id hrest
    intro s hs
    rw [bigrams, List.mem_cons] at hs
    rcases hs with rfl | hs
    · simp only
      split <;> omega
    · exact ih hrest s hs

theorem runSegments_nonempty (h : Ordered off (run ++ qs)) :
    ∀ s ∈ runSegments module run, s.startOffset < s.endOffset := by
  cases run with
  | nil => simp [runSegments]
  | cons k run =>
    obtain ⟨_, hk, hrest⟩ := id h
    cases hkind : k.kind module with
    | separator => simp [runSegments, hkind]
    | latin =>
      have hle := hrest.behind.1
      rw [runSegments_latin hkind, runEnd_cons]
      simp only [List.mem_singleton, forall_eq]
      omega
    | bigram =>
      cases run with
      | nil => simpa [runSegments_alone hkind] using hk
      | cons k' run =>
        rw [runSegments_bigrams hkind]
        exact bigrams_nonempty h

theorem segments_nonempty (h : Ordered off ps) :
    ∀ s ∈ segments module ps, s.startOffset < s.endOffset := by
  induction ps using runs_induction (Piece.kind module) generalizing off with
  | nil => simp
  | run hrun ih =>
    rw [segments_run hrun]
    intro s hs
    rcases List.mem_append.mp hs with hs | hs
    · exact runSegments_nonempty h s hs
    · exact ih h.behind.2 s hs

theorem Rest.width_pos {input : List UInt8} {l : Chars} {clean : Bool}
    (h : Rest input off l clean) : ∀ c ∈ l, 0 < c.2 := by
  induction l generalizing off with
  | nil => simp
  | cons c l ih =>
    obtain ⟨hw, _, _, hrest⟩ := h.cons
    exact List.forall_mem_cons.mpr ⟨hw, ih hrest⟩

/-- Every token of the reference takes up bytes of the input. -/
theorem segmentation_nonempty (module : NdsUnicode61) (input : List UInt8) :
    ∀ s ∈ segmentation module (decoded input), s.startOffset < s.endOffset := by
  have hinput : Rest input 0 (decoded input) (decodable input) := ⟨Nat.zero_le _, rfl, rfl⟩
  exact segments_nonempty (ordered_pieces hinput.width_pos)

variable (table module)

/-- Case folding or the removal of diacritics leaves nothing of a character. -/
def vanishes (c : Unichar) : Bool :=
  let folded := sqlite3FtsUnicodeFold c module.removeDiacritics
  folded = 0 || (decomposition table folded).all fun d => module.removeDiacritics && isDiacritic d

variable {table module}

theorem retained_eq_nil {c : Unichar} : retained table module c = [] ↔ vanishes table module c := by
  unfold retained vanishes
  simp only
  split
  · next h => simp [h]
  · next h => simp [h, List.filter_eq_nil_iff]

theorem clusterSize_pos {ks : List Piece} : 1 ≤ clusterSize table module ks ↔
    ∃ k ∈ ks, ∃ c ∈ k.chars, vanishes table module c = false := by
  rw [Nat.one_le_iff_ne_zero, clusterSize, ne_eq, textSize_eq_zero]
  simp only [retained_eq_nil, List.mem_flatMap, not_forall, Bool.not_eq_true]
  constructor
  · intro hex
    obtain ⟨c, ⟨k, hk, hc⟩, hkept⟩ := hex
    exact ⟨k, hk, c, hc, hkept⟩
  · intro hex
    obtain ⟨k, hk, c, hc, hkept⟩ := hex
    exact ⟨c, ⟨k, hk, hc⟩, hkept⟩

/-- Every token that is reported has text and takes up bytes of the input. -/
def EveryTokenHasText (fresh : Nat → Nat → UInt8) (table : UnicharDecompositionTable)
    (module : NdsUnicode61) (input : List UInt8) : Prop :=
  ∀ ts f, Runs fresh table module (opened input) ts f →
    ∀ t ∈ ts, 1 ≤ t.text.length ∧ t.startOffset < t.endOffset

/-- Tokens have text exactly if none is made of vanishing characters alone. -/
theorem everyTokenHasText_iff (fresh : Nat → Nat → UInt8) (table : UnicharDecompositionTable)
    (module : NdsUnicode61) (input : List UInt8) (hclean : decodable input = true) :
    EveryTokenHasText fresh table module input ↔
      ∀ s ∈ segmentation module (decoded input), ∃ k ∈ s.clusters, ∃ c ∈ k.chars,
        vanishes table module c = false := by
  obtain ⟨ts, hruns, hmatches⟩ := runs_opened fresh table module hclean
  have htokens : EveryTokenHasText fresh table module input ↔
      ∀ t ∈ ts, 1 ≤ t.text.length ∧ t.startOffset < t.endOffset := by
    constructor
    · intro h
      exact h ts .done hruns
    · intro h ts' f hruns'
      obtain ⟨rfl, _⟩ := hruns.unique hruns'
      exact h
  rw [htokens, hmatches.forall_iff fun a b n => 1 ≤ n ∧ a < b]
  refine forall₂_congr ?_
  intro s hs
  rw [and_iff_left (segmentation_nonempty module input s hs), clusterSize_pos]

theorem everyTokenHasText_letter :
    EveryTokenHasText (fun _ _ => 0) unicharDecompositionData ⟨true, []⟩ [0x61] :=
  (everyTokenHasText_iff (fun _ _ => 0) unicharDecompositionData ⟨true, []⟩ [0x61]
    (by decide +kernel)).mpr (by decide +kernel)

/-- A combining acute accent behind a space. -/
theorem accent_has_no_text :
    ¬ EveryTokenHasText (fun _ _ => 0) unicharDecompositionData ⟨true, []⟩ [0x20, 0xCC, 0x81] := by
  intro h
  have hclean : decodable [0x20, 0xCC, 0x81] = true := by decide +kernel
  obtain ⟨ts, hruns, hmatches⟩ :=
    runs_opened (fun _ _ => 0) unicharDecompositionData ⟨true, []⟩ hclean
  have htexts := (hmatches.forall_iff fun _ _ n => 1 ≤ n).mp fun t ht => (h ts .done hruns t ht).1
  exact absurd htexts (by decide +kernel)

end NdsDevkit.Tokenizer
