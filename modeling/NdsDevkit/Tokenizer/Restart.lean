import NdsDevkit.Text.DecompositionData
import NdsDevkit.Tokenizer.SegmentationCorrect

namespace NdsDevkit.Tokenizer

open Framework Text NdsUnicode61Cursor

variable {module : NdsUnicode61}

/-- The same piece further on in the input. -/
def Piece.shift (d : Nat) (p : Piece) : Piece := { p with start := p.start + d }

def Segment.shift (d : Nat) (s : Segment) : Segment :=
  ⟨s.clusters.map (Piece.shift d), s.startOffset + d, s.endOffset + d⟩

@[simp] theorem Piece.shift_start (d : Nat) (p : Piece) : (p.shift d).start = p.start + d := rfl

@[simp] theorem Piece.shift_kind (d : Nat) (p : Piece) :
    (p.shift d).kind module = p.kind module := rfl

@[simp] theorem Piece.shift_stop (d : Nat) (p : Piece) : (p.shift d).stop = p.stop + d := by
  simp only [stop, shift]
  omega

theorem pieces_shift (d off : Nat) (l : Chars) :
    pieces module (off + d) l = (pieces module off l).map (Piece.shift d) := by
  fun_induction pieces module off l with
  | case1 off => simp
  | case2 off c l hc ih =>
    rw [pieces_cluster hc, List.map_cons, ← ih, Nat.add_right_comm off d,
      Nat.add_right_comm (off + c.2) d]
    rfl
  | case3 off c l hc ih =>
    rw [pieces_separator (by simpa using hc), List.map_cons, ← ih, Nat.add_right_comm off d]
    rfl

theorem bigrams_shift (d : Nat) (k : Piece) (ks : List Piece) :
    bigrams (k.shift d) (ks.map (Piece.shift d)) = (bigrams k ks).map (Segment.shift d) := by
  induction ks generalizing k with
  | nil => rfl
  | cons k' ks ih =>
    rw [List.map_cons, bigrams, bigrams, List.map_cons, ih]
    cases ks <;> simp [Segment.shift]

theorem runEnd_shift (d off : Nat) (run : List Piece) :
    runEnd (off + d) (run.map (Piece.shift d)) = runEnd off run + d := by
  unfold runEnd
  rw [List.getLast?_map]
  cases run.getLast? <;> simp

theorem runSegments_shift (d : Nat) (run : List Piece) :
    runSegments module (run.map (Piece.shift d)) =
      (runSegments module run).map (Segment.shift d) := by
  cases run with
  | nil => rfl
  | cons k ks =>
    rw [List.map_cons]
    cases hk : k.kind module with
    | separator => simp [runSegments, hk]
    | latin =>
      rw [runSegments_latin hk, runSegments_latin (by simpa using hk), ← List.map_cons,
        Piece.shift_start, runEnd_shift]
      rfl
    | bigram =>
      have hk' : (k.shift d).kind module = .bigram := by simpa using hk
      cases ks with
      | nil => simp [runSegments_alone hk, runSegments_alone hk', Segment.shift]
      | cons k' ks =>
        rw [List.map_cons, runSegments_bigrams hk, runSegments_bigrams hk', ← List.map_cons,
          bigrams_shift]

theorem segments_shift (d : Nat) (ps : List Piece) :
    segments module (ps.map (Piece.shift d)) = (segments module ps).map (Segment.shift d) := by
  induction ps using runs_induction (Piece.kind module) with
  | nil => rfl
  | run hrun ih =>
    rw [List.map_append, segments_run (hrun.map (Piece.shift_kind d)), segments_run hrun,
      List.map_append, runSegments_shift, ih]

/-- A part of the pieces is a part of the characters. -/
theorem pieces_append {off : Nat} {l : Chars} {ps qs : List Piece}
    (h : pieces module off l = ps ++ qs) :
    ∃ l₁ l₂, l = l₁ ++ l₂ ∧ runEnd off ps = off + width l₁ ∧
      pieces module (off + width l₁) l₂ = qs := by
  induction ps generalizing off l with
  | nil => exact ⟨[], l, rfl, rfl, h⟩
  | cons p ps ih =>
    cases l with
    | nil =>
      rw [pieces_nil] at h
      cases h
    | cons c l =>
      cases hc : module.isTokenChar c.1 with
      | true =>
        rw [pieces_cluster hc, List.cons_append, List.cons.injEq] at h
        obtain ⟨rfl, h⟩ := h
        obtain ⟨l₁, l₂, hl, hend, hqs⟩ := ih h
        have hwidth : off + c.2 + width (marksOf l) + width l₁ =
            off + width (c :: marksOf l ++ l₁) := by
          simp [width]
          omega
        refine ⟨c :: marksOf l ++ l₁, l₂, ?_, ?_, ?_⟩
        · rw [List.cons_append, List.cons_append, List.append_assoc, ← hl]
          exact congrArg (c :: ·) List.takeWhile_append_dropWhile.symm
        · rw [runEnd_cons, ← hwidth, ← hend]
          rfl
        · rw [← hwidth, hqs]
      | false =>
        rw [pieces_separator hc, List.cons_append, List.cons.injEq] at h
        obtain ⟨rfl, h⟩ := h
        obtain ⟨l₁, l₂, rfl, hend, hqs⟩ := ih h
        have hwidth : off + c.2 + width l₁ = off + width (c :: l₁) := by
          rw [width_cons, Nat.add_assoc]
        refine ⟨c :: l₁, l₂, rfl, ?_, ?_⟩
        · rw [runEnd_cons, ← hwidth, ← hend]
          rfl
        · rw [← hwidth, hqs]

/-- The first segment ends where its pieces end, or at the second cluster of its run. The others
are those of the pieces from there on. -/
theorem segments_cons {ps : List Piece} {s : Segment} {ss : List Segment}
    (h : segments module ps = s :: ss) :
    ∃ qs rest, ps = qs ++ rest ∧ ss = segments module rest ∧
      ((∀ off, s.endOffset = runEnd off qs) ∨ ∃ k ∈ rest.head?, s.endOffset = k.start) := by
  induction ps with
  | nil => cases h
  | cons p ps ih =>
    cases hp : p.kind module with
    | separator =>
      rw [segments_separator hp] at h
      obtain ⟨qs, rest, rfl, hss, hend⟩ := ih h
      refine ⟨p :: qs, rest, rfl, hss, ?_⟩
      rcases hend with hend | hend
      · left
        intro off
        rw [runEnd_cons]
        exact hend p.stop
      · exact .inr hend
    | latin =>
      obtain ⟨run, rest, rfl, hrun⟩ := exists_run (Piece.kind module) p ps
      rw [← List.cons_append, segments_run hrun, runSegments_latin hp, List.singleton_append,
        List.cons.injEq] at h
      obtain ⟨rfl, rfl⟩ := h
      refine ⟨p :: run, rest, rfl, rfl, .inl ?_⟩
      intro off
      rw [runEnd_cons, runEnd_cons]
    | bigram =>
      obtain ⟨run, rest, rfl, hrun⟩ := exists_run (Piece.kind module) p ps
      rw [hp] at hrun
      rw [← List.cons_append, segments_run hrun] at h
      cases run with
      | nil =>
        rw [runSegments_alone hp, List.singleton_append, List.cons.injEq] at h
        obtain ⟨rfl, rfl⟩ := h
        exact ⟨[p], rest, rfl, rfl, .inl fun off => rfl⟩
      | cons q run =>
        rw [runSegments_bigrams hp, bigrams, List.cons_append, List.cons.injEq] at h
        obtain ⟨rfl, rfl⟩ := h
        cases run with
        | nil => exact ⟨[p, q], rest, rfl, rfl, .inl fun off => rfl⟩
        | cons q' run =>
          -- the second cluster begins the next pair
          refine ⟨[p], q :: q' :: run ++ rest, rfl, ?_, .inr ⟨q, rfl, rfl⟩⟩
          rw [segments_run hrun.tail, runSegments_bigrams (hrun.same q (by simp))]

theorem Rest.append {input : List UInt8} {off : Nat} {l₁ l₂ : Chars} {clean : Bool}
    (h : Rest input off (l₁ ++ l₂) clean) : Rest input (off + width l₁) l₂ clean := by
  induction l₁ generalizing off with
  | nil => exact h
  | cons c l₁ ih =>
    obtain ⟨_, _, _, hrest⟩ := h.cons
    rw [width_cons, ← Nat.add_assoc]
    exact ih hrest

/-- Behind the first segment of an input the segmentation is that of the bytes from there on. -/
theorem segmentation_drop {input : List UInt8} {s : Segment} {ss : List Segment}
    (h : segmentation module (decoded input) = s :: ss) :
    ss = (segmentation module (decoded (input.drop s.endOffset))).map (Segment.shift s.endOffset) ∧
      decodable (input.drop s.endOffset) = decodable input := by
  obtain ⟨qs, rest, hps, rfl, hend⟩ := segments_cons h
  obtain ⟨l₁, l₂, hl, hrunEnd, hrest⟩ := pieces_append hps
  have hoff : s.endOffset = 0 + width l₁ := by
    rcases hend with hend | ⟨k, hk, hend⟩
    · rw [hend 0, hrunEnd]
    · rw [hend]
      cases l₂ with
      | nil =>
        rw [← hrest, pieces_nil] at hk
        cases hk
      | cons c l₂ =>
        obtain ⟨marks, rest', heq⟩ := pieces_cons module (0 + width l₁) c l₂
        rw [← hrest, heq] at hk
        cases hk
        rfl
  have hinput : Rest input 0 (decoded input) (decodable input) := ⟨Nat.zero_le _, rfl, rfl⟩
  rw [hl] at hinput
  have hsuffix := hinput.append
  rw [← hoff] at hsuffix
  refine ⟨?_, hsuffix.clean_eq⟩
  rw [segmentation, decoded, hsuffix.chars, ← segments_shift, ← pieces_shift, Nat.zero_add,
    hoff, hrest]

/-- From the end of the first token on, a new cursor finds the tokens that the old one goes on
with. -/
theorem restart (fresh fresh' : Nat → Nat → UInt8) (table : UnicharDecompositionTable)
    (module : NdsUnicode61) (input : List UInt8) (hclean : decodable input = true) {t : Token}
    {ts : List Token} {f : Finish} (h : Runs fresh table module (opened input) (t :: ts) f) :
    ∃ ts', Runs fresh' table module (opened (input.drop t.endOffset)) ts' .done ∧
      ts.map (fun t' => (t'.startOffset, t'.endOffset)) =
        ts'.map fun t' => (t'.startOffset + t.endOffset, t'.endOffset + t.endOffset) := by
  obtain ⟨ts₀, hruns, hmatches⟩ := runs_opened fresh table module hclean
  obtain ⟨rfl, rfl⟩ := h.unique hruns
  have hoffsets := hmatches.map_eq fun a b _ => (a, b)
  cases hs : segmentation module (decoded input) with
  | nil =>
    rw [hs] at hoffsets
    cases hoffsets
  | cons s ss =>
    obtain ⟨hss, hsuffix⟩ := segmentation_drop hs
    rw [hs, List.map_cons, List.map_cons, List.cons.injEq, Prod.mk.injEq] at hoffsets
    obtain ⟨⟨_, hend⟩, hoffsets⟩ := hoffsets
    rw [← hend] at hss hsuffix
    obtain ⟨ts', hruns', hmatches'⟩ :=
      runs_opened fresh' table module (hsuffix.trans hclean)
    refine ⟨ts', hruns', ?_⟩
    rw [hoffsets, hss, List.map_map]
    exact (hmatches'.map_eq fun a b _ => (a + t.endOffset, b + t.endOffset)).symm

/-- Three hiragana letters: the second pair begins inside the first. -/
theorem restart_pairs : ∃ ts', Runs (fun _ _ => 0) unicharDecompositionData ⟨true, []⟩
      (opened [0xE3, 0x81, 0x84, 0xE3, 0x81, 0x86]) ts' .done ∧
    [(3, 9)] = ts'.map fun t' => (t'.startOffset + 3, t'.endOffset + 3) := by
  have hclean : decodable [0xE3, 0x81, 0x82, 0xE3, 0x81, 0x84, 0xE3, 0x81, 0x86] = true := by
    decide +kernel
  obtain ⟨ts, hruns, hmatches⟩ :=
    runs_opened (fun _ _ => 0) unicharDecompositionData ⟨true, []⟩ hclean
  have hoffsets := (hmatches.map_eq fun a b _ => (a, b)).trans
    (show _ = [(0, 3), (3, 9)] by decide +kernel)
  cases ts with
  | nil => cases hoffsets
  | cons t ts =>
    obtain ⟨ts', hruns', hrest⟩ := restart (fun _ _ => 0) (fun _ _ => 0)
      unicharDecompositionData ⟨true, []⟩ _ hclean hruns
    rw [List.map_cons, List.cons.injEq, Prod.mk.injEq] at hoffsets
    obtain ⟨⟨_, hend⟩, hoffsets⟩ := hoffsets
    rw [hend] at hruns' hrest
    exact ⟨ts', hruns', hoffsets.symm.trans hrest⟩

end NdsDevkit.Tokenizer
