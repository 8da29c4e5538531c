import NdsDevkit.Tokenizer.Groups
import NdsDevkit.Tokenizer.TokenText

namespace NdsDevkit.Tokenizer

open Framework Text NdsUnicode61Cursor

/-- The bytes of a cluster after folding, decomposition and the removal of diacritics. -/
def norm (table : UnicharDecompositionTable) (module : NdsUnicode61) (k : Piece) : List UInt8 :=
  textBytes table module k.chars

/-- The token texts of a run of bigrammable clusters. -/
def bigramTexts (table : UnicharDecompositionTable) (module : NdsUnicode61) :
    List Piece → List (List UInt8)
  | [] => []
  | [k] => [norm table module k]
  | k :: ks => List.zipWith (fun k k' => norm table module k ++ norm table module k') (k :: ks) ks

variable {table : UnicharDecompositionTable} {module : NdsUnicode61} {ps pre run rest : List Piece}
  {k : Piece} {off : Nat}

theorem clusterText_singleton (k : Piece) : clusterText table module [k] = norm table module k := by
  simp [clusterText, norm]

theorem clusterText_neighbours (k : Piece) (ks : List Piece) :
    (neighbours k ks).map (clusterText table module) =
      List.zipWith (fun k k' => norm table module k ++ norm table module k') (k :: ks) ks := by
  induction ks generalizing k with
  | nil => rfl
  | cons k' ks ih =>
    rw [neighbours, List.map_cons, ih k', clusterText_cons, clusterText_singleton,
      clusterText_singleton, List.zipWith_cons_cons]

theorem runTexts_bigram (h : ∀ p ∈ run, p.kind module = .bigram) :
    (runSegments module run).map (fun s => clusterText table module s.clusters) =
      bigramTexts table module run := by
  have hmap := congrArg (List.map (clusterText table module)) (@runSegments_clusters module run)
  rw [List.map_map] at hmap
  refine hmap.trans ?_
  cases run with
  | nil => rfl
  | cons k ks =>
    rw [runGroups, h k List.mem_cons_self]
    cases ks with
    | nil => exact congrArg (fun t => [t]) (clusterText_singleton k)
    | cons k' ks => exact clusterText_neighbours k (k' :: ks)

/-- Where the kinds of the pieces differ, the tokens of a text split. -/
theorem segments_append {l : List Piece}
    (h : ∀ p ∈ pre.getLast?, ∀ q ∈ l.head?, p.kind module ≠ q.kind module) :
    segments module (pre ++ l) = segments module pre ++ segments module l := by
  unfold segments keyRuns
  rw [List.splitBy_append, List.flatMap_append]
  intro p hp q hq
  exact decide_eq_false (h p hp q hq)

/-- The pieces in front of a place start in front of it. -/
theorem Ordered.mem {p : Piece} (h : Ordered off (ps ++ rest)) (hp : p ∈ ps) :
    off ≤ p.start ∧ p.start < runEnd off ps := by
  induction ps generalizing off with
  | nil => cases hp
  | cons k ps ih =>
    obtain ⟨hstart, hstop, hrest⟩ := h
    rw [runEnd_cons]
    rcases List.mem_cons.mp hp with rfl | hp
    · have hle := hrest.behind.1
      omega
    · obtain ⟨hle, hlt⟩ := ih hrest hp
      omega

theorem bigrams_start (k : Piece) (ks : List Piece) :
    ∀ s ∈ bigrams k ks, ∃ p ∈ k :: ks, s.startOffset = p.start := by
  induction ks generalizing k with
  | nil => simp [bigrams]
  | cons k' ks ih =>
    rw [bigrams, List.forall_mem_cons]
    refine ⟨⟨k, List.mem_cons_self, rfl⟩, ?_⟩
    intro s hs
    obtain ⟨p, hp, hstart⟩ := ih k' s hs
    exact ⟨p, List.mem_cons_of_mem k hp, hstart⟩

theorem runSegments_start (run : List Piece) :
    ∀ s ∈ runSegments module run, ∃ p ∈ run, s.startOffset = p.start := by
  cases run with
  | nil => simp [runSegments]
  | cons k ks =>
    rw [runSegments]
    cases k.kind module with
    | separator => simp
    | latin => simp
    | bigram =>
      cases ks with
      | nil => simp
      | cons k' ks => exact bigrams_start k (k' :: ks)

/-- Every token starts with a piece. -/
theorem segments_start (ps : List Piece) :
    ∀ s ∈ segments module ps, ∃ p ∈ ps, s.startOffset = p.start := by
  induction ps using runs_induction (Piece.kind module) with
  | nil => simp
  | run hrun ih =>
    rw [segments_run hrun]
    intro s hs
    rcases List.mem_append.mp hs with hs | hs
    · obtain ⟨p, hp, hstart⟩ := runSegments_start _ s hs
      exact ⟨p, List.mem_append_left _ hp, hstart⟩
    · obtain ⟨p, hp, hstart⟩ := ih s hs
      exact ⟨p, List.mem_append_right _ hp, hstart⟩

/-- The tokens that start inside a maximal run of bigrammable clusters are those of the run. -/
theorem segments_inside {ks : List Piece} (h : Ordered off (pre ++ (k :: ks ++ rest)))
    (hrun : IsRun (Piece.kind module) .bigram (k :: ks) rest)
    (hpre : ∀ p ∈ pre.getLast?, p.kind module ≠ .bigram) :
    ((segments module (pre ++ (k :: ks ++ rest))).filter fun s =>
      decide (k.start ≤ s.startOffset ∧ s.startOffset < runEnd k.start (k :: ks))) =
      runSegments module (k :: ks) := by
  have hsplit : segments module (pre ++ (k :: ks ++ rest)) =
      segments module pre ++ (runSegments module (k :: ks) ++ segments module rest) := by
    rw [segments_append, segments_run hrun]
    intro p hp q hq
    obtain rfl : k = q := by simpa using hq
    rw [hrun.same k List.mem_cons_self]
    exact hpre p hp
  obtain ⟨_, hstart, hstop, hrest⟩ := h.behind
  have hinside : Ordered k.start (k :: ks ++ rest) := ⟨Nat.le_refl _, hstop, hrest⟩
  rw [hsplit, List.filter_append, List.filter_append, List.filter_eq_nil_iff.mpr,
    List.filter_eq_self.mpr, List.filter_eq_nil_iff.mpr, List.nil_append, List.append_nil]
  · intro s hs
    obtain ⟨p, hp, he⟩ := segments_start rest s hs
    rw [← List.append_nil rest] at hinside
    have := (hinside.behind.2.mem hp).1
    simp only [decide_eq_true_eq]
    omega
  · intro s hs
    obtain ⟨p, hp, he⟩ := runSegments_start (k :: ks) s hs
    have := hinside.mem hp
    simp only [decide_eq_true_eq]
    omega
  · intro s hs
    obtain ⟨p, hp, he⟩ := segments_start pre s hs
    have := (h.mem hp).2
    simp only [decide_eq_true_eq]
    omega

/-- The tokens that start inside a maximal run of bigrammable clusters have the texts of its pairs
of neighbours, or of its only cluster. -/
theorem bigramTexts_inside (fresh : Nat → Nat → UInt8) (table : UnicharDecompositionTable)
    (module : NdsUnicode61) (input : List UInt8) (pre ks rest : List Piece) (k : Piece)
    (hclean : decodable input = true)
    (hpieces : pieces module 0 (decoded input) = pre ++ (k :: ks ++ rest))
    (hrun : IsRun (Piece.kind module) .bigram (k :: ks) rest)
    (hpre : ∀ p ∈ pre.getLast?, p.kind module ≠ .bigram) :
    ∃ ts, Runs fresh table module (openedExact input) ts .done ∧
      (ts.filter fun t => decide
        (k.start ≤ t.startOffset ∧ t.startOffset < runEnd k.start (k :: ks))).map Token.text =
        bigramTexts table module (k :: ks) := by
  obtain ⟨ts, hruns, hmatches, htexts⟩ :=
    (serves_opened fresh table module input (openedExact input).token).complete hclean
  refine ⟨ts, hruns, ?_⟩
  have hinput : Rest input 0 (decoded input) (decodable input) := ⟨Nat.zero_le _, rfl, rfl⟩
  have hordered := @ordered_pieces module 0 _ hinput.width_pos
  rw [hpieces] at hordered
  have hstarts := hmatches.map_eq fun start _ _ => start
  rw [map_filter_eq hstarts (htexts ⟨rfl, Nat.zero_le _⟩) fun start =>
    decide (k.start ≤ start ∧ start < runEnd k.start (k :: ks)), segmentation, hpieces,
    segments_inside hordered hrun hpre]
  exact runTexts_bigram hrun.same

/-- A Latin letter and three hiragana letters. -/
theorem bigramTexts_inside_kana :
    ∃ ts, Runs (fun _ _ => 0) unicharDecompositionData ⟨true, []⟩
        (openedExact [0x61, 0xe3, 0x81, 0x82, 0xe3, 0x81, 0x84, 0xe3, 0x81, 0x86]) ts .done ∧
      (ts.filter fun t => decide (1 ≤ t.startOffset ∧ t.startOffset < 10)).map Token.text =
        [[0xe3, 0x81, 0x82, 0xe3, 0x81, 0x84], [0xe3, 0x81, 0x84, 0xe3, 0x81, 0x86]] := by
  obtain ⟨ts, hruns, htexts⟩ := bigramTexts_inside (fun _ _ => 0) unicharDecompositionData
    ⟨true, []⟩ [0x61, 0xe3, 0x81, 0x82, 0xe3, 0x81, 0x84, 0xe3, 0x81, 0x86] [⟨0, (0x61, 1), []⟩]
    [⟨4, (0x3044, 3), []⟩, ⟨7, (0x3046, 3), []⟩] [] ⟨1, (0x3042, 3), []⟩ (by decide +kernel)
    (by decide +kernel) ⟨by simp, by decide +kernel, by simp⟩ (by decide +kernel)
  refine ⟨ts, hruns, htexts.trans ?_⟩
  decide +kernel

end NdsDevkit.Tokenizer
