import NdsDevkit.Tokenizer.SegmentationCorrect

namespace NdsDevkit.Tokenizer

open Framework Text NdsUnicode61Cursor

variable {α β : Type*}

/-- The pairs of neighbours. -/
def neighbours : α → List α → List (List α)
  | _, [] => []
  | x, y :: l => [x, y] :: neighbours y l

/-- The tokens of a maximal run of clusters, as lists of clusters. -/
def runGroups (kind : α → PieceKind) : List α → List (List α)
  | [] => []
  | x :: l =>
    match kind x with
    | .separator => []
    | .latin => [x :: l]
    | .bigram => if l.isEmpty then [[x]] else neighbours x l

/-- The tokens of a text without their offsets. What the clusters are does not matter. -/
def groups (kind : α → PieceKind) (l : List α) : List (List α) :=
  (keyRuns kind l).flatMap (runGroups kind)

theorem groups_run {kind : α → PieceKind} {k : PieceKind} {run rest : List α}
    (h : IsRun kind k run rest) :
    groups kind (run ++ rest) = runGroups kind run ++ groups kind rest := by
  rw [groups, keyRuns_run h, List.flatMap_cons]
  rfl

theorem neighbours_map (f : α → β) (x : α) (l : List α) :
    neighbours (f x) (l.map f) = (neighbours x l).map (List.map f) := by
  induction l generalizing x with
  | nil => rfl
  | cons y l ih =>
    rw [List.map_cons, neighbours, neighbours, List.map_cons, ih]
    rfl

theorem runGroups_map (f : α → β) (kind : β → PieceKind) (run : List α) :
    runGroups kind (run.map f) = (runGroups (fun x => kind (f x)) run).map (List.map f) := by
  cases run with
  | nil => rfl
  | cons x l =>
    simp only [List.map_cons, runGroups]
    cases kind (f x) with
    | separator => rfl
    | latin => rfl
    | bigram =>
      cases l with
      | nil => rfl
      | cons y l => exact neighbours_map f x (y :: l)

theorem groups_map (f : α → β) (kind : β → PieceKind) (l : List α) :
    groups kind (l.map f) = (groups (fun x => kind (f x)) l).map (List.map f) := by
  induction l using runs_induction (fun x => kind (f x)) with
  | nil => rfl
  | run hrun ih =>
    rw [List.map_append, groups_run (hrun.map fun _ => rfl), groups_run hrun, List.map_append,
      runGroups_map, ih]

section

variable {P : α → Prop} {kind : α → PieceKind} {x : α} {l : List α}

theorem forall_neighbours (hl : l ≠ []) :
    (∀ g ∈ neighbours x l, ∀ y ∈ g, P y) ↔ ∀ y ∈ x :: l, P y := by
  induction l generalizing x with
  | nil => exact absurd rfl hl
  | cons y l ih =>
    rw [neighbours, List.forall_mem_cons]
    cases l with
    | nil => simp [neighbours]
    | cons z l =>
      rw [ih (by simp)]
      simp only [List.forall_mem_cons]
      tauto

theorem forall_runGroups {run rest : List α} {k : PieceKind} (h : IsRun kind k run rest) :
    (∀ g ∈ runGroups kind run, ∀ x ∈ g, P x) ↔ ∀ x ∈ run, kind x ≠ .separator → P x := by
  obtain ⟨x, l, rfl⟩ := List.exists_cons_of_ne_nil h.ne_nil
  have hsame : (∀ y ∈ x :: l, kind y ≠ .separator → P y) ↔
      ∀ y ∈ x :: l, k ≠ .separator → P y := by
    refine forall₂_congr ?_
    intro y hy
    rw [h.same y hy]
  rw [hsame, runGroups, h.same x List.mem_cons_self]
  cases k with
  | separator => simp
  | latin => simp
  | bigram =>
    cases l with
    | nil => simp
    | cons y l =>
      have hpairs := forall_neighbours (P := P) (x := x) (List.cons_ne_nil y l)
      simpa using hpairs

/-- Every cluster is part of a token. -/
theorem forall_groups :
    (∀ g ∈ groups kind l, ∀ x ∈ g, P x) ↔ ∀ x ∈ l, kind x ≠ .separator → P x := by
  induction l using runs_induction kind with
  | nil => simp [groups, keyRuns]
  | run hrun ih =>
    rw [groups_run hrun, List.forall_mem_append, List.forall_mem_append, ih, forall_runGroups hrun]

end

variable {fresh : Nat → Nat → UInt8} {table : UnicharDecompositionTable} {module : NdsUnicode61}

theorem bigrams_clusters (k : Piece) (ks : List Piece) :
    (bigrams k ks).map Segment.clusters = neighbours k ks := by
  induction ks generalizing k with
  | nil => rfl
  | cons k' ks ih => rw [bigrams, List.map_cons, ih, neighbours]

theorem runSegments_clusters (run : List Piece) :
    (runSegments module run).map Segment.clusters = runGroups (Piece.kind module) run := by
  cases run with
  | nil => rfl
  | cons k ks =>
    simp only [runSegments, runGroups]
    cases k.kind module with
    | separator => rfl
    | latin => rfl
    | bigram =>
      cases ks with
      | nil => rfl
      | cons k' ks => exact bigrams_clusters k (k' :: ks)

theorem segments_clusters (ps : List Piece) :
    (segments module ps).map Segment.clusters = groups (Piece.kind module) ps := by
  rw [segments, groups, List.map_flatMap]
  exact List.flatMap_congr fun run _ => runSegments_clusters run

/-- A new cursor whose token buffer has been allocated, which makes it an exact queue of bytes. -/
def openedExact (input : List UInt8) : NdsUnicode61Cursor :=
  { opened input with token := { StringBuffer.init (fun _ => 0) with dynamic := true } }

/-- From there, the tokens of a decodable input have the texts of their clusters. -/
theorem texts_openedExact (fresh : Nat → Nat → UInt8) (table : UnicharDecompositionTable)
    (module : NdsUnicode61) {input : List UInt8} (hclean : decodable input = true) :
    ∃ ts, Runs fresh table module (openedExact input) ts .done ∧
      ts.map Token.text =
        (groups (Piece.kind module) (pieces module 0 (decoded input))).map
          (clusterText table module) := by
  obtain ⟨ts, hruns, _, htexts⟩ :=
    (serves_opened fresh table module input (openedExact input).token).complete hclean
  refine ⟨ts, hruns, (htexts ⟨rfl, Nat.zero_le _⟩).trans ?_⟩
  rw [segmentation, ← segments_clusters, List.map_map]
  rfl

end NdsDevkit.Tokenizer
