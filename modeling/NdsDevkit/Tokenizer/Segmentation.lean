import NdsDevkit.Framework.KeyRuns
import NdsDevkit.Tokenizer.Reading

namespace NdsDevkit.Tokenizer

open Framework Text

inductive PieceKind where
  | separator
  | latin
  | bigram
  deriving DecidableEq

/-- A separator, or a cluster: a token character with the marks directly behind it. -/
structure Piece where
  start : Nat
  base : Unichar × Nat
  marks : Chars
  deriving DecidableEq

namespace Piece

def stop (p : Piece) : Nat := p.start + p.base.2 + width p.marks

def chars (p : Piece) : List Unichar := p.base.1 :: p.marks.map Prod.fst

def last (p : Piece) : Unichar := lastChar p.base.1 p.marks

def kind (module : NdsUnicode61) (p : Piece) : PieceKind :=
  if module.isTokenChar p.base.1 then
    if isBigrammable p.base.1 then .bigram else .latin
  else .separator

end Piece

variable (module : NdsUnicode61)

/-- The separators and clusters of a text. Separators are single characters. -/
def pieces : Nat → Chars → List Piece
  | _, [] => []
  | off, c :: l =>
    if module.isTokenChar c.1 then
      ⟨off, c, marksOf l⟩ :: pieces (off + c.2 + width (marksOf l)) (behindMarks l)
    else ⟨off, c, []⟩ :: pieces (off + c.2) l
termination_by _ l => l.length
decreasing_by
  · exact Nat.lt_succ_of_le (length_behindMarks_le l)
  · exact Nat.lt_succ_self _

/-- A token of the segmentation, with the clusters its text is made of. -/
structure Segment where
  clusters : List Piece
  startOffset : Nat
  endOffset : Nat

/-- The pairs of neighbouring clusters. All but the last end where their second cluster starts. -/
def bigrams : Piece → List Piece → List Segment
  | _, [] => []
  | k, k' :: ks =>
    ⟨[k, k'], k.start, if ks.isEmpty then k'.stop else k'.start⟩ :: bigrams k' ks

/-- The end of a run of clusters that starts at an offset. -/
def runEnd (off : Nat) (run : List Piece) : Nat := (run.getLast?.map Piece.stop).getD off

/-- The tokens of a maximal run of pieces of one kind. -/
def runSegments : List Piece → List Segment
  | [] => []
  | k :: ks =>
    match k.kind module with
    | .separator => []
    | .latin => [⟨k :: ks, k.start, runEnd k.start (k :: ks)⟩]
    | .bigram => if ks.isEmpty then [⟨[k], k.start, k.stop⟩] else bigrams k ks

def segments (ps : List Piece) : List Segment :=
  (keyRuns (Piece.kind module) ps).flatMap (runSegments module)

/-- The reference segmentation of a text. -/
def segmentation (l : Chars) : List Segment := segments module (pieces module 0 l)

/-- The run of bigrammable clusters that ends a list of pieces. -/
def trailingRun (ps : List Piece) : List Piece :=
  ps.rtakeWhile fun p => p.kind module = .bigram

/-- The pieces end with a run of bigrammable clusters that has one or two of them, or whose last
character, a mark perhaps, is a bigrammable token character by itself. -/
def stalls (ps : List Piece) : Bool :=
  match (trailingRun module ps).getLast? with
  | none => false
  | some k =>
    decide ((trailingRun module ps).length ≤ 2) ||
      (module.isTokenChar k.last && isBigrammable k.last)

/-- The pieces behind the separators at the front. -/
def behindSeparators (ps : List Piece) : List Piece :=
  ps.dropWhile fun p => p.kind module = .separator

variable {module}

@[simp] theorem pieces_nil (off : Nat) : pieces module off [] = [] := by
  rw [pieces]

theorem pieces_cluster {off : Nat} {c : Unichar × Nat} {l : Chars}
    (hc : module.isTokenChar c.1 = true) : pieces module off (c :: l) =
      ⟨off, c, marksOf l⟩ :: pieces module (off + c.2 + width (marksOf l)) (behindMarks l) := by
  rw [pieces, if_pos hc]

theorem pieces_separator {off : Nat} {c : Unichar × Nat} {l : Chars}
    (hc : module.isTokenChar c.1 = false) :
    pieces module off (c :: l) = ⟨off, c, []⟩ :: pieces module (off + c.2) l := by
  rw [pieces, if_neg (by simp [hc])]

theorem pieces_cons (module : NdsUnicode61) (off : Nat) (c : Unichar × Nat) (l : Chars) :
    ∃ marks rest, pieces module off (c :: l) = ⟨off, c, marks⟩ :: rest := by
  cases hc : module.isTokenChar c.1 with
  | true => exact ⟨_, _, pieces_cluster hc⟩
  | false => exact ⟨_, _, pieces_separator hc⟩

theorem pieces_eq_nil {off : Nat} {l : Chars} : pieces module off l = [] ↔ l = [] := by
  cases l with
  | nil => simp
  | cons c l =>
    obtain ⟨marks, rest, h⟩ := pieces_cons module off c l
    simp [h]

theorem runEnd_cons (off : Nat) (k : Piece) (run : List Piece) :
    runEnd off (k :: run) = runEnd k.stop run := by
  cases run with
  | nil => rfl
  | cons k' run => simp [runEnd, List.getLast?_eq_some_getLast]

theorem kind_separator {p : Piece} :
    p.kind module = .separator ↔ module.isTokenChar p.base.1 = false := by
  rw [Piece.kind]
  split
  · next h => split <;> simp [h]
  · next h => simpa using h

theorem kind_latin {p : Piece} : p.kind module = .latin ↔
    module.isTokenChar p.base.1 = true ∧ isBigrammable p.base.1 = false := by
  rw [Piece.kind]
  split
  · next h => split <;> simp_all
  · next h => simp [h]

theorem kind_bigram {p : Piece} : p.kind module = .bigram ↔
    module.isTokenChar p.base.1 = true ∧ isBigrammable p.base.1 = true := by
  rw [Piece.kind]
  split
  · next h => split <;> simp_all
  · next h => simp [h]

theorem segments_run {kind : PieceKind} {run rest : List Piece}
    (h : IsRun (Piece.kind module) kind run rest) :
    segments module (run ++ rest) = runSegments module run ++ segments module rest := by
  rw [segments, keyRuns_run h, List.flatMap_cons]
  rfl

@[simp] theorem segments_nil : segments module [] = [] := rfl

theorem runSegments_separator {run : List Piece}
    (h : ∀ p ∈ run, p.kind module = .separator) : runSegments module run = [] := by
  cases run with
  | nil => rfl
  | cons p run => simp [runSegments, h p List.mem_cons_self]

theorem runSegments_latin {k : Piece} (h : k.kind module = .latin) (ks : List Piece) :
    runSegments module (k :: ks) = [⟨k :: ks, k.start, runEnd k.start (k :: ks)⟩] := by
  simp [runSegments, h]

theorem runSegments_alone {k : Piece} (h : k.kind module = .bigram) :
    runSegments module [k] = [⟨[k], k.start, k.stop⟩] := by
  simp [runSegments, h]

theorem runSegments_bigrams {k k' : Piece} (h : k.kind module = .bigram) (ks : List Piece) :
    runSegments module (k :: k' :: ks) = bigrams k (k' :: ks) := by
  simp [runSegments, h]

/-- Separators do not matter. -/
theorem segments_separator {p : Piece} (hp : p.kind module = .separator) (ps : List Piece) :
    segments module (p :: ps) = segments module ps := by
  cases ps with
  | nil =>
    have hrun : IsRun (Piece.kind module) .separator [p] [] := ⟨by simp, by simpa using hp, by simp⟩
    rw [← List.append_nil [p], segments_run hrun, runSegments_separator hrun.same]
    rfl
  | cons q qs =>
    by_cases hq : q.kind module = .separator
    · obtain ⟨run, rest, rfl, hrun⟩ := exists_run (Piece.kind module) q qs
      rw [hq] at hrun
      have hrun' : IsRun (Piece.kind module) .separator (p :: q :: run) rest :=
        ⟨by simp, List.forall_mem_cons.mpr ⟨hp, hrun.same⟩, hrun.maximal⟩
      rw [← List.cons_append, ← List.cons_append, segments_run hrun', segments_run hrun,
        runSegments_separator hrun.same, runSegments_separator hrun'.same]
    · have hrun : IsRun (Piece.kind module) .separator [p] (q :: qs) :=
        ⟨by simp, by simpa using hp, by simpa using hq⟩
      rw [← List.singleton_append, segments_run hrun, runSegments_separator hrun.same,
        List.nil_append]

theorem segments_behindSeparators (ps : List Piece) :
    segments module (behindSeparators module ps) = segments module ps := by
  induction ps with
  | nil => rfl
  | cons p ps ih =>
    by_cases hp : p.kind module = .separator
    · rw [segments_separator hp, ← ih, behindSeparators, List.dropWhile_cons_of_pos (by simpa)]
      rfl
    · rw [behindSeparators, List.dropWhile_cons_of_neg (by simpa)]

theorem trailingRun_append {q : Piece} (hq : q.kind module ≠ .bigram) (l₁ l₂ : List Piece) :
    trailingRun module (l₁ ++ q :: l₂) = trailingRun module l₂ :=
  rtakeWhile_append_cons (by simpa using hq) l₁ l₂

/-- Only the pieces behind the last one that is not bigrammable matter. -/
theorem stalls_append {q : Piece} (hq : q.kind module ≠ .bigram) (l₁ l₂ : List Piece) :
    stalls module (l₁ ++ q :: l₂) = stalls module (q :: l₂) := by
  unfold stalls
  rw [trailingRun_append hq, ← List.nil_append (q :: l₂), trailingRun_append hq]

theorem stalls_cons_of_ne {p : Piece} (hp : p.kind module ≠ .bigram) (ps : List Piece) :
    stalls module (p :: ps) = stalls module ps := by
  unfold stalls
  rw [← List.nil_append (p :: ps), trailingRun_append hp]

theorem trailingRun_all {ps : List Piece} (h : ∀ p ∈ ps, p.kind module = .bigram) :
    trailingRun module ps = ps :=
  List.rtakeWhile_eq_self_iff.mpr fun p hp => by simpa using h p hp

/-- From three pieces on, one more in front does not matter. -/
theorem stalls_cons (p : Piece) {ps : List Piece} (h : 3 ≤ ps.length) :
    stalls module (p :: ps) = stalls module ps := by
  by_cases hps : ∀ q ∈ ps, q.kind module = .bigram
  · by_cases hp : p.kind module = .bigram
    · have hall : ∀ q ∈ p :: ps, q.kind module = .bigram := List.forall_mem_cons.mpr ⟨hp, hps⟩
      unfold stalls
      rw [trailingRun_all hall, trailingRun_all hps]
      obtain ⟨q, qs, rfl⟩ : ∃ q qs, ps = q :: qs := List.exists_cons_of_length_pos (by omega)
      rw [List.getLast?_cons_cons, List.getLast?_eq_some_getLast (List.cons_ne_nil q qs)]
      simp only [List.length_cons] at h ⊢
      rw [decide_eq_false (by omega), decide_eq_false (by omega)]
    · exact stalls_cons_of_ne hp ps
  · obtain ⟨q, hq, hkind⟩ : ∃ q ∈ ps, q.kind module ≠ .bigram := by simpa using hps
    obtain ⟨l₁, l₂, rfl⟩ := List.append_of_mem hq
    rw [← List.cons_append, stalls_append hkind, stalls_append hkind]

theorem stalls_behindSeparators (ps : List Piece) :
    stalls module (behindSeparators module ps) = stalls module ps := by
  induction ps with
  | nil => rfl
  | cons p ps ih =>
    by_cases hp : p.kind module = .separator
    · rw [stalls_cons_of_ne (by simp [hp]), ← ih, behindSeparators,
        List.dropWhile_cons_of_pos (by simpa)]
      rfl
    · rw [behindSeparators, List.dropWhile_cons_of_neg (by simpa)]

/-- What the passes of the tokenizer go through: `P` is about pieces in front of which the next
token is looked for, `Q` about pieces inside a run of bigrammable clusters. -/
theorem pieces_induction (module : NdsUnicode61) {P Q : List Piece → Prop} (hnil : P [])
    (hseparator : ∀ p ps, p.kind module = .separator → (∀ qs, qs.length ≤ ps.length → P qs) →
      P (p :: ps))
    (hlatin : ∀ p ps, p.kind module = .latin → (∀ qs, qs.length ≤ ps.length → P qs) →
      P (p :: ps))
    (hbigram : ∀ p ps, p.kind module = .bigram → (∀ qs, qs.length ≤ ps.length → P qs) →
      (∀ qs, qs.length < ps.length → Q qs) → P (p :: ps))
    (hinside : ∀ ps, P ps → (∀ qs, qs.length < ps.length → Q qs) → Q ps) (ps : List Piece) :
    P ps ∧ Q ps := by
  induction hn : ps.length using Nat.strongRecOn generalizing ps with
  | ind n ih =>
    have ihQ : ∀ qs, qs.length < ps.length → Q qs :=
      fun qs hlt => (ih qs.length (by omega) qs rfl).2
    have hP : P ps := by
      cases ps with
      | nil => exact hnil
      | cons p ps =>
        rw [List.length_cons] at hn
        have ihP : ∀ qs, qs.length ≤ ps.length → P qs :=
          fun qs hle => (ih qs.length (by omega) qs rfl).1
        cases hp : p.kind module with
        | separator => exact hseparator p ps hp ihP
        | latin => exact hlatin p ps hp ihP
        | bigram =>
          apply hbigram p ps hp ihP
          intro qs hlt
          exact ihQ qs (Nat.lt_succ_of_lt hlt)
    exact ⟨hP, hinside ps hP ihQ⟩

end NdsDevkit.Tokenizer
