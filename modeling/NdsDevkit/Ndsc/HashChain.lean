import NdsDevkit.Ndsc.PackCorrect

namespace NdsDevkit.Ndsc

open Framework

/-- The bucket of a position; the last position has none. -/
def pairHash (src : List UInt8) (p : Nat) : Option Nat :=
  match src[p]?, src[p + 1]? with
  | some b0, some b1 => some ((b0.toNat <<< 4 ^^^ b1.toNat) &&& (nsdcHashLen - 1))
  | _, _ => none

/-- The slots of a bucket hold earlier positions of its hash, the latest one first, and no position
behind a NULL. -/
structure Chain (src : List UInt8) (curOfs hash : Nat) (slots : List (Option Nat)) : Prop where
  before : ∀ p, some p ∈ slots → p < curOfs
  ordered : slots.Pairwise fun e e' => ∀ q, e' = some q → ∃ p, e = some p ∧ q < p
  hashed : ∀ p, some p ∈ slots → pairHash src p = some hash

/-- The window of the pattern search. -/
def InWindow (curOfs p : Nat) : Prop := curOfs - p < 4096 + 256 + 16 - 1

instance (curOfs p : Nat) : Decidable (InWindow curOfs p) := inferInstanceAs (Decidable (_ < _))

section

variable (src : List UInt8) (curOfs : Nat) (uncOfs : Option Nat) (p : Nat)

/-- A candidate of a bucket that lies in the window and satisfies the gap limit. -/
def IsCandidate (slots : List (Option Nat)) : Prop :=
  some p ∈ slots ∧ InWindow curOfs p ∧ patternGap src curOfs p < 4096

/-- A match of maximum extended length among the candidates. -/
structure IsLongest (slots : List (Option Nat)) (best : Best) : Prop where
  attained : ∃ p, IsCandidate src curOfs p slots ∧ best = matchAt src curOfs uncOfs p
  longest : ∀ p, IsCandidate src curOfs p slots → extLength src curOfs uncOfs p ≤ best.mcnt

end

/-- The candidates up to the first one outside the window. -/
def visited (curOfs : Nat) : List (Option Nat) → List Nat
  | [] => []
  | none :: slots => visited curOfs slots
  | some p :: slots => if InWindow curOfs p then p :: visited curOfs slots else []

/-- The slots after a search: they move by one up to the first candidate outside the window, which
is dropped. -/
def pushed (curOfs : Nat) : Option Nat → List (Option Nat) → List (Option Nat)
  | _, [] => []
  | lstOfs, none :: slots => lstOfs :: pushed curOfs none slots
  | lstOfs, some p :: slots =>
    lstOfs :: if InWindow curOfs p then pushed curOfs (some p) slots else slots

variable {src : List UInt8} {curOfs hash : Nat} {slots slots' : List (Option Nat)}

theorem Chain.mono {bound : Nat} (h : Chain src curOfs hash slots) (hle : curOfs ≤ bound) :
    Chain src bound hash slots :=
  ⟨fun p hp => Nat.lt_of_lt_of_le (h.before p hp) hle, h.ordered, h.hashed⟩

theorem Chain.sublist (h : Chain src curOfs hash slots) (hsub : slots'.Sublist slots) :
    Chain src curOfs hash slots' :=
  ⟨fun p hp => h.before p (hsub.subset hp), h.ordered.sublist hsub,
    fun p hp => h.hashed p (hsub.subset hp)⟩

/-- The current position goes to the front. -/
theorem Chain.push (h : Chain src curOfs hash slots) (hcur : pairHash src curOfs = some hash) :
    Chain src (curOfs + 1) hash (some curOfs :: slots) := by
  refine ⟨?_, List.pairwise_cons.mpr ⟨?_, h.ordered⟩, ?_⟩
  · intro p hp
    rcases List.mem_cons.mp hp with he | hp
    · cases he
      exact Nat.lt_succ_self _
    · exact Nat.lt_succ_of_lt (h.before p hp)
  · intro e he q heq
    obtain rfl := heq
    exact ⟨curOfs, rfl, h.before q he⟩
  · intro p hp
    rcases List.mem_cons.mp hp with he | hp
    · cases he
      exact hcur
    · exact h.hashed p hp

/-- Behind a candidate outside the window there is none inside it. -/
theorem Chain.outside (h : Chain src curOfs hash slots) {i j p q : Nat} (hij : i < j)
    (hp : slots[i]? = some (some p)) (hq : slots[j]? = some (some q)) (hout : ¬InWindow curOfs p) :
    ¬InWindow curOfs q := by
  obtain ⟨hi, hpi⟩ := List.getElem?_eq_some_iff.mp hp
  obtain ⟨hj, hqj⟩ := List.getElem?_eq_some_iff.mp hq
  obtain ⟨p', hp', hlt⟩ := List.pairwise_iff_getElem.mp h.ordered i j hi hj hij q hqj
  rw [hpi] at hp'
  cases hp'
  unfold InWindow at hout ⊢
  omega

/-- The search looks at all candidates in the window. -/
theorem Chain.mem_visited (h : Chain src curOfs hash slots) {p : Nat} :
    p ∈ visited curOfs slots ↔ some p ∈ slots ∧ InWindow curOfs p := by
  induction slots with
  | nil => simp [visited]
  | cons e slots ih =>
    have ih := ih (h.sublist (List.sublist_cons_self e slots))
    cases e with
    | none => simpa [visited] using ih
    | some q =>
      rw [visited]
      split
      · next hin =>
        rw [List.mem_cons, ih, List.mem_cons, Option.some.injEq]
        constructor
        · intro hor
          rcases hor with rfl | ⟨hp, hw⟩
          · exact ⟨.inl rfl, hin⟩
          · exact ⟨.inr hp, hw⟩
        · intro hor
          rcases hor with ⟨rfl | hp, hw⟩
          · exact .inl rfl
          · exact .inr ⟨hp, hw⟩
      · next hout =>
        refine iff_of_false (by simp) ?_
        intro hboth
        obtain ⟨hp, hw⟩ := hboth
        rcases List.mem_cons.mp hp with he | hp
        · cases he
          exact hout hw
        · obtain ⟨q', hq', hlt⟩ := (List.pairwise_cons.mp h.ordered).1 _ hp p rfl
          cases hq'
          unfold InWindow at hout hw
          omega

theorem pushed_sublist (lstOfs : Option Nat) :
    (pushed curOfs lstOfs slots).Sublist (lstOfs :: slots) := by
  induction slots generalizing lstOfs with
  | nil => simp [pushed]
  | cons e slots ih =>
    cases e with
    | none => exact (ih none).cons_cons lstOfs
    | some p =>
      rw [pushed]
      split
      · exact (ih (some p)).cons_cons lstOfs
      · exact (List.sublist_cons_self _ _).cons_cons lstOfs

theorem length_pushed (lstOfs : Option Nat) :
    (pushed curOfs lstOfs slots).length = slots.length := by
  induction slots generalizing lstOfs with
  | nil => rfl
  | cons e slots ih =>
    cases e with
    | none => simp [pushed, ih]
    | some p =>
      rw [pushed]
      split <;> simp [ih]

/-! ### The best match -/

section

variable {uncOfs : Option Nat} {best : Best}

theorem keep_mcnt_le (p : Nat) : best.mcnt ≤ (keep src curOfs uncOfs best p).mcnt := by
  rw [keep]
  split
  · next h => exact Nat.le_of_lt h.2.2
  · exact Nat.le_refl _

/-- What is kept over all candidates is at least as long as each of them that counts. -/
theorem foldl_keep_longest (ps : List Nat) :
    best.mcnt ≤ (ps.foldl (keep src curOfs uncOfs) best).mcnt ∧
    ∀ p ∈ ps, 1 < patternCnt src curOfs p → patternGap src curOfs p < 4096 →
      extLength src curOfs uncOfs p ≤ (ps.foldl (keep src curOfs uncOfs) best).mcnt := by
  induction ps generalizing best with
  | nil => simp
  | cons p ps ih =>
    obtain ⟨hbest, hall⟩ := @ih (keep src curOfs uncOfs best p)
    refine ⟨Nat.le_trans (keep_mcnt_le p) hbest, ?_⟩
    intro q hq hcnt hgap
    rcases List.mem_cons.mp hq with rfl | hq
    · refine Nat.le_trans ?_ hbest
      rw [keep]
      split
      · exact Nat.le_refl _
      · next h =>
        by_contra hlt
        exact h ⟨hcnt, hgap, by omega⟩
    · exact hall q hq hcnt hgap

/-- It is one of the candidates, or what there was before. -/
theorem foldl_keep_attained (ps : List Nat) :
    ps.foldl (keep src curOfs uncOfs) best = best ∨
    ∃ p ∈ ps, patternGap src curOfs p < 4096 ∧
      ps.foldl (keep src curOfs uncOfs) best = matchAt src curOfs uncOfs p := by
  induction ps generalizing best with
  | nil => exact .inl rfl
  | cons p ps ih =>
    rw [List.foldl_cons]
    rcases @ih (keep src curOfs uncOfs best p) with he | ⟨q, hq, hgap, he⟩
    · rw [he, keep]
      split
      · next h => exact .inr ⟨p, List.mem_cons_self, h.2.1, rfl⟩
      · exact .inl rfl
    · exact .inr ⟨q, List.mem_cons_of_mem p hq, hgap, he⟩

/-- The best match over the window is one of maximum extended length. -/
theorem Chain.isLongest (h : Chain src curOfs hash slots)
    (hbest : (visited curOfs slots).foldl (keep src curOfs uncOfs) ⟨0, 0, 0⟩ = best)
    (hlong : 2 < best.mcnt ∨
      ∃ p, IsCandidate src curOfs p slots ∧ 2 < extLength src curOfs uncOfs p) :
    IsLongest src curOfs uncOfs slots best := by
  have hmax : ∀ p, IsCandidate src curOfs p slots → 1 < patternCnt src curOfs p →
      extLength src curOfs uncOfs p ≤ best.mcnt := by
    intro p hp hcnt
    rw [← hbest]
    exact (foldl_keep_longest _).2 p (h.mem_visited.mpr ⟨hp.1, hp.2.1⟩) hcnt hp.2.2
  -- a candidate of one character is at most two long
  have hshort : ∀ p, ¬1 < patternCnt src curOfs p → extLength src curOfs uncOfs p ≤ 2 := by
    intro p hcnt
    have := @extraChar_le src curOfs uncOfs p
    rw [extLength]
    omega
  have hcnt : 2 < best.mcnt := by
    rcases hlong with hcnt | ⟨p, hp, hlen⟩
    · exact hcnt
    · by_cases hcnt : 1 < patternCnt src curOfs p
      · exact Nat.lt_of_lt_of_le hlen (hmax p hp hcnt)
      · have := hshort p hcnt
        omega
  constructor
  · rcases @foldl_keep_attained src curOfs uncOfs ⟨0, 0, 0⟩ (visited curOfs slots) with
      he | ⟨p, hp, hgap, he⟩
    · rw [← hbest, he] at hcnt
      exact absurd hcnt (by decide)
    · obtain ⟨hmem, hin⟩ := h.mem_visited.mp hp
      exact ⟨p, ⟨hmem, hin, hgap⟩, hbest.symm.trans he⟩
  · intro p hp
    by_cases hone : 1 < patternCnt src curOfs p
    · exact hmax p hp hone
    · exact Nat.le_trans (hshort p hone) (Nat.le_of_lt hcnt)

end

/-! ### The loops of the search -/

/-- Writing a slot and going on behind it: the slot stays. -/
theorem holds_slot {tbl tbl' : HashTbl} {k : Nat} {e : Option Nat} {slots : List (Option Nat)}
    (h : tbl'.Holds (k + 1) slots)
    (hsame : ∀ j, j < k + 1 ∨ k + 1 + slots.length ≤ j → tbl'.cells j = (tbl.put k [e]).cells j) :
    tbl'.Holds k (e :: slots) ∧
      ∀ j, j < k ∨ k + (slots.length + 1) ≤ j → tbl'.cells j = tbl.cells j := by
  constructor
  · rw [← List.singleton_append]
    refine Buf.holds_append.mpr ⟨?_, h⟩
    intro j hj
    rw [hsame _ (.inl (by simp at hj; omega))]
    exact Buf.Holds.put_same tbl k [e] j hj
  · intro j hj
    rw [hsame j (by omega)]
    exact Buf.cells_put_of_not_mem tbl (by simp; omega)

/-- What the first pass over the slots sees, and what it leaves to the others. -/
theorem holds_cons {tbl : HashTbl} {k : Nat} {e : Option Nat} (e' : Option Nat)
    (hsize : k + (slots.length + 1) ≤ tbl.size) (h : tbl.Holds k (e :: slots)) :
    tbl.read k = .ok e ∧ tbl.write k e' = .ok (tbl.put k [e']) ∧
      (tbl.put k [e']).Holds (k + 1) slots := by
  refine ⟨?_, Buf.write_eq e' (by omega), ?_⟩
  · have := h.read (j := 0) (by omega) (by simp)
    simpa using this
  · rw [← List.singleton_append] at h
    exact (Buf.holds_append.mp h).2.put_apart (.inr (by simp))

/-- At an even position the slots move by one. -/
theorem shiftChain_eq (base i : Nat) (lstOfs : Option Nat) {tbl : HashTbl}
    (hsize : base + i + slots.length ≤ tbl.size) (h : tbl.Holds (base + i) slots) :
    ∃ tbl', shiftChain base slots.length i lstOfs tbl = .ok tbl' ∧ tbl'.size = tbl.size ∧
      tbl'.Holds (base + i) ((lstOfs :: slots).take slots.length) ∧
      ∀ j, j < base + i ∨ base + i + slots.length ≤ j → tbl'.cells j = tbl.cells j := by
  induction slots generalizing i lstOfs tbl with
  | nil => exact ⟨tbl, rfl, rfl, by simp, fun _ _ => rfl⟩
  | cons e slots ih =>
    rw [List.length_cons] at hsize
    obtain ⟨hread, hwrite, htail⟩ := holds_cons lstOfs hsize h
    obtain ⟨tbl', he, hsz, hholds, hsame⟩ :=
      ih (i + 1) e (by simp only [Buf.size_put]; omega) htail
    simp only [List.length_cons, shiftChain, hread, hwrite, bind, Except.bind]
    have hlen : ((e :: slots).take slots.length).length = slots.length := by simp
    have hslots := holds_slot hholds (by rw [hlen]; exact hsame)
    rw [hlen] at hslots
    exact ⟨tbl', he, hsz, hslots⟩

/-- At an odd position they move up to the first candidate outside the window, and the best of those
before it is kept. -/
theorem searchChain_eq (uncOfs : Option Nat) (base i : Nat) (lstOfs : Option Nat) {tbl : HashTbl}
    (best : Best) (hsize : base + i + slots.length ≤ tbl.size) (h : tbl.Holds (base + i) slots)
    (hcur : curOfs < src.length) (hbefore : ∀ p, some p ∈ slots → p < curOfs) :
    ∃ tbl', searchChain (.ofList src) src.length curOfs uncOfs base slots.length i lstOfs tbl best =
        .ok (tbl', (visited curOfs slots).foldl (keep src curOfs uncOfs) best) ∧
      tbl'.size = tbl.size ∧ tbl'.Holds (base + i) (pushed curOfs lstOfs slots) ∧
      ∀ j, j < base + i ∨ base + i + slots.length ≤ j → tbl'.cells j = tbl.cells j := by
  induction slots generalizing i lstOfs tbl best with
  | nil => exact ⟨tbl, rfl, rfl, by simp [pushed], fun _ _ => rfl⟩
  | cons e slots ih =>
    rw [List.length_cons] at hsize
    obtain ⟨hread, hwrite, htail⟩ := holds_cons lstOfs hsize h
    have hsize' : base + (i + 1) + slots.length ≤ (tbl.put (base + i) [lstOfs]).size := by
      rw [Buf.size_put]
      omega
    have hbefore' : ∀ p, some p ∈ slots → p < curOfs := fun p hp =>
      hbefore p (List.mem_cons_of_mem e hp)
    simp only [List.length_cons, searchChain, hread, hwrite, bind, Except.bind]
    cases e with
    | none =>
      obtain ⟨tbl', he, hsz, hholds, hsame⟩ := ih (i + 1) none best hsize' htail hbefore'
      have hslots := holds_slot hholds (by rw [length_pushed]; exact hsame)
      rw [length_pushed] at hslots
      exact ⟨tbl', he, hsz, hslots⟩
    | some p =>
      have hp := hbefore p List.mem_cons_self
      simp only [visited, pushed, comparePattern_eq best (Nat.le_of_lt hp) hcur]
      by_cases hin : InWindow curOfs p
      · obtain ⟨tbl', he, hsz, hholds, hsame⟩ :=
          ih (i + 1) (some p) (keep src curOfs uncOfs best p) hsize' htail hbefore'
        have hslots := holds_slot hholds (by rw [length_pushed]; exact hsame)
        rw [length_pushed] at hslots
        rw [if_pos hin, if_pos hin]
        exact ⟨tbl', (if_pos hin).trans he, hsz, hslots⟩
      · rw [if_neg hin, if_neg hin]
        exact ⟨_, if_neg hin, rfl, holds_slot htail fun _ _ => rfl⟩

end NdsDevkit.Ndsc
