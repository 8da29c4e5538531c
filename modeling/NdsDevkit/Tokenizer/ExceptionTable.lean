import NdsDevkit.Framework.SortedInsert
import NdsDevkit.Tokenizer.Arguments

namespace NdsDevkit.Tokenizer

open Framework Text

/-- Binary search finds what a sorted list holds between its bounds. -/
theorem exceptionSearch_iff {xs : List Unichar} (hs : xs.Pairwise (· < ·)) (c : Unichar)
    {fuel idxStart idxEnd : Nat} (hend : idxEnd ≤ xs.length) (hf : idxEnd - idxStart < fuel) :
    exceptionSearch xs c fuel idxStart idxEnd = true ↔
      ∃ i, idxStart ≤ i ∧ i < idxEnd ∧ xs[i]? = some c := by
  induction fuel generalizing idxStart idxEnd with
  | zero => omega
  | succ fuel ih =>
    rw [exceptionSearch]
    by_cases hlt : idxEnd > idxStart
    · rw [if_pos hlt]
      generalize hm : (idxStart + idxEnd) / 2 = mid
      have h1 : idxStart ≤ mid := by omega
      have h2 : mid < idxEnd := by omega
      have hmid : mid < xs.length := by omega
      have hget : xs.getD mid 0 = xs[mid] := by
        rw [List.getD_eq_getElem?_getD, List.getElem?_eq_getElem hmid]
        rfl
      have hord := List.pairwise_iff_getElem.mp hs
      simp only [hget]
      split
      · next heq =>
        simp only [true_iff]
        exact ⟨mid, h1, h2, by rw [List.getElem?_eq_getElem hmid, heq]⟩
      · next hne =>
        split
        · next hbelow =>
          rw [ih (by omega) (by omega)]
          constructor
          · intro hex
            obtain ⟨i, hi1, hi2, hi⟩ := hex
            exact ⟨i, hi1, by omega, hi⟩
          · intro hex
            obtain ⟨i, hi1, hi2, hi⟩ := hex
            refine ⟨i, hi1, ?_, hi⟩
            by_contra hge
            obtain ⟨hilt, hic⟩ := List.getElem?_eq_some_iff.mp hi
            rcases Nat.eq_or_lt_of_le (Nat.le_of_not_lt hge) with rfl | hgt
            · exact hne hic
            · have hcmp := hord mid i hmid hilt hgt
              rw [hic] at hcmp
              exact Nat.lt_asymm hbelow hcmp
        · next hnb =>
          rw [ih hend (by omega)]
          constructor
          · intro hex
            obtain ⟨i, hi1, hi2, hi⟩ := hex
            exact ⟨i, by omega, hi2, hi⟩
          · intro hex
            obtain ⟨i, hi1, hi2, hi⟩ := hex
            refine ⟨i, ?_, hi2, hi⟩
            by_contra hle
            obtain ⟨hilt, hic⟩ := List.getElem?_eq_some_iff.mp hi
            rcases Nat.eq_or_lt_of_le (show i ≤ mid by omega) with rfl | hgt
            · exact hne hic
            · have hcmp := hord i mid hilt hmid hgt
              rw [hic] at hcmp
              exact hnb hcmp
    · rw [if_neg hlt]
      simp only [Bool.false_eq_true, false_iff, not_exists]
      intro i hboth
      obtain ⟨hi1, hi2, _⟩ := hboth
      omega

theorem isException_iff {self : NdsUnicode61} (hs : self.alnumExceptions.Pairwise (· < ·))
    (c : Unichar) : self.isException c = true ↔ c ∈ self.alnumExceptions := by
  rw [NdsUnicode61.isException]
  rw [exceptionSearch_iff hs c (Nat.le_refl _) (by omega), List.mem_iff_getElem?]
  constructor
  · intro hex
    obtain ⟨i, _, _, hi⟩ := hex
    exact ⟨i, hi⟩
  · intro hex
    obtain ⟨i, hi⟩ := hex
    obtain ⟨hlt, _⟩ := List.getElem?_eq_some_iff.mp hi
    exact ⟨i, Nat.zero_le i, hlt, hi⟩

/-- The entries in use are `xs`, all of them inside the allocated array. -/
structure Options.Lists (s : Options) (xs : List Unichar) : Prop where
  holds : s.alnumExceptions.Holds 0 xs
  count : s.alnumExceptionsCount = xs.length
  allocated : xs.length ≤ s.alnumExceptions.size

namespace Options

variable {s : Options} {xs : List Unichar}

theorem Lists.read (h : s.Lists xs) {i : Nat} (hi : i < xs.length) :
    s.alnumExceptions.read i = .ok xs[i] := by
  have hsize := h.allocated
  have hread := h.holds.read (j := i) (by omega) hi
  rwa [Nat.zero_add] at hread

theorem Lists.tokenizer (h : s.Lists xs) : s.tokenizer = ⟨s.removeDiacritics, xs⟩ := by
  rw [Options.tokenizer]
  congr 1
  apply List.ext_getElem?
  intro i
  rw [h.count]
  by_cases hi : i < xs.length
  · have hcell := h.holds i hi
    rw [Nat.zero_add] at hcell
    simp [hi, hcell]
  · rw [List.getElem?_eq_none (by simpa using hi), List.getElem?_eq_none (by omega)]

theorem Lists.exceptionSearch (h : s.Lists xs) (c : Unichar) {fuel idxStart idxEnd : Nat}
    (hend : idxEnd ≤ xs.length) (hf : idxEnd - idxStart < fuel) :
    Options.exceptionSearch s.alnumExceptions c fuel idxStart idxEnd =
      .ok (Tokenizer.exceptionSearch xs c fuel idxStart idxEnd) := by
  induction fuel generalizing idxStart idxEnd with
  | zero => omega
  | succ fuel ih =>
    rw [Options.exceptionSearch, Tokenizer.exceptionSearch]
    by_cases hlt : idxEnd > idxStart
    · rw [if_pos hlt, if_pos hlt]
      have hmid : (idxStart + idxEnd) / 2 < xs.length := by omega
      have hget : xs.getD ((idxStart + idxEnd) / 2) 0 = xs[(idxStart + idxEnd) / 2] := by
        rw [List.getD_eq_getElem?_getD, List.getElem?_eq_getElem hmid]
        rfl
      simp only [h.read hmid, hget, bind, Except.bind]
      split
      · rfl
      · split
        · exact ih (by omega) (by omega)
        · exact ih hend (by omega)
    · rw [if_neg hlt, if_neg hlt]
      rfl

/-- In the array the class of a character is found without a fault. -/
theorem Lists.isTokenChar (h : s.Lists xs) (c : Unichar) :
    s.isTokenChar c = .ok (s.tokenizer.isTokenChar c) := by
  have hexc : s.isException c = .ok (s.tokenizer.isException c) := by
    rw [h.tokenizer]
    rw [Options.isException, NdsUnicode61.isException]
    rw [h.count]
    cases xs with
    | nil => rfl
    | cons x xs =>
      rw [if_pos (show (x :: xs).length > 0 from Nat.succ_pos _)]
      exact h.exceptionSearch c (Nat.le_refl _) (by omega)
  simp only [Options.isTokenChar, hexc, bind, Except.bind]
  rfl

/-- The search passes over the entries that are smaller. -/
theorem Lists.insertPosition (h : s.Lists xs) (u : Unichar) {n i : Nat} (hn : i + n = xs.length) :
    Options.insertPosition s.alnumExceptions u n i = .ok (i + insertPoint (xs.drop i) u) := by
  induction n generalizing i with
  | zero =>
    have hnil : xs.drop i = [] := List.drop_eq_nil_of_le (by omega)
    simp only [Options.insertPosition, hnil]
    rfl
  | succ n ih =>
    have hi : i < xs.length := by omega
    simp only [Options.insertPosition, h.read hi, bind, Except.bind]
    rw [List.drop_eq_getElem_cons hi, insertPoint, List.takeWhile_cons]
    by_cases hlt : xs[i] < u
    · rw [if_pos hlt, ih (by omega), insertPoint]
      simp only [decide_eq_true hlt, if_true, List.length_cons]
      congr 1
      omega
    · rw [if_neg hlt]
      simp only [decide_eq_false hlt, Bool.false_eq_true, if_false]
      rfl

/-- Shifting moves the entries from the position on by one. -/
theorem shiftEntries_spec {k i : Nat} {b : Buf Unichar} (hk : k ≤ i) (hi : i ≤ xs.length)
    (hsize : xs.length < b.size) (hlow : b.Holds 0 (xs.take i))
    (hhigh : b.Holds (i + 1) (xs.drop i)) :
    ∃ b', shiftEntries k i b = .ok b' ∧ b'.size = b.size ∧ b'.Holds 0 (xs.take k) ∧
      b'.Holds (k + 1) (xs.drop k) := by
  induction i generalizing b with
  | zero =>
    obtain rfl : k = 0 := by omega
    exact ⟨b, rfl, rfl, hlow, hhigh⟩
  | succ i ih =>
    rw [shiftEntries]
    by_cases hgt : i + 1 > k
    · have hlt : i < xs.length := by omega
      have hlen : (xs.take (i + 1)).length = i + 1 := by
        rw [List.length_take]
        omega
      have hread : b.read i = .ok xs[i] := by
        have hr := hlow.read (j := i) (by omega) (by omega)
        rwa [Nat.zero_add, List.getElem_take] at hr
      have hwrite := Buf.write_eq (b := b) (i := i + 1) xs[i] (by omega)
      have hlow' : (b.put (i + 1) [xs[i]]).Holds 0 (xs.take i) := by
        have hapart : 0 + (xs.take (i + 1)).length ≤ i + 1 ∨ i + 1 + [xs[i]].length ≤ 0 := by
          left
          rw [List.length_take]
          omega
        have hpre := hlow.put_apart hapart
        have hsub := hpre.sub 0 i
        rwa [Nat.add_zero, List.drop_zero, List.take_take, Nat.min_eq_left (Nat.le_succ i)] at hsub
      have hhigh' : (b.put (i + 1) [xs[i]]).Holds (i + 1) (xs.drop i) := by
        rw [List.drop_eq_getElem_cons hlt, ← List.singleton_append]
        refine Buf.holds_append.mpr ⟨Buf.Holds.put_same b _ _, ?_⟩
        exact hhigh.put_apart (.inr (Nat.le_refl _))
      obtain ⟨b', hb', hs', h1, h2⟩ := ih (b := b.put (i + 1) [xs[i]]) (by omega) (by omega) hsize
        hlow' hhigh'
      rw [if_pos hgt]
      simp only [hread, hwrite, bind, Except.bind]
      exact ⟨b', hb', hs', h1, h2⟩
    · obtain rfl : k = i + 1 := by omega
      rw [if_neg hgt]
      exact ⟨b, rfl, rfl, hlow, hhigh⟩

theorem Lists.isMissing (h : s.Lists xs) (u : Unichar) : s.isMissing (insertPoint xs u) u =
    .ok (decide ((xs.dropWhile (· < u)).head? ≠ some u)) := by
  have hle := insertPoint_le xs u
  rw [← drop_insertPoint, List.head?_drop, Options.isMissing, h.count]
  by_cases hend : insertPoint xs u = xs.length
  · rw [if_pos hend, List.getElem?_eq_none (by omega)]
    rfl
  · have hlt : insertPoint xs u < xs.length := by omega
    rw [if_neg hend, List.getElem?_eq_getElem hlt]
    simp only [h.read hlt, bind, Except.bind, pure, Except.pure]
    congr 1
    rw [Bool.eq_iff_iff]
    simp

/-- Insertion stays inside the array if there is a free entry for a new exception. -/
theorem Lists.insertException (h : s.Lists xs) (u : Unichar)
    (hfree : (xs.dropWhile (· < u)).head? ≠ some u → xs.length < s.alnumExceptions.size) :
    ∃ s', s.insertException u = .ok s' ∧ s'.Lists (sortedInsert xs u) ∧
      s'.alnumExceptions.size = s.alnumExceptions.size := by
  have hpos := h.insertPosition u (n := xs.length) (i := 0) (Nat.zero_add _)
  rw [Nat.zero_add, List.drop_zero] at hpos
  have hle := insertPoint_le xs u
  simp only [Options.insertException, h.count, hpos, h.isMissing, bind, Except.bind]
  by_cases hhead : (xs.dropWhile (· < u)).head? = some u
  · refine ⟨s, ?_, ?_, rfl⟩
    · simp [hhead]
      rfl
    · rw [sortedInsert, if_pos hhead]
      exact h
  · have hlt := hfree hhead
    obtain ⟨b', hb', hs', hlow, hhigh⟩ := shiftEntries_spec (k := insertPoint xs u)
      (b := s.alnumExceptions) hle (Nat.le_refl xs.length) hlt (by simpa using h.holds)
      (by simp)
    have hwrite := Buf.write_eq (b := b') (i := insertPoint xs u) u (by omega)
    have htake : (xs.take (insertPoint xs u)).length = insertPoint xs u := by
      rw [List.length_take]
      omega
    simp only [ne_eq, hhead, not_false_eq_true, decide_true, if_true, hb', hwrite]
    refine ⟨_, rfl, ?_, hs'⟩
    have hnew : sortedInsert xs u =
        xs.take (insertPoint xs u) ++ [u] ++ xs.drop (insertPoint xs u) := by
      rw [sortedInsert, if_neg hhead, take_insertPoint, drop_insertPoint]
      simp
    have hlen : (sortedInsert xs u).length = xs.length + 1 := by
      rw [hnew]
      simp
      omega
    refine ⟨?_, ?_, ?_⟩
    · rw [hnew]
      refine Buf.holds_append.mpr ⟨hlow.put_at [u] (by omega), ?_⟩
      rw [List.length_append, htake, Nat.zero_add]
      exact hhigh.put_apart (.inr (Nat.le_refl _))
    · simp only [hlen]
    · rw [hlen, Buf.size_put, hs']
      omega

/-- Whether the class of a character differs from `tokenChars` while `xs` are the exceptions. -/
def needsChange (xs : List Unichar) (tokenChars : Bool) (c : Unichar) : Bool :=
  (isAlNum c ^^ decide (c ∈ xs)) != tokenChars

theorem needsChange_of_not_mem {c : Unichar} (hc : c ∉ xs) (tokenChars : Bool) :
    needsChange xs tokenChars c = (isAlNum c != tokenChars) := by
  rw [needsChange, decide_eq_false hc, Bool.xor_false]

theorem isTokenChar_sorted {self : NdsUnicode61} (hs : self.alnumExceptions.Pairwise (· < ·))
    (c : Unichar) : self.isTokenChar c = (isAlNum c ^^ decide (c ∈ self.alnumExceptions)) := by
  have hiff : self.isException c = decide (c ∈ self.alnumExceptions) := by
    rw [Bool.eq_iff_iff, decide_eq_true_iff]
    exact isException_iff hs c
  rw [NdsUnicode61.isTokenChar, hiff]

theorem Lists.isTokenChar_eq (h : s.Lists xs) (hs : xs.Pairwise (· < ·)) (c : Unichar) :
    s.isTokenChar c = .ok (isAlNum c ^^ decide (c ∈ xs)) := by
  rw [h.isTokenChar, isTokenChar_sorted (by rwa [h.tokenizer]), h.tokenizer]

/-- The first pass counts the characters that need a change. -/
theorem Lists.countExtra (h : s.Lists xs) (hs : xs.Pairwise (· < ·)) (tokenChars : Bool)
    (cs : List Unichar) (n : Nat) :
    cs.foldlM (s.countExtra tokenChars) n = .ok (n + cs.countP (needsChange xs tokenChars)) := by
  induction cs generalizing n with
  | nil => rfl
  | cons c cs ih =>
    have hstep : s.countExtra tokenChars n c =
        .ok (if needsChange xs tokenChars c then n + 1 else n) := by
      simp only [Options.countExtra, h.isTokenChar_eq hs, bind, Except.bind]
      change (if needsChange xs tokenChars c = true then _ else _) = _
      by_cases hc : needsChange xs tokenChars c = true
      · rw [if_pos hc, if_pos hc]
        rfl
      · rw [if_neg hc, if_neg hc]
        rfl
    rw [List.foldlM_cons, List.countP_cons, hstep]
    simp only [bind, Except.bind, ih]
    congr 1
    split <;> omega

/-- A pass of the second loop stays inside the array if there is an entry for a new exception. -/
theorem Lists.addException (h : s.Lists xs) (hs : xs.Pairwise (· < ·)) (tokenChars : Bool)
    (u : Unichar)
    (hfree : needsChange xs tokenChars u = true → u ∉ xs → xs.length < s.alnumExceptions.size) :
    ∃ s', Options.addException tokenChars s u = .ok s' ∧
      s'.Lists (if needsChange xs tokenChars u then sortedInsert xs u else xs) ∧
      s'.alnumExceptions.size = s.alnumExceptions.size := by
  simp only [Options.addException, h.isTokenChar_eq hs, bind, Except.bind]
  change ∃ s', (if needsChange xs tokenChars u = true then _ else _) = _ ∧ _
  by_cases hchange : needsChange xs tokenChars u = true
  · rw [if_pos hchange, if_pos hchange]
    apply h.insertException u
    intro hhead
    apply hfree hchange
    intro hu
    exact hhead (head?_dropWhile_of_mem hs hu)
  · rw [if_neg hchange, if_neg hchange]
    exact ⟨s, rfl, h, rfl⟩

theorem changed_sorted (hs : xs.Pairwise (· < ·)) (tokenChars : Bool) (u : Unichar) :
    (if needsChange xs tokenChars u then sortedInsert xs u else xs).Pairwise (· < ·) := by
  split
  · exact sortedInsert_sorted u hs
  · exact hs

/-- A pass adds the character if it is outside its class. -/
theorem mem_changed {tokenChars : Bool} {u c : Unichar} :
    c ∈ (if needsChange xs tokenChars u then sortedInsert xs u else xs) ↔
      c ∈ xs ∨ c = u ∧ isAlNum c ≠ tokenChars := by
  have hu (heq : c = u) (hc : c ∉ xs) :
      needsChange xs tokenChars u = true ↔ isAlNum c ≠ tokenChars := by
    rw [← heq, needsChange_of_not_mem hc, bne_iff_ne]
  by_cases hc : c ∈ xs
  · simp only [hc, true_or, iff_true]
    split
    · exact mem_sortedInsert.mpr (.inl hc)
    · exact hc
  · split
    · next hchange =>
      rw [mem_sortedInsert]
      exact or_congr_right ⟨fun heq => ⟨heq, (hu heq hc).mp hchange⟩, And.left⟩
    · next hkeep =>
      simp only [hc, false_or, false_iff, not_and]
      intro heq hne
      exact hkeep ((hu heq hc).mpr hne)

/-- The second pass, with the characters `done` behind it: the table grows by those outside their
class, and there is an entry for each of them. -/
theorem Lists.addException_fold {old : List Unichar} (tokenChars : Bool) {cs done : List Unichar}
    (h : s.Lists xs) (hs : xs.Pairwise (· < ·))
    (hmem : ∀ c, c ∈ xs ↔ c ∈ old ∨ c ∈ done ∧ isAlNum c ≠ tokenChars)
    (hsize : xs.length + cs.countP (needsChange old tokenChars) ≤ s.alnumExceptions.size) :
    ∃ s' xs', cs.foldlM (Options.addException tokenChars) s = .ok s' ∧ s'.Lists xs' ∧
      xs'.Pairwise (· < ·) ∧
      ∀ c, c ∈ xs' ↔ c ∈ old ∨ c ∈ done ++ cs ∧ isAlNum c ≠ tokenChars := by
  induction cs generalizing s xs done with
  | nil => exact ⟨s, xs, rfl, h, hs, by simpa using hmem⟩
  | cons u cs ih =>
    rw [List.countP_cons] at hsize
    -- a new exception was counted by the first pass, against the old table
    have hcounted : needsChange xs tokenChars u = true → u ∉ xs →
        needsChange old tokenChars u = true := by
      intro hchange hu
      have hold : u ∉ old := fun ho => hu ((hmem u).mpr (.inl ho))
      rwa [needsChange_of_not_mem hold, ← needsChange_of_not_mem hu]
    obtain ⟨s1, hstep, h1, hsize1⟩ := h.addException hs tokenChars u fun hchange hu => by
      rw [if_pos (hcounted hchange hu)] at hsize
      omega
    have hs1 := changed_sorted hs tokenChars u
    have hmem1 : ∀ c, c ∈ (if needsChange xs tokenChars u then sortedInsert xs u else xs) ↔
        c ∈ old ∨ c ∈ done ++ [u] ∧ isAlNum c ≠ tokenChars := by
      intro c
      rw [mem_changed, hmem c, List.mem_append, List.mem_singleton, or_and_right, or_assoc]
    have hlen1 : (if needsChange xs tokenChars u then sortedInsert xs u else xs).length +
        cs.countP (needsChange old tokenChars) ≤ s1.alnumExceptions.size := by
      by_cases hchange : needsChange xs tokenChars u = true
      · rw [if_pos hchange]
        by_cases hu : u ∈ xs
        · rw [sortedInsert, if_pos (head?_dropWhile_of_mem hs hu)]
          omega
        · have hle := length_sortedInsert_le xs u
          rw [if_pos (hcounted hchange hu)] at hsize
          omega
      · rw [if_neg hchange]
        omega
    obtain ⟨s', xs', hrest, h', hs', hmem'⟩ := ih h1 hs1 hmem1 hlen1
    refine ⟨s', xs', ?_, h', hs', ?_⟩
    · rw [List.foldlM_cons, hstep]
      exact hrest
    · simpa using hmem'

end Options

end NdsDevkit.Tokenizer
