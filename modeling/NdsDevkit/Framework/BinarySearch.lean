import Mathlib.Tactic.Common
import Mathlib.Algebra.Order.Ring.Nat

namespace NdsDevkit.Framework

/-- `while (first <= last)` with a three-way test of the middle entry: `lt` continues before it,
`gt` behind it. Both bounds are inclusive. -/
def searchBetween (probe : Nat → Ordering) : Nat → Int → Int → Option Nat
  | 0, _, _ => none
  | fuel + 1, first, last =>
    if first ≤ last then
      let middle := first + (last - first).tdiv 2
      match probe middle.toNat with
      | .lt => searchBetween probe fuel first (middle - 1)
      | .gt => searchBetween probe fuel (middle + 1) last
      | .eq => some middle.toNat
    else none

theorem middle_between {first last : Int} (h : first ≤ last) :
    first ≤ first + (last - first).tdiv 2 ∧ first + (last - first).tdiv 2 ≤ last := by
  rw [Int.tdiv_eq_ediv_of_nonneg (by omega)]
  omega

/-- Whatever is found passed the test and lies between the bounds. -/
theorem searchBetween_some {probe : Nat → Ordering} {fuel : Nat} {first last : Int} {i : Nat}
    (h0 : 0 ≤ first) (h : searchBetween probe fuel first last = some i) :
    probe i = .eq ∧ first ≤ i ∧ i ≤ last := by
  induction fuel generalizing first last with
  | zero => cases h
  | succ fuel ih =>
    simp only [searchBetween] at h
    split at h
    · next hle =>
      obtain ⟨h1, h2⟩ := middle_between hle
      generalize first + (last - first).tdiv 2 = middle at h h1 h2
      split at h
      · obtain ⟨hp, ha, hb⟩ := ih h0 h
        exact ⟨hp, ha, by omega⟩
      · obtain ⟨hp, ha, hb⟩ := ih (by omega) h
        exact ⟨hp, by omega, hb⟩
      · next hp =>
        cases h
        exact ⟨hp, by omega, by omega⟩
    · cases h

/-- A monotone test is passed by whatever is there. -/
theorem searchBetween_isSome {probe : Nat → Ordering}
    (hlt : ∀ i j, i ≤ j → probe i = .lt → probe j = .lt)
    (hgt : ∀ i j, i ≤ j → probe j = .gt → probe i = .gt) {fuel : Nat} {first last : Int} {k : Nat}
    (h0 : 0 ≤ first) (hk : probe k = .eq) (h1 : first ≤ k) (h2 : k ≤ last)
    (hf : last + 1 - first < fuel) : ∃ i, searchBetween probe fuel first last = some i := by
  induction fuel generalizing first last with
  | zero => omega
  | succ fuel ih =>
    have hle : first ≤ last := by omega
    obtain ⟨hm1, hm2⟩ := middle_between hle
    simp only [searchBetween, if_pos hle]
    generalize first + (last - first).tdiv 2 = middle at hm1 hm2
    split
    · next hp =>
      have hbefore : (k : Int) < middle := by
        by_contra hge
        have := hlt middle.toNat k (by omega) hp
        rw [hk] at this
        cases this
      exact ih h0 h1 (by omega) (by omega)
    · next hp =>
      have hbehind : middle < (k : Int) := by
        by_contra hge
        have := hgt k middle.toNat (by omega) hp
        rw [hk] at this
        cases this
      exact ih (by omega) (by omega) h2 (by omega)
    · exact ⟨_, rfl⟩

variable {α : Type*}

/-- The test of an array entry by its key; there is nothing behind the end. -/
def keyProbe (key : α → Nat) (entries : List α) (searched i : Nat) : Ordering :=
  (entries[i]?.map fun e => compare searched (key e)).getD .lt

/-- Binary search in an array by the key of its entries. -/
def binarySearch (key : α → Nat) (entries : List α) (searched : Nat) : Option α :=
  (searchBetween (keyProbe key entries searched) (entries.length + 1) 0
    ((entries.length : Int) - 1)).bind fun i => entries[i]?

variable {key : α → Nat} {entries : List α} {searched : Nat}

theorem keyProbe_of_lt {i : Nat} (hi : i < entries.length) :
    keyProbe key entries searched i = compare searched (key entries[i]) := by
  simp [keyProbe, List.getElem?_eq_getElem hi]

theorem keyProbe_of_ge {i : Nat} (hi : entries.length ≤ i) :
    keyProbe key entries searched i = .lt := by
  simp [keyProbe, List.getElem?_eq_none hi]

theorem binarySearch_some {e : α} (h : binarySearch key entries searched = some e) :
    e ∈ entries ∧ key e = searched := by
  obtain ⟨i, hi, he⟩ := Option.bind_eq_some_iff.mp h
  obtain ⟨hp, _, _⟩ := searchBetween_some (Int.le_refl 0) hi
  refine ⟨List.mem_of_getElem? he, ?_⟩
  simp only [keyProbe, he, Option.map_some, Option.getD_some] at hp
  exact (Nat.compare_eq_eq.mp hp).symm

/-- Strictly sorted entries. -/
abbrev SortedBy (key : α → Nat) (entries : List α) : Prop :=
  entries.Pairwise fun a b => key a < key b

theorem SortedBy.key_lt (hs : SortedBy key entries) {i j : Nat} (hi : i < entries.length)
    (hj : j < entries.length) (hij : i < j) : key entries[i] < key entries[j] :=
  List.pairwise_iff_getElem.mp hs i j hi hj hij

theorem SortedBy.probe_lt (hs : SortedBy key entries) {i j : Nat} (hij : i ≤ j)
    (h : keyProbe key entries searched i = .lt) : keyProbe key entries searched j = .lt := by
  rcases Nat.lt_or_ge j entries.length with hj | hj
  · rcases Nat.eq_or_lt_of_le hij with rfl | hlt
    · exact h
    · have hk := hs.key_lt (by omega) hj hlt
      rw [keyProbe_of_lt (by omega), Nat.compare_eq_lt] at h
      rw [keyProbe_of_lt hj, Nat.compare_eq_lt]
      omega
  · exact keyProbe_of_ge hj

theorem SortedBy.probe_gt (hs : SortedBy key entries) {i j : Nat} (hij : i ≤ j)
    (h : keyProbe key entries searched j = .gt) : keyProbe key entries searched i = .gt := by
  rcases Nat.lt_or_ge j entries.length with hj | hj
  · rcases Nat.eq_or_lt_of_le hij with rfl | hlt
    · exact h
    · have hk := hs.key_lt (by omega) hj hlt
      rw [keyProbe_of_lt hj, Nat.compare_eq_gt] at h
      rw [keyProbe_of_lt (by omega), Nat.compare_eq_gt]
      omega
  · rw [keyProbe_of_ge hj] at h
    cases h

/-- Strictly sorted entries have different keys. -/
theorem SortedBy.eq_of_key_eq (hs : SortedBy key entries) {i j : Nat} (hi : i < entries.length)
    (hj : j < entries.length) (h : key entries[i] = key entries[j]) : i = j := by
  rcases Nat.lt_trichotomy i j with hlt | heq | hgt
  · have := hs.key_lt hi hj hlt
    omega
  · exact heq
  · have := hs.key_lt hj hi hgt
    omega

/-- On strictly sorted entries binary search is search. -/
theorem binarySearch_eq_find (searched : Nat) (hs : SortedBy key entries) :
    binarySearch key entries searched = entries.find? fun e => key e == searched := by
  cases hf : entries.find? fun e => key e == searched with
  | none =>
    cases hb : binarySearch key entries searched with
    | none => rfl
    | some e =>
      obtain ⟨hmem, hkey⟩ := binarySearch_some hb
      have := List.find?_eq_none.mp hf e hmem
      simp [hkey] at this
  | some e =>
    have hkey : key e = searched := by simpa using List.find?_some hf
    obtain ⟨k, hk, rfl⟩ := List.mem_iff_getElem.mp (List.mem_of_find?_eq_some hf)
    have hpk : keyProbe key entries searched k = .eq := by
      rw [keyProbe_of_lt hk, Nat.compare_eq_eq, hkey]
    have hfound : ∃ i, searchBetween (keyProbe key entries searched) (entries.length + 1) 0
        ((entries.length : Int) - 1) = some i :=
      searchBetween_isSome (fun _ _ hij h => hs.probe_lt hij h) (fun _ _ hij h => hs.probe_gt hij h)
        (Int.le_refl 0) hpk (by omega) (by omega) (by omega)
    obtain ⟨i, hi⟩ := hfound
    obtain ⟨hpi, _, hle⟩ := searchBetween_some (Int.le_refl 0) hi
    have hilt : i < entries.length := by omega
    rw [keyProbe_of_lt hilt, Nat.compare_eq_eq] at hpi
    have hik : i = k := hs.eq_of_key_eq hilt hk (by rw [hkey, hpi])
    subst hik
    simp [binarySearch, hi, List.getElem?_eq_getElem hilt]

/-- On strictly sorted entries binary search finds what is there. -/
theorem binarySearch_iff_mem {e : α} (hs : SortedBy key entries) :
    binarySearch key entries searched = some e ↔ e ∈ entries ∧ key e = searched := by
  refine ⟨binarySearch_some, ?_⟩
  intro hboth
  obtain ⟨hmem, rfl⟩ := hboth
  obtain ⟨i, hi, rfl⟩ := List.mem_iff_getElem.mp hmem
  have hfind : (entries.find? fun e => key e == key entries[i]).isSome := by
    rw [List.find?_isSome]
    exact ⟨_, hmem, by simp⟩
  obtain ⟨e, he⟩ := Option.isSome_iff_exists.mp hfind
  have hkey : key e = key entries[i] := by simpa using List.find?_some he
  obtain ⟨j, hj, rfl⟩ := List.mem_iff_getElem.mp (List.mem_of_find?_eq_some he)
  have hij : j = i := hs.eq_of_key_eq hj hi hkey
  subst hij
  rw [binarySearch_eq_find _ hs, he]

/-- Merging keeps entries strictly sorted if no key is on both sides. -/
theorem SortedBy.merge {others : List α} (hs : SortedBy key entries) (ho : SortedBy key others)
    (hapart : ∀ a, a ∈ entries → ∀ b, b ∈ others → key a ≠ key b) :
    SortedBy key (entries.merge others fun a b => decide (key a ≤ key b)) := by
  have hle : (entries.merge others fun a b => decide (key a ≤ key b)).Pairwise
      fun a b => decide (key a ≤ key b) = true := by
    apply List.pairwise_merge
    · intro a b c hab hbc
      simp only [decide_eq_true_eq] at hab hbc ⊢
      omega
    · intro a b
      simp only [Bool.or_eq_true, decide_eq_true_eq]
      omega
    · exact hs.imp fun h => decide_eq_true (Nat.le_of_lt h)
    · exact ho.imp fun h => decide_eq_true (Nat.le_of_lt h)
  have hne : (entries.merge others fun a b => decide (key a ≤ key b)).Pairwise
      fun a b => key a ≠ key b := by
    have happend : (entries ++ others).Pairwise fun a b => key a ≠ key b :=
      List.pairwise_append.mpr ⟨hs.imp Nat.ne_of_lt, ho.imp Nat.ne_of_lt, hapart⟩
    exact happend.perm (List.merge_perm_append _).symm Ne.symm
  refine (hle.and hne).imp ?_
  intro a b hboth
  obtain ⟨hab, hdiff⟩ := hboth
  exact Nat.lt_of_le_of_ne (of_decide_eq_true hab) hdiff

end NdsDevkit.Framework
