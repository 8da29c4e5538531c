import NdsDevkit.Collation.IteratorCorrect

namespace NdsDevkit.Collation

open Framework Text

/-- The return value that stands for an ordering. -/
def orderingSign : Ordering → Int
  | .lt => -1
  | .eq => 0
  | .gt => 1

theorem orderingSign_swap (o : Ordering) : orderingSign o.swap = -orderingSign o := by
  cases o <;> rfl

theorem orderingSign_le_zero {o : Ordering} : orderingSign o ≤ 0 ↔ o.isLE := by
  cases o <;> decide

theorem orderingSign_lt_zero {o : Ordering} : orderingSign o < 0 ↔ o = .lt := by
  cases o <;> decide

theorem orderingSign_eq_zero {o : Ordering} : orderingSign o = 0 ↔ o = .eq := by
  cases o <;> decide

variable (table : UnicharDecompositionTable) (cd : CollationData)

/-- The loop of the comparison is the lock-step comparison of the two iterators. -/
theorem localizedCompareBody_spec
    (s : (Option CollationElement × CollationElementIterator) ×
      (Option CollationElement × CollationElementIterator)) :
    (∃ s', compareBody (CollationElementIterator.getNext table cd)
        (CollationElementIterator.getNext table cd) s = .again s' ∧
      localizedCompareBody table cd s = .again s') ∨
    ∃ o, compareBody (CollationElementIterator.getNext table cd)
        (CollationElementIterator.getNext table cd) s = .exit o ∧
      localizedCompareBody table cd s = .exit (orderingSign o) := by
  obtain ⟨⟨read1, it1⟩, ⟨read2, it2⟩⟩ := s
  rw [localizedCompareBody, compareBody]
  cases read1 with
  | none =>
    cases read2 with
    | none => exact .inr ⟨.eq, rfl, rfl⟩
    | some ce2 => exact .inr ⟨.lt, rfl, rfl⟩
  | some ce1 =>
    cases read2 with
    | none => exact .inr ⟨.gt, rfl, rfl⟩
    | some ce2 =>
      simp only
      cases hc : compare ce1 ce2 with
      | eq =>
        have heq : ce1 = ce2 := Std.LawfulEqOrd.eq_of_compare hc
        exact .inl ⟨_, rfl, by rw [if_neg (by simpa using heq)]⟩
      | lt =>
        have hlt : ce1 < ce2 := Std.compare_eq_lt.mp hc
        exact .inr ⟨.lt, rfl, by rw [if_pos (UInt32.ne_of_lt hlt), if_pos hlt]; rfl⟩
      | gt =>
        have hgt : ce2 < ce1 := Std.compare_eq_gt.mp hc
        refine .inr ⟨.gt, rfl, ?_⟩
        rw [if_pos (UInt32.ne_of_lt hgt).symm, if_neg (UInt32.not_lt.mpr (UInt32.le_of_lt hgt))]
        rfl

variable {table} {cd}

/-- The result is the sign of the lexicographic comparison of the elements. -/
theorem localizedCompare_of_delivers {a b : List UInt8} {as bs : List CollationElement}
    (ha : ∀ queue, Delivers (CollationElementIterator.getNext table cd)
      (iteratorFor table queue a) as)
    (hb : ∀ queue, Delivers (CollationElementIterator.getNext table cd)
      (iteratorFor table queue b) bs) (r : Int) :
    LocalizedCompare table cd a b r ↔ r = orderingSign (compare as bs) := by
  have hret (queue1 queue2 : UnicharQueue) : Returns (localizedCompareBody table cd)
      ((iteratorFor table queue1 a).getNext table cd,
        (iteratorFor table queue2 b).getNext table cd) (orderingSign (compare as bs)) :=
    (returns_compareBody (ha queue1) (hb queue2)).map orderingSign
      (localizedCompareBody_spec table cd)
  constructor
  · intro h
    exact (h ⟨fun _ => 0, 0, 0, 0⟩ ⟨fun _ => 0, 0, 0, 0⟩).unique (hret _ _)
  · intro heq
    obtain rfl := heq
    exact hret

/-- The comparison is the sign of the lexicographic comparison of the element sequences, which are
functions of one string each. It is a total preorder. -/
theorem localizedCompare_totalPreorder (table : UnicharDecompositionTable) (cd : CollationData) :
    ∃ ces : List UInt8 → List CollationElement,
      (∀ queue str, Delivers (CollationElementIterator.getNext table cd)
        (iteratorFor table queue str) (ces str)) ∧
      (∀ a b r, LocalizedCompare table cd a b r ↔ r = orderingSign (compare (ces a) (ces b))) ∧
      (∀ a, LocalizedCompare table cd a a 0) ∧
      (∀ a b r, LocalizedCompare table cd a b r → LocalizedCompare table cd b a (-r)) ∧
      (∀ a b c r s, LocalizedCompare table cd a b r → LocalizedCompare table cd b c s →
        r ≤ 0 → s ≤ 0 →
        ∃ t, LocalizedCompare table cd a c t ∧ t ≤ 0 ∧ (r < 0 ∨ s < 0 → t < 0)) ∧
      (∀ a b, LocalizedCompare table cd a b 0 → ∀ c r,
        (LocalizedCompare table cd a c r ↔ LocalizedCompare table cd b c r) ∧
          (LocalizedCompare table cd c a r ↔ LocalizedCompare table cd c b r)) := by
  choose ces hces using iteratorFor_delivers table cd
  have hsign (a b : List UInt8) (r : Int) :
      LocalizedCompare table cd a b r ↔ r = orderingSign (compare (ces a) (ces b)) :=
    localizedCompare_of_delivers (hces a) (hces b) r
  refine ⟨ces, fun queue str => hces str queue, hsign, ?_, ?_, ?_, ?_⟩
  · intro a
    rw [hsign, Std.ReflOrd.compare_self]
    rfl
  · intro a b r h
    rw [hsign] at h ⊢
    rw [h, Std.OrientedOrd.eq_swap, orderingSign_swap, Int.neg_neg]
  · intro a b c r s hr hs
    rw [hsign] at hr hs
    subst hr hs
    rw [orderingSign_le_zero, orderingSign_le_zero]
    intro hab hbc
    refine ⟨_, (hsign a c _).mpr rfl, ?_, ?_⟩
    · rw [orderingSign_le_zero]
      exact Std.TransOrd.isLE_trans hab hbc
    · rw [orderingSign_lt_zero, orderingSign_lt_zero, orderingSign_lt_zero]
      intro hor
      rcases hor with hlt | hlt
      · exact Std.TransCmp.lt_of_lt_of_isLE hlt hbc
      · exact Std.TransCmp.lt_of_isLE_of_lt hab hlt
  · intro a b h
    have heq : ces a = ces b := by
      rw [hsign] at h
      exact Std.LawfulEqOrd.eq_of_compare (orderingSign_eq_zero.mp h.symm)
    intro c r
    rw [hsign, hsign, hsign, hsign, heq]
    exact ⟨Iff.rfl, Iff.rfl⟩

end NdsDevkit.Collation
