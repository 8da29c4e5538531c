import NdsDevkit.Page.BsrCorrect

namespace NdsDevkit.Page

open Framework

variable {page : List UInt8} {s : BsrSearch}

/-- A run that starts inside another one and does not end behind it. -/
theorem ZeroRun.le_of_stop {i n e : Nat} (h : ZeroRun page i n) (hie : i ≤ e)
    (hstop : page[e]? ≠ some 0) : i + n ≤ e := by
  by_contra hlt
  apply hstop
  have hzero := h.zero (e - i) (by omega)
  rwa [Nat.add_sub_cancel' hie] at hzero

/-- No run that starts before the cursor is longer than the best one, and none of its length
starts before it. -/
structure BsrSearch.Longest (page : List UInt8) (s : BsrSearch) : Prop where
  inv : s.Inv page
  longest : ∀ i n, i < s.p → ZeroRun page i n → n ≤ s.bestLen
  first : ∀ i, ZeroRun page i s.bestLen → s.pBestStart ≤ i

theorem bsrSearchStep_longest (h : s.Longest page) (hlt : s.p < s.pN) :
    ∃ s', bsrSearchStep (.ofList page) page.length s = .ok s' ∧ s'.Longest page ∧
      s.p < s'.p := by
  obtain ⟨s', he, hinv, hp'⟩ := bsrSearchStep_spec h.inv hlt
  have hlim := h.inv.limit
  have hp : s.p < page.length := by omega
  refine ⟨s', he, ?_, hp'⟩
  simp only [bsrSearchStep, Buf.read_ofList hp, bind, Except.bind] at he
  by_cases hc : page[s.p] = 0
  · obtain ⟨e, hskip, hle, hge, hzero, hstop⟩ := skipZeros_spec page
      (page.length - (s.p + 1)) (s.p + 1) (by omega)
    have hend : page[e]? ≠ some 0 := by
      rcases Nat.lt_or_ge e page.length with hlt' | hge'
      · exact hstop (by omega)
      · simp [List.getElem?_eq_none hge']
    rw [if_pos hc, hskip] at he
    simp only at he
    -- the runs behind the old cursor end where the scan stopped
    have hinside : ∀ i n, s.p ≤ i → i ≤ e → ZeroRun page i n → n ≤ e - s.p := by
      intro i n hi hie hrun
      have := hrun.le_of_stop hie hend
      omega
    split at he
    · next hbig =>
      cases he
      refine ⟨hinv, ?_, ?_⟩
      · intro i n hi hrun
        simp only at hi ⊢
        rcases Nat.lt_or_ge i s.p with hold | hnew
        · have := h.longest i n hold hrun
          omega
        · exact hinside i n hnew (by omega) hrun
      · intro i hrun
        by_contra hbefore
        have := h.longest i _ (by simpa using hbefore) hrun
        simp only at this
        omega
    · next hsmall =>
      cases he
      refine ⟨hinv, ?_, h.first⟩
      intro i n hi hrun
      simp only at hi ⊢
      rcases Nat.lt_or_ge i s.p with hold | hnew
      · exact h.longest i n hold hrun
      · have := hinside i n hnew (by omega) hrun
        omega
  · rw [if_neg hc] at he
    cases he
    refine ⟨hinv, ?_, h.first⟩
    intro i n hi hrun
    simp only at hi ⊢
    rcases Nat.lt_or_ge i s.p with hold | hnew
    · exact h.longest i n hold hrun
    · have hstop : page[s.p]? ≠ some 0 := by
        rw [List.getElem?_eq_getElem hp]
        simpa using hc
      have hi' : i = s.p := by omega
      have := hrun.le_of_stop (Nat.le_of_eq hi') hstop
      omega

/-- Where the search stops, too little is left of the page for a longer run. -/
theorem bsrSearch_done (h : s.Longest page) (hstop : s.pN ≤ s.p) {i n : Nat}
    (hrun : ZeroRun page i n) : n ≤ s.bestLen := by
  rcases Nat.lt_or_ge i s.p with hbefore | hbehind
  · exact h.longest i n hbefore hrun
  · have hlim := h.inv.limit
    have hin := hrun.inside
    omega

theorem bsrSearch_total (page : List UInt8) :
    ∃ s, bsrSearch (.ofList page) page.length = .ok s ∧ s.Longest page ∧ s.pN ≤ s.p := by
  apply bsrSearch_keeps
  · exact fun s h => h.inv
  · refine ⟨BsrSearch.inv_start page, ?_, fun i _ => Nat.zero_le i⟩
    intro i n hi
    exact absurd hi (Nat.not_lt_zero i)
  · exact fun s h hlt => bsrSearchStep_longest h hlt

/-- The search ends with the first of the longest runs of zeros, and the encoder leaves it out. -/
theorem bsrCompress_longestRun (page : List UInt8) (p : ZipvfsInst) (hp : p.pCrypto = none)
    (aOut : Buf UInt8) (hout : aOut.size = bsrBound page.length) :
    ∃ s out, bsrSearch (.ofList page) page.length = .ok s ∧
      ZeroRun page s.pBestStart s.bestLen ∧
      (∀ i n, ZeroRun page i n → n ≤ s.bestLen) ∧
      (∀ i, ZeroRun page i s.bestLen → s.pBestStart ≤ i) ∧
      bsrCompress p aOut (.ofList page) page.length =
        .ok (out, page.length + 2 - s.bestLen) := by
  obtain ⟨s, hs, hlongest, hstop⟩ := bsrSearch_total page
  obtain ⟨out, hc, _⟩ := bsrCompress_of_search hs hlongest.inv hp hout
  rw [Nat.add_comm 2] at hc
  refine ⟨s, out, hs, hlongest.inv.best, ?_, hlongest.first, hc⟩
  intro i n hrun
  exact bsrSearch_done hlongest hstop hrun

/-- Two runs of two zeros, the second one at the end of the page. -/
theorem bsrCompress_longestRun_tie :
    ∃ s out, bsrSearch (.ofList [7, 0, 0, 9, 0, 0]) 6 = .ok s ∧
      ZeroRun [7, 0, 0, 9, 0, 0] s.pBestStart s.bestLen ∧
      (∀ i n, ZeroRun [7, 0, 0, 9, 0, 0] i n → n ≤ s.bestLen) ∧
      (∀ i, ZeroRun [7, 0, 0, 9, 0, 0] i s.bestLen → s.pBestStart ≤ i) ∧
      bsrCompress ⟨none⟩ (.fresh 8) (.ofList [7, 0, 0, 9, 0, 0]) 6 = .ok (out, 8 - s.bestLen) :=
  bsrCompress_longestRun [7, 0, 0, 9, 0, 0] ⟨none⟩ rfl (.fresh 8) rfl

end NdsDevkit.Page
