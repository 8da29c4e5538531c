import NdsDevkit.Page.BsrSafety

namespace NdsDevkit.Page

open Framework

/-- `n` zero bytes of the page from `i` on. -/
structure ZeroRun (page : List UInt8) (i n : Nat) : Prop where
  inside : i + n ≤ page.length
  zero : ∀ k, k < n → page[i + k]? = some 0

variable {page : List UInt8}

theorem ZeroRun.split {i n : Nat} (h : ZeroRun page i n) :
    page = page.take i ++ List.replicate n 0 ++ page.drop (i + n) := by
  have hz : (page.drop i).take n = List.replicate n 0 := by
    apply List.ext_getElem?
    intro k
    by_cases hk : k < n
    · rw [List.getElem?_take_of_lt hk, List.getElem?_drop, h.zero k hk, List.getElem?_replicate,
        if_pos hk]
    · rw [List.getElem?_eq_none (by simp; omega), List.getElem?_eq_none (by simp; omega)]
  rw [← hz, ← List.take_add, List.take_append_drop]

theorem skipZeros_spec (page : List UInt8) (n p : Nat) (h : p + n ≤ page.length) :
    ∃ e, skipZeros (.ofList page) n p = .ok e ∧ p ≤ e ∧ e ≤ p + n ∧
      (∀ k, p ≤ k → k < e → page[k]? = some 0) ∧ (e < p + n → page[e]? ≠ some 0) := by
  induction n generalizing p with
  | zero =>
    exact ⟨p, rfl, Nat.le_refl _, Nat.le_refl _, fun k h1 h2 => by omega, fun h1 => by omega⟩
  | succ n ih =>
    have hlt : p < page.length := by omega
    simp only [skipZeros, Buf.read_ofList hlt, bind, Except.bind]
    by_cases hc : page[p] = 0
    · obtain ⟨e, he, hle, hge, hzero, hstop⟩ := ih (p + 1) (by omega)
      rw [if_pos hc]
      refine ⟨e, he, by omega, by omega, ?_, fun h1 => hstop (by omega)⟩
      intro k h1 h2
      rcases Nat.eq_or_lt_of_le h1 with rfl | h1
      · rw [List.getElem?_eq_getElem hlt, hc]
      · exact hzero k h1 h2
    · rw [if_neg hc]
      refine ⟨p, rfl, Nat.le_refl _, by omega, fun k h1 h2 => by omega, ?_⟩
      intro _
      rw [List.getElem?_eq_getElem hlt]
      simpa using hc

/-- The best run so far is a run of zeros, and the limit leaves room for it. -/
structure BsrSearch.Inv (page : List UInt8) (s : BsrSearch) : Prop where
  best : ZeroRun page s.pBestStart s.bestLen
  start : s.bestLen = 0 → s.pBestStart = 0
  limit : s.pN + s.bestLen = page.length

theorem bsrSearchStep_spec {s : BsrSearch} (h : s.Inv page) (hlt : s.p < s.pN) :
    ∃ s', bsrSearchStep (.ofList page) page.length s = .ok s' ∧ s'.Inv page ∧ s.p < s'.p := by
  have hlim := h.limit
  have hp : s.p < page.length := by omega
  simp only [bsrSearchStep, Buf.read_ofList hp, bind, Except.bind]
  by_cases hc : page[s.p] = 0
  · obtain ⟨e, he, hle, hge, hzero, _⟩ := skipZeros_spec page
      (page.length - (s.p + 1)) (s.p + 1) (by omega)
    rw [if_pos hc, he]
    simp only
    split
    · next hbig =>
      refine ⟨_, rfl, ⟨⟨by simp only; omega, fun k hk => ?_⟩, fun h0 => ?_, by simp only; omega⟩,
        by simp only; omega⟩
      · simp only at hk ⊢
        cases k with
        | zero => rw [Nat.add_zero, List.getElem?_eq_getElem hp, hc]
        | succ k => exact hzero _ (by omega) (by omega)
      · simp only at h0
        omega
    · exact ⟨_, rfl, ⟨h.best, h.start, h.limit⟩, by simp only; omega⟩
  · rw [if_neg hc]
    exact ⟨_, rfl, ⟨h.best, h.start, h.limit⟩, Nat.lt_succ_self _⟩

/-- What the steps keep holds where the search stops. -/
theorem bsrSearch_keeps {I : BsrSearch → Prop} (hinv : ∀ s, I s → s.Inv page)
    (hstart : I ⟨0, page.length, 0, 0⟩)
    (hstep : ∀ s, I s → s.p < s.pN →
      ∃ s', bsrSearchStep (.ofList page) page.length s = .ok s' ∧ I s' ∧ s.p < s'.p) :
    ∃ s, bsrSearch (.ofList page) page.length = .ok s ∧ I s ∧ s.pN ≤ s.p := by
  have hloop := Ends.whileDo (fun s : BsrSearch => decide (s.p < s.pN))
    (bsrSearchStep (.ofList page) page.length) Stop.outOfFuel I
    (fun s => page.length - s.p) (fun _ => False)
    (fun s hs hc => by
      have hlt : s.p < s.pN := by simpa using hc
      have hlim := (hinv s hs).limit
      obtain ⟨s', he, hi, hp⟩ := hstep s hs hlt
      rw [he]
      exact ⟨hi, by omega⟩)
    (page.length + 1) _ hstart (Nat.lt_succ_self _)
  obtain ⟨s, hs, hi, hc⟩ := hloop.ok_of_not fun _ he => he
  exact ⟨s, hs, hi, by simpa using hc⟩

theorem BsrSearch.inv_start (page : List UInt8) :
    BsrSearch.Inv page ⟨0, page.length, 0, 0⟩ := by
  refine ⟨⟨Nat.zero_le _, ?_⟩, fun _ => rfl, rfl⟩
  intro k hk
  exact absurd hk (Nat.not_lt_zero k)

theorem bsrSearch_spec (page : List UInt8) :
    ∃ s, bsrSearch (.ofList page) page.length = .ok s ∧ s.Inv page := by
  obtain ⟨s, hs, hi, _⟩ := bsrSearch_keeps (fun _ h => h) (BsrSearch.inv_start page)
    fun _ h hlt => bsrSearchStep_spec h hlt
  exact ⟨s, hs, hi⟩

/-- The stored form of a page with a run of `n` zeros at `x`. -/
def bsrBytes (page : List UInt8) (x n : Nat) : List UInt8 :=
  [UInt8.ofNat (x >>> 8), UInt8.ofNat x] ++ page.take x ++ page.drop (x + n)

theorem length_bsrBytes {x n : Nat} (h : x + n ≤ page.length) :
    (bsrBytes page x n).length = 2 + page.length - n := by
  simp [bsrBytes]
  omega

/-- The encoder writes its four parts one behind the other. -/
theorem bsrCompress_of_search {s : BsrSearch} (hs : bsrSearch (.ofList page) page.length = .ok s)
    (hi : s.Inv page) {p : ZipvfsInst} (hp : p.pCrypto = none) {aOut : Buf UInt8}
    (hout : aOut.size = bsrBound page.length) :
    ∃ out, bsrCompress p aOut (.ofList page) page.length =
        .ok (out, 2 + page.length - s.bestLen) ∧ out.size = aOut.size ∧
      out.Holds 0 (bsrBytes page s.pBestStart s.bestLen) := by
  obtain ⟨_, _, x, n⟩ := s
  have hrun : ZeroRun page x n := hi.best
  have hin := hrun.inside
  unfold bsrBound at hout
  have h1 := Buf.write_eq (b := aOut) (i := 0) (UInt8.ofNat (x >>> 8)) (by omega)
  generalize hb1 : aOut.put 0 [UInt8.ofNat (x >>> 8)] = b1 at h1
  have hs1 : b1.size = aOut.size := by rw [← hb1]; rfl
  have h2 := Buf.write_eq (b := b1) (i := 1) (UInt8.ofNat x) (by omega)
  generalize hb2 : b1.put 1 [UInt8.ofNat x] = b2 at h2
  have hs2 : b2.size = aOut.size := by rw [← hb2, Buf.size_put, hs1]
  have h3 := memcpy_eq b2 (d := 2) (s := 0) (n := x) (i := 2) (m := x)
    (Buf.holds_ofList page) (Nat.le_refl _) (by omega) (by omega) rfl rfl
  generalize hb3 : b2.put 2 ((page.drop 0).take x) = b3 at h3
  have hs3 : b3.size = aOut.size := by rw [← hb3, Buf.size_put, hs2]
  have h4 := memcpy_eq b3 (d := 2 + x) (s := x + n) (n := page.length - (x + n))
    (i := 2 + x) (m := page.length - x - n)
    (Buf.holds_ofList page) (Nat.le_refl _) (by omega) (by omega) rfl (by omega)
  rw [List.take_of_length_le (by simp)] at h4
  refine ⟨b3.put (2 + x) (page.drop (x + n)), ?_, ?_, ?_⟩
  · rw [bsrCompress]
    simp only [hs, hp, h1, h2, h3, h4, bind, Except.bind]
    rfl
  · exact hs3
  · have g1 := (Buf.holds_nil aOut 0).put_at [UInt8.ofNat (x >>> 8)] (j := 0) rfl
    rw [hb1] at g1
    have g2 := g1.put_at [UInt8.ofNat x] (j := 1) rfl
    rw [hb2] at g2
    have g3 := g2.put_at ((page.drop 0).take x) (j := 2) rfl
    rw [hb3] at g3
    refine g3.put_at (page.drop (x + n)) ?_
    simp
    omega

theorem bsrCompress_spec (page : List UInt8) {p : ZipvfsInst} (hp : p.pCrypto = none)
    {aOut : Buf UInt8}
    (hout : aOut.size = bsrBound page.length) :
    ∃ out x n, bsrCompress p aOut (.ofList page) page.length = .ok (out, 2 + page.length - n) ∧
      ZeroRun page x n ∧ (n = 0 → x = 0) ∧ out.size = aOut.size ∧
      out.Holds 0 (bsrBytes page x n) := by
  obtain ⟨s, hs, hi⟩ := bsrSearch_spec page
  obtain ⟨out, hc, hsize, hh⟩ := bsrCompress_of_search hs hi hp hout
  exact ⟨out, s.pBestStart, s.bestLen, hc, hi.best, hi.start, hsize, hh⟩

/-- The stored offset fits into its two bytes. -/
theorem offset_bytes {x : Nat} (h : x < 65536) :
    (UInt8.ofNat (x >>> 8)).toNat <<< 8 + (UInt8.ofNat x).toNat = x := by
  rw [UInt8.toNat_ofNat', UInt8.toNat_ofNat', Nat.shiftRight_eq_div_pow, Nat.shiftLeft_eq]
  omega

theorem headLength_bsrBytes {x n : Nat} (hx : x < 65536) : headLength (bsrBytes page x n) = x :=
  offset_bytes hx

/-- The stored form of a page stands for the page. -/
theorem bsrPage_bsrBytes {x n : Nat} (hrun : ZeroRun page x n) (hx : x < 65536) :
    bsrPage (bsrBytes page x n) page.length = page := by
  have hin := hrun.inside
  have hxl : (page.take x).length = x := by
    rw [List.length_take]
    omega
  have hbehind : (bsrBytes page x n).drop 2 = page.take x ++ page.drop (x + n) := by
    rw [bsrBytes, List.append_assoc]
    rfl
  have hzeros : page.length - ((bsrBytes page x n).length - 2) = n := by
    rw [length_bsrBytes hin]
    omega
  rw [bsrPage, headLength_bsrBytes hx, hzeros, ← List.drop_drop, hbehind, List.take_left' hxl,
    List.drop_left' hxl]
  exact hrun.split.symm

/-- The decoder puts the head, the zeros and the tail one behind the other. -/
theorem bsrUncompress_spec {p : ZipvfsInst} (hp : p.pCrypto = none) {aOut : Buf UInt8} {x n : Nat}
    (hout : aOut.size = page.length) (hrun : ZeroRun page x n) (hx : x < 65536) {blob : List UInt8}
    (hblob : blob = bsrBytes page x n) :
    ∃ out, bsrUncompress p aOut page.length (.ofList blob) blob.length = .ok (p, out) ∧
      out.size = page.length ∧ out.Holds 0 page := by
  have hin := hrun.inside
  have hlen : blob.length = 2 + page.length - n := by rw [hblob, length_bsrBytes hin]
  have htext : plainText p blob = bsrBytes page x n := by simp only [plainText, hp, hblob]
  have hfits : Consistent p page.length blob := by
    refine ⟨by omega, ?_, by omega⟩
    rw [htext, headLength_bsrBytes hx]
    omega
  obtain ⟨p', out, hres, hp', hsize, hh⟩ := bsrUncompress_consistent hout hfits
  rw [htext, bsrPage_bsrBytes hrun hx] at hh
  rw [hp' hp] at hres
  exact ⟨out, hres, hsize, hh⟩

/-- A page of up to 65536 bytes survives the codec. -/
theorem bsrUncompress_bsrCompress (p : ZipvfsInst) (hp : p.pCrypto = none) (page : List UInt8)
    (hn : page.length ≤ 65536) (aOut aPage : Buf UInt8) (hout : aOut.size = bsrBound page.length)
    (hpage : aPage.size = page.length) :
    ∃ out nOut blob dst, bsrCompress p aOut (.ofList page) page.length = .ok (out, nOut) ∧
      nOut ≤ bsrBound page.length ∧ out.slice 0 nOut = some blob ∧
      bsrUncompress p aPage page.length (.ofList blob) nOut = .ok (p, dst) ∧
      dst.slice 0 page.length = some page := by
  obtain ⟨out, x, n, hc, hrun, h0, _, hh⟩ := bsrCompress_spec page hp hout
  have hin := hrun.inside
  have hlen := length_bsrBytes hin
  have hx : x < 65536 := by
    rcases Nat.eq_zero_or_pos n with hz | hpos
    · have := h0 hz
      omega
    · omega
  obtain ⟨dst, hd, _, hpage'⟩ := bsrUncompress_spec hp hpage hrun hx rfl
  refine ⟨out, _, bsrBytes page x n, dst, hc, ?_, ?_, ?_, hpage'.slice⟩
  · rw [bsrBound]
    omega
  · rw [← hlen]
    exact hh.slice
  · rw [← hlen]
    exact hd

theorem bsrUncompress_bsrCompress_run :
    ∃ out nOut blob dst, bsrCompress ⟨none⟩ (.fresh 6) (.ofList [7, 0, 0, 9]) 4 = .ok (out, nOut) ∧
      nOut ≤ 6 ∧ out.slice 0 nOut = some blob ∧
      bsrUncompress ⟨none⟩ (.fresh 4) 4 (.ofList blob) nOut = .ok (⟨none⟩, dst) ∧
      dst.slice 0 4 = some [7, 0, 0, 9] :=
  bsrUncompress_bsrCompress ⟨none⟩ rfl [7, 0, 0, 9] (by decide) (.fresh 6) (.fresh 4) rfl rfl

end NdsDevkit.Page
