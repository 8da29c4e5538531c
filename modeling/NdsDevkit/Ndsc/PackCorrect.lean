import NdsDevkit.Ndsc.PatternMatch
import NdsDevkit.Ndsc.WriterCorrect

namespace NdsDevkit.Ndsc

open Framework

variable {src : List UInt8} {dstLen : Nat}

theorem scanRun_spec (src : List UInt8) (c : UInt8) (n ofs : Nat) (h : ofs + n ≤ src.length) :
    ∃ e, scanRun (.ofList src) c n ofs = .ok e ∧ ofs ≤ e ∧ e ≤ ofs + n ∧
      ∀ k, ofs ≤ k → k < e → src[k]? = some c := by
  induction n generalizing ofs with
  | zero => exact ⟨ofs, rfl, Nat.le_refl _, Nat.le_refl _, fun k h1 h2 => by omega⟩
  | succ n ih =>
    have hlt : ofs < src.length := by omega
    simp only [scanRun, Buf.read_ofList hlt, bind, Except.bind]
    by_cases hc : src[ofs] = c
    · obtain ⟨e, he, hle, hge, hsame⟩ := ih (ofs + 1) (by omega)
      rw [if_pos hc]
      refine ⟨e, he, by omega, by omega, ?_⟩
      intro k h1 h2
      rcases Nat.eq_or_lt_of_le h1 with rfl | h1
      · rw [List.getElem?_eq_getElem hlt, hc]
      · exact hsame k h1 h2
    · rw [if_neg hc]
      exact ⟨ofs, rfl, Nat.le_refl _, by omega, fun k h1 h2 => by omega⟩

/-- A pattern the encoder may write: it lies inside the source and in the part before the
position, and the characters agree. -/
structure Best.Match (src : List UInt8) (curOfs : Nat) (uncOfs : Option Nat) (best : Best) :
    Prop where
  ext_le : best.mext ≤ 1
  ext_unc : best.mext = 1 → uncOfs.isSome
  cnt_lt : best.mcnt < 256 + 16
  gap_lt : best.mgap < 4096
  back : best.mgap + best.mcnt ≤ curOfs - best.mext
  ahead : curOfs - best.mext + best.mcnt ≤ src.length
  same : ∀ k, k < best.mcnt →
    src[curOfs - best.mext + k]? = src[curOfs - best.mext - (best.mgap + best.mcnt) + k]?

theorem patternCnt_le {curOfs p : Nat} (hp : p ≤ curOfs) (hcur : curOfs < src.length) :
    p + patternCnt src curOfs p ≤ curOfs ∧ curOfs + patternCnt src curOfs p ≤ src.length ∧
      patternCnt src curOfs p ≤ 256 + 16 - 1 := by
  have hle := agree_le src
    (min (min (curOfs + 256 + 16 - 1) src.length) (curOfs + (curOfs - p)) - curOfs) curOfs p
  rw [patternCnt]
  omega

theorem extraChar_cases (src : List UInt8) (curOfs : Nat) (uncOfs : Option Nat) (p : Nat) :
    extraChar src curOfs uncOfs p = 0 ∨ extraChar src curOfs uncOfs p = 1 ∧ uncOfs.isSome ∧
      0 < patternGap src curOfs p ∧ 0 < p ∧ src[curOfs - 1]? = src[p - 1]? ∧
      patternCnt src curOfs p < 256 + 16 - 1 := by
  rw [extraChar]
  split
  · next h => exact .inr ⟨rfl, h⟩
  · exact .inl rfl

theorem matchAt_match {curOfs p : Nat} (uncOfs : Option Nat) (hp : p ≤ curOfs)
    (hcur : curOfs < src.length) (hgap : patternGap src curOfs p < 4096) :
    (matchAt src curOfs uncOfs p).Match src curOfs uncOfs := by
  obtain ⟨hback, hahead, hcnt⟩ := patternCnt_le hp hcur
  have hsame : ∀ k, k < patternCnt src curOfs p → src[curOfs + k]? = src[p + k]? :=
    fun k hk => agree_same hk
  have hgapdef : patternGap src curOfs p = curOfs - (p + patternCnt src curOfs p) := rfl
  rcases extraChar_cases src curOfs uncOfs p with he | ⟨he, hunc, hpos, hp0, hbyte, hlt⟩
  · rw [matchAt, extLength, he]
    have hpat : curOfs - 0 - (patternGap src curOfs p - 0 + (patternCnt src curOfs p + 0)) = p := by
      omega
    refine ⟨by simp, by simp, by simp only; omega, by simp only; omega, by simp only; omega,
      by simp only; omega, ?_⟩
    intro k hk
    simp only [hpat]
    exact hsame k hk
  · rw [matchAt, extLength, he]
    have hpat : curOfs - 1 - (patternGap src curOfs p - 1 + (patternCnt src curOfs p + 1)) =
        p - 1 := by omega
    refine ⟨by simp, fun _ => hunc, by simp only; omega, by simp only; omega, by simp only; omega,
      by simp only; omega, ?_⟩
    intro k hk
    simp only [hpat] at hk ⊢
    -- the extra character comes first
    cases k with
    | zero => exact hbyte
    | succ k =>
      have hs := hsame k (by omega)
      rwa [show curOfs - 1 + (k + 1) = curOfs + k by omega,
        show p - 1 + (k + 1) = p + k by omega]

/-- Comparing one candidate keeps the best pattern writable. -/
theorem comparePattern_spec {curOfs lstOfs : Nat} {uncOfs : Option Nat} {best : Best}
    (hl : lstOfs ≤ curOfs) (hcur : curOfs < src.length)
    (hb : 0 < best.mcnt → best.Match src curOfs uncOfs) :
    ∃ best', comparePattern (.ofList src) src.length curOfs uncOfs lstOfs best = .ok best' ∧
      (0 < best'.mcnt → best'.Match src curOfs uncOfs) := by
  refine ⟨_, comparePattern_eq best hl hcur, ?_⟩
  rw [keep]
  split
  · next h => exact fun _ => matchAt_match uncOfs hl hcur h.2.1
  · exact hb

/-- Every slot of the hash table is initialised and holds no position from `bound` on. -/
structure HashTbl.Below (tbl : HashTbl) (size bound : Nat) : Prop where
  size_eq : tbl.size = size
  entry : ∀ i, i < size → ∃ e, tbl.cells i = some e ∧ ∀ p, e = some p → p < bound

theorem HashTbl.Below.mono {tbl : HashTbl} {size bound bound' : Nat} (h : tbl.Below size bound)
    (hle : bound ≤ bound') : tbl.Below size bound' := by
  refine ⟨h.size_eq, ?_⟩
  intro i hi
  obtain ⟨e, he, hb⟩ := h.entry i hi
  exact ⟨e, he, fun p hp => by have := hb p hp; omega⟩

theorem HashTbl.Below.read {tbl : HashTbl} {size bound i : Nat} (h : tbl.Below size bound)
    (hi : i < size) : ∃ e, tbl.read i = .ok e ∧ ∀ p, e = some p → p < bound := by
  obtain ⟨e, he, hb⟩ := h.entry i hi
  refine ⟨e, ?_, hb⟩
  simp [Buf.read, h.size_eq, hi, he]

theorem HashTbl.Below.write {tbl : HashTbl} {size bound i : Nat} {e : Option Nat}
    (h : tbl.Below size bound) (hi : i < size) (he : ∀ p, e = some p → p < bound) :
    ∃ tbl' : HashTbl, tbl.write i e = .ok tbl' ∧ tbl'.Below size bound := by
  refine ⟨_, Buf.write_eq e (by rw [h.size_eq]; exact hi), h.size_eq, ?_⟩
  intro j hj
  by_cases hji : j = i
  · subst hji
    rw [Buf.cells_put_of_mem tbl (Nat.le_refl _) (by simp)]
    exact ⟨e, by simp, he⟩
  · rw [Buf.cells_put_of_not_mem tbl (by simp; omega)]
    exact h.entry j hj

theorem shiftChain_spec {size bound base : Nat} (n i : Nat) (lstOfs : Option Nat) {tbl : HashTbl}
    (hb : base + i + n ≤ size) (h : tbl.Below size bound) (hl : ∀ p, lstOfs = some p → p < bound) :
    ∃ tbl', shiftChain base n i lstOfs tbl = .ok tbl' ∧ tbl'.Below size bound := by
  induction n generalizing i lstOfs tbl with
  | zero => exact ⟨tbl, rfl, h⟩
  | succ n ih =>
    obtain ⟨e, he, hbe⟩ := h.read (i := base + i) (by omega)
    obtain ⟨tbl1, hw, h1⟩ := h.write (i := base + i) (by omega) hl
    simp only [shiftChain, he, hw, bind, Except.bind]
    exact ih (i + 1) _ (by omega) h1 hbe

theorem searchChain_spec {size base curOfs : Nat} (uncOfs : Option Nat) (hcur : curOfs < src.length)
    (n i : Nat) (lstOfs : Option Nat) {tbl : HashTbl} (best : Best)
    (hb : base + i + n ≤ size) (h : tbl.Below size (curOfs + 1))
    (hl : ∀ p, lstOfs = some p → p < curOfs + 1)
    (hbest : 0 < best.mcnt → best.Match src curOfs uncOfs) :
    ∃ tbl' best', searchChain (.ofList src) src.length curOfs uncOfs base n i lstOfs tbl best =
        .ok (tbl', best') ∧
      tbl'.Below size (curOfs + 1) ∧ (0 < best'.mcnt → best'.Match src curOfs uncOfs) := by
  induction n generalizing i lstOfs tbl best with
  | zero => exact ⟨tbl, best, rfl, h, hbest⟩
  | succ n ih =>
    obtain ⟨e, he, hbe⟩ := h.read (i := base + i) (by omega)
    obtain ⟨tbl1, hw, h1⟩ := h.write (i := base + i) (by omega) hl
    simp only [searchChain, he, hw, bind, Except.bind]
    cases e with
    | none => exact ih (i + 1) none best (by omega) h1 (by simp) hbest
    | some p =>
      have hp : p ≤ curOfs := Nat.lt_succ_iff.mp (hbe p rfl)
      obtain ⟨best1, hcmp, hbest1⟩ := comparePattern_spec hp hcur hbest
      simp only [hcmp]
      split
      · exact ih (i + 1) (some p) best1 (by omega) h1 hbe hbest1
      · exact ⟨tbl1, best, rfl, h1, hbest⟩

/-- Between two passes everything before the open block is written. -/
structure PackInv (src : List UInt8) (dstLen hnum : Nat) (s : PackState) : Prop where
  srcOfs_le : s.srcOfs ≤ src.length
  curOfs_eq : s.uncOfs.isSome → s.curOfs = s.srcOfs
  unc_lt : ∀ u, s.uncOfs = some u → u < s.srcOfs
  packed : s.out.Packed dstLen src (s.uncOfs.getD s.srcOfs)
  tbl : s.hashTbl.Below (nsdcHashLen * hnum) s.srcOfs

variable {hnum : Nat} {s : PackState}

/-- Everything up to a position at or before the current one can be flushed. -/
theorem PackInv.flush (h : PackInv src dstLen hnum s) {ext : Nat} (hle : ext ≤ 1)
    (hunc : ext = 1 → s.uncOfs.isSome) :
    Ends (s.out.flush (.ofList src) (s.srcOfs - ext) s.uncOfs)
      (fun w => w.Packed dstLen src (s.srcOfs - ext)) (TooSmall dstLen src) := by
  have hpacked := h.packed
  have hsrc := h.srcOfs_le
  refine flush_spec ?_ (fun u hu => ?_) (by omega)
  · cases hu : s.uncOfs with
    | none =>
      have h0 : ext = 0 := by
        by_contra hne
        have hsome := hunc (by omega)
        rw [hu] at hsome
        cases hsome
      rw [hu] at hpacked
      simpa [h0] using hpacked
    | some u =>
      rw [hu] at hpacked
      exact hpacked
  · have := h.unc_lt u hu
    omega

theorem Writer.Packed.putRun {w : Writer} {p n : Nat} {c : UInt8} (h : w.Packed dstLen src p)
    (hp : 0 < p) (hn : 3 ≤ n ∧ n < 4096 + 3) (hle : p + n ≤ src.length)
    (hc : src[p - 1]? = some c) (hrun : ∀ k, k < n → src[p + k]? = some c) :
    Ends (w.putRun n) (fun w' => w'.Packed dstLen src (p + n)) (TooSmall dstLen src) := by
  obtain ⟨items, hw, hs⟩ := h
  exact hs.put (.run n hn) (Edit.fill_take hp hle hc hrun) trivial (hw.putRun hn)

theorem Writer.Packed.putPattern {w : Writer} {p : Nat} {best : Best} {uncOfs : Option Nat}
    (h : w.Packed dstLen src (p - best.mext)) (hb : best.Match src p uncOfs) (hn : 3 ≤ best.mcnt) :
    Ends (w.putPattern best.mcnt best.mgap)
      (fun w' => w'.Packed dstLen src (p - best.mext + best.mcnt)) (TooSmall dstLen src) := by
  obtain ⟨items, hw, hs⟩ := h
  exact hs.put (.pattern best.mgap best.mcnt hb.gap_lt ⟨hn, hb.cnt_lt⟩)
    (Edit.copy_take hb.back hb.ahead hb.same) trivial (hw.putPattern hb.gap_lt ⟨hn, hb.cnt_lt⟩)

theorem runExt_spec {curOfs : Nat} (uncOfs : Option Nat) (c : UInt8) (cnt : Nat)
    (hcur : curOfs < src.length) :
    ∃ ext, runExt (.ofList src) curOfs uncOfs c cnt = .ok ext ∧
      (ext = 0 ∨ ext = 1 ∧ uncOfs.isSome ∧ 1 < curOfs ∧ src[curOfs - 2]? = some c ∧
        cnt < 4096 + 3 - 1) := by
  rw [runExt]
  split
  · next h =>
    have h1 : curOfs - 2 < src.length := by omega
    simp only [Buf.read_ofList h1, bind, Except.bind]
    split
    · next hb =>
      refine ⟨1, rfl, .inr ⟨rfl, h.1, h.2, ?_, hb.2⟩⟩
      rw [List.getElem?_eq_getElem h1, hb.1]
    · exact ⟨0, rfl, .inl rfl⟩
  · exact ⟨0, rfl, .inl rfl⟩

theorem packRun_spec (h : PackInv src dstLen hnum s) (hcur : s.curOfs = s.srcOfs)
    (hlt : s.srcOfs < src.length) :
    Ends (packRun (.ofList src) src.length s)
      (fun r => (r.1 = true ∧ PackInv src dstLen hnum r.2 ∧ s.srcOfs < r.2.srcOfs) ∨
        r = (false, s)) (TooSmall dstLen src) := by
  rw [packRun]
  rw [hcur]
  split
  · next hodd =>
    have h1 : s.srcOfs - 1 < src.length := by omega
    simp only [Buf.read_ofList h1, bind, Except.bind]
    generalize hend : min (s.srcOfs + 4096 + 3 - 1) src.length = endOfs
    obtain ⟨e, he, hle, hge, hsame⟩ := scanRun_spec src src[s.srcOfs - 1]
      (endOfs - s.srcOfs) s.srcOfs (by omega)
    simp only [he]
    split
    · obtain ⟨ext, hext, hcases⟩ := runExt_spec s.uncOfs src[s.srcOfs - 1]
        (e - s.srcOfs) hlt
      simp only [hext]
      split
      · next hbig =>
        have hext1 : ext ≤ 1 := by omega
        refine (h.flush hext1 (fun h1 => ?_)).bind fun w hw => ?_
        · rcases hcases with h0 | ⟨_, hs, _⟩
          · omega
          · exact hs
        · have hrun : ∀ k, k < e - s.srcOfs + ext →
              src[s.srcOfs - ext + k]? = some src[s.srcOfs - 1] := by
            intro k hk
            by_cases hk0 : s.srcOfs ≤ s.srcOfs - ext + k
            · exact hsame _ hk0 (by omega)
            · rw [← List.getElem?_eq_getElem h1]
              congr 1
              omega
          have hlast : src[s.srcOfs - ext - 1]? = some src[s.srcOfs - 1] := by
            rcases hcases with rfl | ⟨rfl, _, _, hb, _⟩
            · exact List.getElem?_eq_getElem h1
            · exact hb
          apply (hw.putRun (by omega) (by omega) (by omega) hlast hrun).bind
          intro w' hw'
          refine .inl ⟨rfl, ⟨?_, ?_, ?_, ?_, ?_⟩, ?_⟩
          · simp only
            omega
          · simp
          · simp
          · rw [show s.srcOfs - ext + (e - s.srcOfs + ext) = e by omega] at hw'
            exact hw'
          · exact h.tbl.mono (by simp only; omega)
          · simp only
            omega
      · exact .inr rfl
    · exact .inr rfl
  · exact .inr rfl

theorem bucket_apart (hnum : Nat) {hash hash' : Nat} (h : hash < hash') :
    hash * hnum + hnum ≤ hash' * hnum := by
  calc hash * hnum + hnum = (hash + 1) * hnum := (Nat.succ_mul hash hnum).symm
    _ ≤ hash' * hnum := Nat.mul_le_mul_right hnum h

theorem hash_bucket (a b hnum : Nat) :
    ((a <<< 4 ^^^ b) &&& (nsdcHashLen - 1)) * hnum + 0 + hnum ≤ nsdcHashLen * hnum :=
  bucket_apart hnum (Nat.lt_succ_of_le Nat.and_le_right)

theorem packPattern_spec (h : PackInv src dstLen hnum s) (hcur : s.curOfs = s.srcOfs)
    (hlt : s.srcOfs < src.length) :
    Ends (packPattern (.ofList src) src.length hnum s)
      (fun r => (r.1 = true ∧ PackInv src dstLen hnum r.2 ∧ s.srcOfs < r.2.srcOfs) ∨
        ∃ tbl : HashTbl, tbl.Below (nsdcHashLen * hnum) (s.srcOfs + 1) ∧
          r = (false, { s with hashTbl := tbl })) (TooSmall dstLen src) := by
  have htbl := h.tbl.mono (Nat.le_succ s.srcOfs)
  rw [packPattern]
  rw [hcur]
  split
  · have h1 : s.srcOfs + 1 < src.length := by omega
    have hbucket := hash_bucket src[s.srcOfs].toNat src[s.srcOfs + 1].toNat hnum
    simp only [Buf.read_ofList hlt, Buf.read_ofList h1, bind, Except.bind]
    split
    · obtain ⟨tbl, ht, hb⟩ := shiftChain_spec hnum 0 (some s.srcOfs) hbucket htbl (by simp)
      simp only [ht]
      exact .inr ⟨tbl, hb, rfl⟩
    · obtain ⟨tbl, best, ht, hb, hbest⟩ := searchChain_spec s.uncOfs hlt hnum 0 (some s.srcOfs)
        ⟨0, 0, 0⟩ hbucket htbl (by simp)
        (fun hpos => absurd hpos (Nat.lt_irrefl 0))
      simp only [ht]
      split
      · next hbig =>
        have hm := hbest (by omega)
        have hle := hm.ext_le
        have hahead := hm.ahead
        apply (h.flush hle hm.ext_unc).bind
        intro w hw
        apply (hw.putPattern hm hbig.1).bind
        intro w' hw'
        refine .inl ⟨rfl, ⟨hahead, by simp, by simp, hw', ?_⟩, ?_⟩
        · exact hb.mono (by simp only; omega)
        · simp only
          omega
      · exact .inr ⟨tbl, hb, rfl⟩
  · refine .inr ⟨s.hashTbl, htbl, ?_⟩
    cases s
    cases hcur
    rfl

/-- The check at the head of the loop fires with data still pending. -/
theorem Writer.Packed.tooSmall {w : Writer} {n : Nat} (h : w.Packed dstLen src n)
    (hn : n < src.length) (hfull : w.outOfs ≥ w.dst.size) : TooSmall dstLen src .failure := by
  obtain ⟨items, hw, hs⟩ := h
  have hout := hw.shows.outOfs
  have hdst := hw.shows.size
  refine ⟨rfl, ?_⟩
  rcases eq_or_ne items [] with rfl | hne
  · have hone : (frameOf []).size = 1 := rfl
    omega
  · have hle := hs.size_le hne
    omega

theorem packStep_spec (h : PackInv src dstLen hnum s) (hlt : s.srcOfs < src.length) :
    Ends (packStep (.ofList src) src.length hnum s)
      (fun s' => PackInv src dstLen hnum s' ∧ s.srcOfs < s'.srcOfs) (TooSmall dstLen src) := by
  rw [packStep]
  split
  · next hfull =>
    refine h.packed.tooSmall ?_ hfull
    cases hu : s.uncOfs with
    | none => exact hlt
    | some u =>
      have := h.unc_lt u hu
      simp only [Option.getD_some]
      omega
  · have h0 : PackInv src dstLen hnum { s with curOfs := s.srcOfs } :=
      ⟨h.srcOfs_le, fun _ => rfl, h.unc_lt, h.packed, h.tbl⟩
    refine (packRun_spec h0 rfl hlt).bind ?_
    intro r hor
    obtain ⟨done, s1⟩ := r
    rcases hor with ⟨hd, hinv, hgt⟩ | hr
    · simp only at hd hinv hgt
      subst hd
      exact ⟨hinv, hgt⟩
    · cases hr
      refine (packPattern_spec h0 rfl hlt).bind ?_
      intro res hor
      obtain ⟨done, s2⟩ := res
      rcases hor with ⟨hd, hinv, hgt⟩ | ⟨tbl, htbl, hr⟩
      · simp only at hd hinv hgt
        subst hd
        exact ⟨hinv, hgt⟩
      · cases hr
        -- neither run nor pattern: the byte joins the open block or opens one
        refine ⟨⟨hlt, fun _ => rfl, ?_, ?_, htbl⟩, Nat.lt_succ_self _⟩
        · intro u hu
          cases hu' : s.uncOfs with
          | none =>
            simp only [hu', Option.getD_none, Option.some.injEq] at hu
            simp only
            omega
          | some v =>
            have := h.unc_lt v hu'
            simp only [hu', Option.getD_some, Option.some.injEq] at hu
            simp only
            omega
        · exact h.packed

theorem packInit_inv (src : List UInt8) (dstLen hnum : Nat) :
    PackInv src dstLen hnum (packInit dstLen hnum) := by
  refine ⟨Nat.zero_le _, fun _ => rfl, by simp [packInit], ?_, rfl, ?_⟩
  · refine ⟨[], ⟨⟨rfl, rfl, rfl, rfl, rfl, Buf.holds_nil _ _, Buf.holds_nil _ _⟩, ?_⟩, ?_⟩
    · intro hne
      exact absurd rfl hne
    · exact ⟨by simp [packInit], by simp⟩
  · exact fun i _ => ⟨none, rfl, by simp⟩

theorem shiftLeft_eq_controlByte {c : UInt8} {flags : List Bool} (hpos : 0 < flags.length)
    (hle : flags.length ≤ 8) (h : c.toNat % 2 ^ flags.length = flagValue flags) :
    c <<< UInt8.ofNat (8 - flags.length) = controlByte flags := by
  have hpow : 2 ^ flags.length * 2 ^ (8 - flags.length) = 256 := by
    rw [← pow_add, Nat.add_sub_cancel' hle]
    rfl
  have hsh : (UInt8.ofNat (8 - flags.length)).toNat % 8 = 8 - flags.length := by
    rw [UInt8.toNat_ofNat']
    omega
  apply UInt8.toNat_inj.mp
  rw [UInt8.toNat_shiftLeft, hsh, Nat.shiftLeft_eq, controlByte, UInt8.toNat_ofNat', ← h,
    show 2 ^ 8 = 2 ^ flags.length * 2 ^ (8 - flags.length) from hpow.symm, Nat.mul_mod_mul_right,
    Nat.mul_mod_mul_right, Nat.mod_mod]

/-- The encoder terminates without a memory fault. It writes a stream of the format that stands
for the source, or reports a target smaller than the bound. -/
theorem packNDSC_spec (src : List UInt8) (dstLen : Nat) {mode : Int} (h0 : 0 ≤ mode)
    (h8 : mode ≤ 8) :
    Ends (packNDSC src dstLen mode)
      (fun r => r.2.size = dstLen ∧ r.1 ≤ dstLen ∧ r.1 ≤ 9 * src.length / 8 + 1 ∧
        ∃ bytes, bytes.length = r.1 ∧ r.2.Holds 0 bytes ∧ IsNDSC bytes src)
      (TooSmall dstLen src) := by
  rw [packNDSC]
  rw [if_neg (by omega)]
  generalize 1 <<< mode.toNat = hnum
  have hloop := Ends.whileDo (fun s : PackState => decide (s.srcOfs < src.length))
    (packStep (.ofList src) src.length hnum) Stop.outOfFuel
    (PackInv src dstLen hnum) (fun s => src.length - s.srcOfs) (TooSmall dstLen src)
    (fun s hs hc => (packStep_spec hs (by simpa using hc)).mono
      (fun s' hs' => ⟨hs'.1, by have := hs'.2; have := hs'.1.srcOfs_le; omega⟩) fun _ he => he)
    (src.length + 1) _ (packInit_inv src dstLen hnum)
    (Nat.lt_succ_of_le (Nat.sub_le _ _))
  apply hloop.bind
  intro s hboth
  obtain ⟨hinv, hc⟩ := hboth
  have hge : src.length ≤ s.srcOfs := by simpa using hc
  have hend : s.srcOfs = src.length := Nat.le_antisymm hinv.srcOfs_le hge
  have hflush : Ends (s.out.flush (.ofList src) s.curOfs s.uncOfs)
      (fun w => w.Packed dstLen src src.length) (TooSmall dstLen src) := by
    have hpacked := hinv.packed
    cases hu : s.uncOfs with
    | none =>
      rw [hu, Option.getD_none, hend] at hpacked
      exact hpacked
    | some u =>
      have hcur := hinv.curOfs_eq (by simp [hu])
      have hlt := hinv.unc_lt u hu
      rw [hu] at hpacked
      rw [hcur, hend]
      refine flush_spec hpacked (fun v hv => ?_) (Nat.le_refl _)
      cases hv
      omega
  apply hflush.bind
  intro w hex
  obtain ⟨items, hw, hs⟩ := hex
  have hedits := hs.edits
  rw [List.take_length] at hedits
  rw [hw.shows.ctrlCnt]
  rcases eq_or_ne items [] with rfl | hne
  · have hnil : (frameOf []).flags.length = 0 := rfl
    rw [if_neg fun hne => hne hnil]
    exact ⟨hw.shows.size, Nat.zero_le _, Nat.zero_le _, [], rfl, Buf.holds_nil _ _, [], [], .nil _,
      hedits⟩
  · have hpos : 0 < (frameOf items).flags.length := Frame.ofItems_flags_pos _ _ hne
    have hle : (frameOf items).flags.length ≤ 8 := Frame.ofItems_flags_le _ _ items
    have hroom := hw.room hne
    have hbound := hs.size_le hne
    have hclose := hw.shows.close (controlByte (frameOf items).flags)
    have hctrl : w.ctrlOfs < w.dst.size := by
      rw [hw.shows.ctrlOfs, hw.shows.size]
      rw [Frame.size] at hroom
      omega
    rw [if_pos hpos.ne', shiftLeft_eq_controlByte hpos hle hw.shows.ctrlData,
      Buf.write_eq _ hctrl, hw.shows.outOfs]
    obtain ⟨bits, hreads⟩ := Frame.output_reads Item.flag Item.bytes_ne_nil hne
    refine ⟨hw.shows.size, hroom, ?_, (frameOf items).output, Frame.output_length _, hclose,
      items, bits, hreads, hedits⟩
    simp only
    omega

end NdsDevkit.Ndsc
