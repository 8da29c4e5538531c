import NdsDevkit.Compress.Algorithm
import NdsDevkit.Ndsc.PackCorrect
import NdsDevkit.Ndsc.Acceptance
import NdsDevkit.Page.BsrCorrect

namespace NdsDevkit.Compress

open Framework Page

/-- The cipher of a connection. -/
def blockCipher (p : Page.ZipvfsInst) : Option BlockCipher := p.pCrypto.map (·.cipher)

/-- What one connection encrypts the other decrypts. -/
def Agree : Option BlockCipher → Option BlockCipher → Prop
  | none, none => True
  | some c, some d => ∀ b, b.length = 16 → d.rijndaelDecrypt (c.rijndaelEncrypt b) = b
  | _, _ => False

/-- A text as a connection stores it. -/
def cipherText (p : Page.ZipvfsInst) (text : List UInt8) : List UInt8 :=
  match p.pCrypto with
  | none => text
  | some d => applyCipher d.cipher.rijndaelEncrypt text

theorem length_cipherText (p : Page.ZipvfsInst) (text : List UInt8) :
    (cipherText p text).length = text.length := by
  rw [cipherText]
  split
  · rfl
  · exact length_applyCipher (BlockCipher.length_encrypt _) text

theorem plainText_cipherText {p q : Page.ZipvfsInst} (h : Agree (blockCipher p) (blockCipher q))
    (text : List UInt8) : plainText q (cipherText p text) = text := by
  obtain ⟨_ | c⟩ := p
  · obtain ⟨_ | d⟩ := q
    · rfl
    · exact h.elim
  · obtain ⟨_ | d⟩ := q
    · exact h.elim
    · exact applyCipher_cancel c.cipher.length_encrypt h text

theorem encryptInPlace_spec (p : ZipvfsInst) {aDest : Buf UInt8} {text : List UInt8}
    (h : aDest.Holds 0 text) (hs : text.length ≤ aDest.size) :
    ∃ out, p.encryptInPlace aDest text.length = .ok out ∧ out.size = aDest.size ∧
      out.Holds 0 (cipherText p.toZipvfsInst text) := by
  obtain ⟨⟨_ | d⟩, a, l⟩ := p
  · exact ⟨aDest, rfl, rfl, h⟩
  · obtain ⟨out, hout, hsize, hh⟩ := aesEncryptDecrypt_spec d .encryption aDest none h hs hs
    exact ⟨out, hout, hsize, hh⟩

/-- Decryption leaves the cipher of the connection as it is. -/
theorem aesDecryptWrapper_blockCipher {p p' : Page.ZipvfsInst} {aIn : Buf UInt8} {nIn : Int}
    {out : Option (Buf UInt8)} (h : aesDecryptWrapper p aIn nIn = .ok (p', out)) :
    blockCipher p' = blockCipher p := by
  obtain ⟨_ | d⟩ := p
  · cases h
    rfl
  · simp only [aesDecryptWrapper, bind, Except.bind] at h
    split at h
    · cases h
    · cases h
      rfl

theorem decryptInput_spec (p : ZipvfsInst) {blob : List UInt8} (hne : blob ≠ []) :
    ∃ inst, p.decryptInput (.ofList blob) blob.length =
        .ok ({ p with toZipvfsInst := inst }, plainText p.toZipvfsInst blob) ∧
      blockCipher inst = blockCipher p.toZipvfsInst := by
  obtain ⟨inst, out, hw, _, hnone, htext⟩ := aesDecryptWrapper_plainText p.toZipvfsInst blob
  have hcipher := aesDecryptWrapper_blockCipher hw
  cases out with
  | none => exact absurd (hnone.mp rfl).1 hne
  | some text =>
    obtain ⟨hholds, hsize⟩ := htext text rfl
    have hread := hholds.readMany (i := 0) (by rw [length_plainText]; omega)
    rw [length_plainText] at hread
    refine ⟨inst, ?_, hcipher⟩
    simp only [ZipvfsInst.decryptInput, hw, hread, bind, Except.bind]
    rfl

/-- What a buffer that was overwritten holds. -/
theorem overwrite_holds (b : Buf UInt8) {written : Buf UInt8} {xs : List UInt8}
    (h : written.Holds 0 xs) : (overwrite b written).Holds 0 xs := by
  intro k hk
  have hc := h k hk
  rw [List.getElem?_eq_getElem hk] at hc ⊢
  simp only [overwrite, hc]
  rfl

/-- The libraries do what they document: a compressed text is not empty, stays within its target
and is restored, and a target of the computed size is large enough for LZ4. -/
structure Libraries.Lossless (lib : Libraries) : Prop where
  compress2 : ∀ src n level out, lib.compress2 src n level = some out →
    0 < out.length ∧ out.length ≤ n ∧ lib.uncompress out src.length = some src
  compress : ∀ src n out, lib.LZ4_compress_limitedOutput src n = some out →
    0 < out.length ∧ out.length ≤ n ∧ lib.LZ4_decompress_safe out src.length = some src
  compressHC : ∀ src n out, lib.LZ4_compressHC_limitedOutput src n = some out →
    0 < out.length ∧ out.length ≤ n ∧ lib.LZ4_decompress_safe out src.length = some src
  bound : ∀ src n, src.length ≤ 0x7E000000 → lib.LZ4_compressBound src.length ≤ n →
    (lib.LZ4_compress_limitedOutput src n).isSome ∧ (lib.LZ4_compressHC_limitedOutput src n).isSome
  compressBound : ∀ n, n ≤ 0x7E000000 → lib.LZ4_compressBound n ≤ n + n / 255 + 16

/-- The text stands for the page in the format of the algorithm. -/
def Encodes (lib : Libraries) (page text : List UInt8) : ZipvfsAlgorithm → Prop
  | .zlib => 0 < text.length ∧ lib.uncompress text page.length = some page
  | .lz4 | .lz4hc => 0 < text.length ∧ lib.LZ4_decompress_safe text page.length = some page
  | .ndsc | .ndscMux => Ndsc.IsNDSC text page
  | .bsr => ∃ x n, ZeroRun page x n ∧ x < 65536 ∧ text = bsrBytes page x n

/-- An empty stream has no items. -/
theorem isNDSC_nil {out : List UInt8} (h : Ndsc.IsNDSC [] out) : out = [] := by
  obtain ⟨items, bits, hreads, hout⟩ := h
  cases hreads
  cases hout
  rfl

theorem Encodes.length_pos {lib : Libraries} {page text : List UInt8} {a : ZipvfsAlgorithm}
    (h : Encodes lib page text a) (hpage : page ≠ []) : 0 < text.length := by
  have hndsc : Ndsc.IsNDSC text page → 0 < text.length := by
    intro hn
    apply List.length_pos_of_ne_nil
    intro hnil
    subst hnil
    exact hpage (isNDSC_nil hn)
  cases a with
  | zlib => exact h.1
  | lz4 => exact h.1
  | lz4hc => exact h.1
  | ndsc => exact hndsc h
  | ndscMux => exact hndsc h
  | bsr =>
    obtain ⟨x, n, hrun, _, rfl⟩ := h
    have hin := hrun.inside
    rw [length_bsrBytes hin]
    omega

section

variable {lib : Libraries} {p : ZipvfsInst} {page : List UInt8} {aDest : Buf UInt8}

/-- What the compression of a page leaves behind: the text, encrypted, at the start of the
target. -/
def Stored (lib : Libraries) (p : ZipvfsInst) (page : List UInt8) (aDest : Buf UInt8)
    (r : Buf UInt8 × Nat) : Prop :=
  ∃ text, Encodes lib page text p.pAlg ∧ r.2 = text.length ∧ r.2 ≤ aDest.size ∧
    r.1.size = aDest.size ∧ r.1.Holds 0 (cipherText p.toZipvfsInst text)

theorem storeCompressed_spec {bs : List UInt8} (hlen : bs.length ≤ aDest.size)
    (henc : Encodes lib page bs p.pAlg) :
    ∃ r, storeCompressed p aDest (some bs) = .ok r ∧ Stored lib p page aDest r := by
  have hwrite : aDest.writeMany 0 bs = .ok (aDest.put 0 bs) := Buf.writeMany_eq (by omega)
  obtain ⟨out, hout, hsize, hh⟩ := encryptInPlace_spec p
    (Buf.Holds.put_same aDest 0 bs) (by rw [Buf.size_put]; omega)
  refine ⟨(out, bs.length), ?_, bs, henc, rfl, hlen, hsize, hh⟩
  simp only [storeCompressed, hwrite, hout, bind, Except.bind]
  rfl

/-- The encoder of the page, and then the encryption. -/
theorem bsrCompress_encrypt (p : ZipvfsInst) (aOut aIn : Buf UInt8) (nIn : Nat) :
    bsrCompress p.toZipvfsInst aOut aIn nIn = (do
      let r ← bsrCompress ⟨none⟩ aOut aIn nIn
      let aOut ← p.encryptInPlace r.1 r.2
      return (aOut, r.2)) := by
  obtain ⟨⟨_ | d⟩, a, l⟩ := p
  · simp [bsrCompress, ZipvfsInst.encryptInPlace]
  · simp [bsrCompress, ZipvfsInst.encryptInPlace]

theorem xCompr_bsr (halg : p.pAlg = .bsr) (hpage : page.length ≤ 65536)
    (hsize : aDest.size = p.pAlg.xBound lib page.length) :
    ∃ r, xCompr lib p aDest aDest.size (.ofList page) page.length = .ok r ∧
      Stored lib p page aDest r := by
  rw [halg] at hsize
  obtain ⟨out, x, n, hc, hrun, h0, hsz, hh⟩ := bsrCompress_spec page (p := ⟨none⟩) rfl hsize
  have hin := hrun.inside
  have hlen := length_bsrBytes hin
  have hx : x < 65536 := by
    rcases Nat.eq_zero_or_pos n with hz | hpos
    · have hx0 := h0 hz
      omega
    · omega
  have hbound : aDest.size = page.length + 2 := hsize
  obtain ⟨out', ho, hs, hh'⟩ := encryptInPlace_spec p hh (by omega)
  refine ⟨(out', 2 + page.length - n), ?_, bsrBytes page x n, ?_, hlen.symm, ?_, ?_, hh'⟩
  · rw [hlen] at ho
    simp only [xCompr, halg, bsrCompress_encrypt, hc, ho, bind, Except.bind]
    rfl
  · rw [halg]
    exact ⟨x, n, hrun, hx, rfl⟩
  · simp only
    omega
  · rw [← hsz]
    exact hs

theorem ndscLevel_range (iLevel : Int) : 0 ≤ ndscLevel iLevel ∧ ndscLevel iLevel ≤ 8 := by
  rw [ndscLevel]
  split <;> omega

theorem xCompr_ndsc (halg : p.pAlg = .ndsc ∨ p.pAlg = .ndscMux) (hpage : page.length ≤ 65536)
    (hsize : aDest.size = p.pAlg.xBound lib page.length) :
    ∃ r, xCompr lib p aDest aDest.size (.ofList page) page.length = .ok r ∧
      Stored lib p page aDest r := by
  have hread := (Buf.holds_ofList page).readMany (i := 0) (by simp)
  obtain ⟨h0, h8⟩ := ndscLevel_range p.iLevel
  have hbound : aDest.size = 9 * page.length / 8 + 1 := by
    have hcalc : aDest.size = Ndsc.calcNDSC page.length := by
      rcases halg with ha | ha <;> rw [ha] at hsize <;> exact hsize
    rw [hcalc, Ndsc.calcNDSC, Nat.mul_comm, Nat.mod_eq_of_lt (by omega)]
  obtain ⟨⟨n, written⟩, hok, hsz, hn, _, bytes, hlen, hh, hformat⟩ :=
    (Ndsc.packNDSC_spec page aDest.size h0 h8).ok_of_not fun e he => by
      have hsmall := he.2
      omega
  simp only at hsz hn hlen hh
  subst hlen
  obtain ⟨out, ho, hs, hh'⟩ := encryptInPlace_spec p (overwrite_holds aDest hh) hn
  have hrun : ndscCompress p aDest aDest.size (.ofList page) page.length =
      .ok (out, bytes.length) := by
    simp only [ndscCompress, hread, hok, ho, bind, Except.bind]
    rfl
  refine ⟨(out, bytes.length), ?_, bytes, ?_, rfl, hn, hs, hh'⟩
  · rcases halg with ha | ha <;> simp only [xCompr, ha] <;> exact hrun
  · rcases halg with ha | ha <;> rw [ha] <;> exact hformat

/-- A target of the bound is large enough, except that zlib may still fail. -/
theorem xCompr_spec (hlib : lib.Lossless) (hpage : page.length ≤ 65536)
    (hsize : aDest.size = p.pAlg.xBound lib page.length) :
    Ends (xCompr lib p aDest aDest.size (.ofList page) page.length) (Stored lib p page aDest)
      fun e => e = .failure ∧ p.pAlg = .zlib := by
  have hread := (Buf.holds_ofList page).readMany (i := 0) (by simp)
  cases halg : p.pAlg with
  | zlib =>
    simp only [xCompr, halg, zlibCompress, hread, bind, Except.bind]
    cases hc : lib.compress2 page aDest.size (zlibLevel p.iLevel) with
    | none => exact ⟨rfl, True.intro⟩
    | some bs =>
      obtain ⟨hpos, hle, hback⟩ := hlib.compress2 _ _ _ _ hc
      have henc : Encodes lib page bs p.pAlg := by
        rw [halg]
        exact ⟨hpos, hback⟩
      obtain ⟨r, hr, hstored⟩ := storeCompressed_spec hle henc
      rw [hr]
      exact hstored
  | lz4 =>
    rw [halg] at hsize
    obtain ⟨bs, hc⟩ := Option.isSome_iff_exists.mp
      (hlib.bound page aDest.size (by omega) (Nat.le_of_eq hsize.symm)).1
    obtain ⟨hpos, hle, hback⟩ := hlib.compress _ _ _ hc
    have henc : Encodes lib page bs p.pAlg := by
      rw [halg]
      exact ⟨hpos, hback⟩
    obtain ⟨r, hr, hstored⟩ := storeCompressed_spec hle henc
    simp only [xCompr, halg, lz4Compress, hread, hc, hr, bind, Except.bind]
    exact hstored
  | lz4hc =>
    rw [halg] at hsize
    obtain ⟨bs, hc⟩ := Option.isSome_iff_exists.mp
      (hlib.bound page aDest.size (by omega) (Nat.le_of_eq hsize.symm)).2
    obtain ⟨hpos, hle, hback⟩ := hlib.compressHC _ _ _ hc
    have henc : Encodes lib page bs p.pAlg := by
      rw [halg]
      exact ⟨hpos, hback⟩
    obtain ⟨r, hr, hstored⟩ := storeCompressed_spec hle henc
    simp only [xCompr, halg, lz4CompressHc, hread, hc, hr, bind, Except.bind]
    exact hstored
  | ndsc =>
    obtain ⟨r, hr, hstored⟩ := xCompr_ndsc (.inl halg) hpage hsize
    rw [hr]
    exact hstored
  | ndscMux =>
    obtain ⟨r, hr, hstored⟩ := xCompr_ndsc (.inr halg) hpage hsize
    rw [hr]
    exact hstored
  | bsr =>
    obtain ⟨r, hr, hstored⟩ := xCompr_bsr halg hpage hsize
    rw [hr]
    exact hstored

end

end NdsDevkit.Compress
