import NdsDevkit.Compress.PageCodec

namespace NdsDevkit.Compress

open Framework Page Rijndael

section

variable {lib : Libraries} {q : ZipvfsInst} {page text : List UInt8} {aDest : Buf UInt8}

theorem storeUncompressed_spec (q : ZipvfsInst) (hsize : aDest.size = page.length) :
    ∃ r, storeUncompressed q aDest (some page) = .ok (q, r, page.length) ∧
      r.size = page.length ∧ r.Holds 0 page := by
  have hwrite : aDest.writeMany 0 page = .ok (aDest.put 0 page) := Buf.writeMany_eq (by omega)
  refine ⟨aDest.put 0 page, ?_, hsize, Buf.Holds.put_same aDest 0 page⟩
  simp only [storeUncompressed, hwrite, bind, Except.bind]
  rfl

/-- What the decompression of a page leaves behind: the page, and a connection with the same
cipher. -/
def Restored (q : ZipvfsInst) (page : List UInt8)
    (x : Except Stop (ZipvfsInst × Buf UInt8 × Nat)) : Prop :=
  ∃ inst r, x = .ok ({ q with toZipvfsInst := inst }, r, page.length) ∧
    blockCipher inst = blockCipher q.toZipvfsInst ∧ r.size = page.length ∧ r.Holds 0 page

/-- The decompression behind the decryption. -/
theorem restored_decrypted {blob : List UInt8} (hblob : blob ≠ [])
    (hplain : plainText q.toZipvfsInst blob = text)
    {f : ZipvfsInst → List UInt8 → Except Stop (ZipvfsInst × Buf UInt8 × Nat)}
    (hf : ∀ p, ∃ r, f p text = .ok (p, r, page.length) ∧ r.size = page.length ∧ r.Holds 0 page) :
    Restored q page (do
      let (p, src) ← q.decryptInput (.ofList blob) blob.length
      f p src) := by
  obtain ⟨inst, hin, hcipher⟩ := decryptInput_spec q hblob
  obtain ⟨r, hr, hsize, hh⟩ := hf { q with toZipvfsInst := inst }
  refine ⟨inst, r, ?_, hcipher, hsize, hh⟩
  simp only [hin, hplain, bind, Except.bind]
  exact hr

theorem ndscUncompress_restored {blob : List UInt8} (hblob : blob ≠ [])
    (hplain : plainText q.toZipvfsInst blob = text) (hformat : Ndsc.IsNDSC text page)
    (hsize : aDest.size = page.length) :
    Restored q page (ndscUncompress q aDest page.length (.ofList blob) blob.length) := by
  apply restored_decrypted (f := fun p src => do
    let written ← Ndsc.unpackNDSC src page.length
    return (p, overwrite aDest written, page.length)) hblob hplain
  intro p
  obtain ⟨dst, hdst, _, hh⟩ := Ndsc.unpackNDSC_of_isNDSC hformat
  refine ⟨overwrite aDest dst, ?_, hsize, overwrite_holds aDest hh⟩
  simp only [hdst, bind, Except.bind]
  rfl

theorem bsrUncompress_blockCipher {p p' : Page.ZipvfsInst} {aOut aIn out : Buf UInt8}
    {pnOut nIn : Int} (h : bsrUncompress p aOut pnOut aIn nIn = .ok (p', out)) :
    blockCipher p' = blockCipher p := by
  have hkeeps : Ends (bsrUncompress p aOut pnOut aIn nIn)
      (fun r => blockCipher r.1 = blockCipher p) fun _ => True := by
    rw [bsrUncompress_eq]
    apply (Ends.self _).bind
    intro r hw
    obtain ⟨inst, text⟩ := r
    cases text with
    | none => exact True.intro
    | some text =>
      apply (Ends.self _).bind
      intro a0 _
      apply (Ends.self _).bind
      intro a1 _
      apply (Ends.self _).bind
      intro aOut _
      exact aesDecryptWrapper_blockCipher hw
  rw [h] at hkeeps
  exact hkeeps

theorem bsrUncompress_restored {blob : List UInt8} {x n : Nat} (hrun : ZeroRun page x n)
    (hx : x < 65536) (hplain : plainText q.toZipvfsInst blob = bsrBytes page x n)
    (hsize : aDest.size = page.length) :
    Restored q page (do
      let (inst, aDest) ← bsrUncompress q.toZipvfsInst aDest page.length (.ofList blob) blob.length
      return ({ q with toZipvfsInst := inst }, aDest, page.length)) := by
  have hin := hrun.inside
  have hlen : blob.length = 2 + page.length - n := by
    rw [← length_bsrBytes hin, ← hplain, length_plainText]
  have hfits : Consistent q.toZipvfsInst page.length blob := by
    refine ⟨by omega, ?_, by omega⟩
    rw [hplain, headLength_bsrBytes hx]
    omega
  obtain ⟨inst, out, hres, _, hout, hh⟩ := bsrUncompress_consistent hsize hfits
  rw [hplain, bsrPage_bsrBytes hrun hx] at hh
  have hcipher := bsrUncompress_blockCipher hres
  refine ⟨inst, out, ?_, hcipher, hout, hh⟩
  simp only [hres, bind, Except.bind]
  rfl

/-- A text that stands for a page is restored by every connection that agrees on the cipher. -/
theorem xDecmpr_spec {p : Page.ZipvfsInst}
    (hagree : Agree (blockCipher p) (blockCipher q.toZipvfsInst)) (hpage : page ≠ [])
    (henc : Encodes lib page text q.pAlg) (hsize : aDest.size = page.length) {blob : List UInt8}
    (hblob : blob = cipherText p text) :
    Restored q page (xDecmpr lib q aDest page.length (.ofList blob) blob.length) := by
  have hplain : plainText q.toZipvfsInst blob = text := by
    rw [hblob]
    exact plainText_cipherText hagree text
  have hne : blob ≠ [] := by
    have hpos := henc.length_pos hpage
    rw [← length_cipherText p text, ← hblob] at hpos
    exact List.ne_nil_of_length_pos hpos
  have hlibrary : ∀ f : List UInt8 → Nat → Option (List UInt8), f text page.length = some page →
      Restored q page (do
        let (p, src) ← q.decryptInput (.ofList blob) blob.length
        storeUncompressed p aDest (f src page.length)) := by
    intro f hf
    apply restored_decrypted (f := fun p src => storeUncompressed p aDest (f src page.length)) hne
      hplain
    intro p
    rw [hf]
    exact storeUncompressed_spec p hsize
  cases halg : q.pAlg with
  | zlib =>
    rw [halg] at henc
    simp only [xDecmpr, halg]
    exact hlibrary lib.uncompress henc.2
  | lz4 =>
    rw [halg] at henc
    simp only [xDecmpr, halg]
    exact hlibrary lib.LZ4_decompress_safe henc.2
  | lz4hc =>
    rw [halg] at henc
    simp only [xDecmpr, halg]
    exact hlibrary lib.LZ4_decompress_safe henc.2
  | ndsc =>
    rw [halg] at henc
    simp only [xDecmpr, halg]
    exact ndscUncompress_restored hne hplain henc hsize
  | ndscMux =>
    rw [halg] at henc
    simp only [xDecmpr, halg]
    exact ndscUncompress_restored hne hplain henc hsize
  | bsr =>
    rw [halg] at henc
    obtain ⟨x, n, hrun, hx, htext⟩ := henc
    have hbsr : xDecmpr lib q aDest page.length (.ofList blob) blob.length = (do
        let (inst, aDest) ←
          bsrUncompress q.toZipvfsInst aDest page.length (.ofList blob) blob.length
        return ({ q with toZipvfsInst := inst }, aDest, page.length)) := by
      simp only [xDecmpr, halg]
    rw [hbsr]
    exact bsrUncompress_restored hrun hx (by rw [hplain, htext]) hsize

end

end NdsDevkit.Compress
