import NdsDevkit.Compress.Detector
import NdsDevkit.Zipvfs.Runs

namespace NdsDevkit.Zipvfs

open Framework Compress

section

variable (lib : Libraries)

/-- The callbacks of a connection, with the buffers that they are called with. What `xCompress`
leaves behind after a failure is not followed. -/
def ndsMethods : Zipvfs.ZipvfsMethods ZipvfsInst where
  zHdr := fun p => p.pAlg.zName
  xCompressBound := fun p n => p.pAlg.xBound lib n
  xCompress := fun p nOut zInput =>
    match xCompr lib p (.fresh nOut) nOut (.ofList zInput) zInput.length with
    | .ok (zOut, nOut) => (true, (zOut.slice 0 nOut).getD [])
    | .error _ => (false, [])
  xUncompress := fun p aCompressed nOut =>
    match xDecmpr lib p (.fresh nOut) nOut (.ofList aCompressed) aCompressed.length with
    | .ok (p, aOut, nOut) => (aOut.slice 0 nOut).map fun page => (p, page)
    | .error _ => none

/-- The context of the callbacks for the name in the header of a file that was opened with a
URI. -/
def xGetMethods (u : Uri) (zHdr : Option (List UInt8)) : Except ErrorCode (Option ZipvfsInst) :=
  match ndsCompressionAlgorithmDetector u.block zHdr with
  | .ok m => .ok (m.map (·.pCtx))
  | .error _ => .error .SQLITE_ERROR

/-- The connections of the devkit, each opened with a URI. -/
def ndsVfs {ι ρ κ : Type} (P : Pager ρ κ) (fl : FreeList) (u : ι → Uri) :
    Vfs ι ZipvfsInst ρ κ where
  pager := P
  freelist := fl
  methods := ndsMethods lib
  xGetMethods := fun i => xGetMethods (u i)

/-- The record is a page as some connection with the algorithm and the key stores it. -/
def IsRecord (a : ZipvfsAlgorithm) (key : Option (List UInt8)) (blob page : List UInt8) : Prop :=
  ∃ p text, Opened a key p ∧ Encodes lib page text a ∧ text.length ≤ a.xBound lib page.length ∧
    blob = cipherText p.toZipvfsInst text

end

/-- A URI that asks for the algorithm, with a password that stands for the key. -/
structure AsksFor (a : ZipvfsAlgorithm) (key : Option (List UInt8)) (u : Uri) : Prop where
  zv : u.params.lookup (ascii "zv") = some a.zName
  key : u.key = key

/-- The name of an algorithm fits into the header of a file. -/
theorem cstring_formatName (a : ZipvfsAlgorithm) :
    cstring ((formatName a.zName).drop 3) = a.zName := by
  cases a <;> decide

/-- The detector finds the algorithm, for a new file and for one that has its name. -/
theorem AsksFor.finds {a : ZipvfsAlgorithm} {key : Option (List UInt8)} {u : Uri}
    (h : AsksFor a key u) : Finds (Opened a key) a.zName (xGetMethods u) := by
  intro zHdr hname
  have hspec := ndsCompressionAlgorithmDetector_spec u zHdr
  have hfound : (zHdr.map cstring <|> u.params.lookup (ascii "zv")).bind algorithmOf = some a := by
    rcases hname with rfl | rfl
    · rw [Option.map_none, h.zv]
      exact algorithmOf_zName a
    · rw [Option.map_some, cstring_formatName]
      exact algorithmOf_zName a
  rw [hfound] at hspec
  obtain ⟨m, hrun, _, hopened⟩ := hspec
  rw [h.key] at hopened
  refine ⟨m.pCtx, ?_, hopened⟩
  simp only [xGetMethods, hrun, Option.map_some]

section

variable {lib : Libraries} (hlib : lib.Lossless) {a : ZipvfsAlgorithm}

include hlib

/-- A slot has room for what an algorithm makes of a page. -/
theorem xBound_le (hzlib : a ≠ .zlib) {n : Nat} (hn : n ≤ 65536) :
    a.xBound lib n ≤ zipvfsMaxPayload := by
  have hlz4 := hlib.compressBound n (by omega)
  have hndsc : ndscBound n ≤ zipvfsMaxPayload := by
    rw [ndscBound, Ndsc.calcNDSC, zipvfsMaxPayload, Nat.mod_eq_of_lt (by omega)]
    omega
  cases a with
  | zlib => exact absurd rfl hzlib
  | lz4 =>
    rw [ZipvfsAlgorithm.xBound, zipvfsMaxPayload]
    omega
  | lz4hc =>
    rw [ZipvfsAlgorithm.xBound, zipvfsMaxPayload]
    omega
  | ndsc => exact hndsc
  | ndscMux => exact hndsc
  | bsr =>
    rw [ZipvfsAlgorithm.xBound, Page.bsrBound, zipvfsMaxPayload]
    omega

/-- The callbacks keep every page, whatever the connection has decompressed before. -/
theorem ndsMethods_lossless (hzlib : a ≠ .zlib) (key : Option (List UInt8)) {n : Nat}
    (hn : PageSize n) : (ndsMethods lib).Lossless (Opened a key) (IsRecord lib a key) n where
  compress := by
    intro p page hp hlen
    obtain ⟨hlow, hhigh⟩ := hn.bounds
    have hbound := xBound_le hlib hzlib hhigh
    have hpage : page ≠ [] := by
      apply List.ne_nil_of_length_pos
      omega
    have hrun : Ends (xCompr lib p (.fresh (p.pAlg.xBound lib page.length))
        (p.pAlg.xBound lib page.length) (.ofList page) page.length)
        (Stored lib p page (.fresh (p.pAlg.xBound lib page.length)))
        fun e => e = .failure ∧ p.pAlg = .zlib :=
      xCompr_spec hlib (by omega) (Buf.size_fresh _)
    obtain ⟨⟨zOut, nOut⟩, hok, text, henc, hnOut, hle, _, hh⟩ :=
      hrun.ok_of_not fun e he => hzlib (hp.pAlg ▸ he.2)
    have hslice : zOut.slice 0 nOut = some (cipherText p.toZipvfsInst text) := by
      have hsome := hh.slice
      rw [length_cipherText] at hsome
      rw [show nOut = text.length from hnOut]
      exact hsome
    rw [hlen] at hok hle
    have hout : ((ndsMethods lib).xCompress p ((ndsMethods lib).xCompressBound p n) page).2 =
        cipherText p.toZipvfsInst text := by
      simp only [ndsMethods, hlen, hok, hslice, Option.getD_some]
    have htext : text.length ≤ a.xBound lib n := by
      rw [← hp.pAlg]
      exact Nat.le_trans (Nat.le_of_eq hnOut.symm) hle
    rw [hp.pAlg] at henc
    rw [hout, length_cipherText]
    exact ⟨henc.length_pos hpage, htext.trans hbound, p, text, hp, henc, by rw [hlen]; exact htext,
      rfl⟩
  bound := by
    intro q blob page hq hlen hD
    obtain ⟨p, text, _, _, htext, hblob⟩ := hD
    rw [hblob, length_cipherText]
    rw [hlen, ← hq.pAlg] at htext
    exact htext
  uncompress := by
    intro q blob page hq hlen hD
    obtain ⟨p, text, hp, henc, _, hblob⟩ := hD
    obtain ⟨hlow, _⟩ := hn.bounds
    have hpage : page ≠ [] := by
      apply List.ne_nil_of_length_pos
      omega
    rw [← hq.pAlg] at henc
    obtain ⟨inst, out, hok, hcipher, _, hh⟩ :=
      xDecmpr_spec (hp.cipher.agree hq.cipher) hpage henc (Buf.size_fresh page.length) hblob
    refine ⟨{ q with toZipvfsInst := inst }, ?_, hq.same ⟨rfl, hcipher⟩⟩
    rw [hlen] at hok
    have hslice := hh.slice
    rw [hlen] at hslice
    simp only [ndsMethods, hok, hslice, Option.map_some]

/-- Connections that ask for the same algorithm and have the same key. -/
theorem ndsVfs_correct {ι ρ κ : Type} {P : Pager ρ κ} {State : ρ → Durable → Prop}
    (hP : P.Atomic State) {fl : FreeList} {Free : ZipvfsFile → Set (Nat × Nat) → Prop}
    (hfl : fl.Keeps Free) (hzlib : a ≠ .zlib) {key : Option (List UInt8)} {u : ι → Uri}
    (hu : ∀ i, AsksFor a key (u i)) :
    (ndsVfs lib P fl u).Correct (Opened a key) (IsRecord lib a key) Free a.zName State where
  pager := hP
  freelist := hfl
  lossless := fun _ hk => ndsMethods_lossless hlib hzlib key hk
  name := fun _ hp => congrArg ZipvfsAlgorithm.zName hp.pAlg
  finds := fun i => (hu i).finds

end

/-- The connection behind the decryption of a record. -/
def decrypted (p : ZipvfsInst) (blob : List UInt8) : Page.ZipvfsInst :=
  match p.decryptInput (.ofList blob) blob.length with
  | .ok r => r.1.toZipvfsInst
  | .error _ => p.toZipvfsInst

theorem xCompress_literalBlocks {p : ZipvfsInst} (halg : p.pAlg = .lz4) {nOut : Nat}
    {page : List UInt8} (hlen : (literalBlock page).length ≤ nOut) :
    (ndsMethods literalBlocks).xCompress p nOut page =
      (true, cipherText p.toZipvfsInst (literalBlock page)) := by
  have hread := (Buf.holds_ofList page).readMany (i := 0) (by simp)
  have hwrite : (Buf.fresh nOut).writeMany 0 (literalBlock page) =
      .ok ((Buf.fresh nOut).put 0 (literalBlock page)) := Buf.writeMany_eq (by simpa using hlen)
  obtain ⟨out, hout, _, hh⟩ := encryptInPlace_spec p
    (Buf.Holds.put_same (Buf.fresh nOut) 0 (literalBlock page)) (by simpa using hlen)
  have hslice := hh.slice
  rw [length_cipherText] at hslice
  simp only [ndsMethods, xCompr, halg, lz4Compress, hread, literalBlocks, literalCompress,
    if_pos hlen, storeCompressed, hwrite, hout, bind, Except.bind, pure, Except.pure, hslice,
    Option.getD_some]

theorem xUncompress_literalBlocks {p : ZipvfsInst} (halg : p.pAlg = .lz4) {blob : List UInt8}
    (hblob : blob ≠ []) (n : Nat) :
    (ndsMethods literalBlocks).xUncompress p blob n =
      (readLiterals (Page.plainText p.toZipvfsInst blob) n).map fun page =>
        ({ p with toZipvfsInst := decrypted p blob }, page) := by
  obtain ⟨inst, hin, _⟩ := decryptInput_spec p hblob
  have hinst : decrypted p blob = inst := by
    rw [decrypted, hin]
  rw [hinst]
  simp only [ndsMethods, xDecmpr, halg, lz4Uncompress, hin, literalBlocks, bind, Except.bind]
  cases hread : readLiterals (Page.plainText p.toZipvfsInst blob) n with
  | none => rfl
  | some page =>
    have hwrite : (Buf.fresh n).writeMany 0 page = .ok ((Buf.fresh n).put 0 page) :=
      Buf.writeMany_eq (by simpa using length_readLiterals hread)
    have hslice := (Buf.Holds.put_same (Buf.fresh n) 0 page).slice
    simp only [storeUncompressed, hwrite, hslice, bind, Except.bind, pure, Except.pure,
      Option.map_some]

/-- The callbacks with blocks of literals, on lists in place of buffers. -/
def literalMethods : Zipvfs.ZipvfsMethods ZipvfsInst where
  zHdr := fun p => p.pAlg.zName
  xCompressBound := fun p n => p.pAlg.xBound literalBlocks n
  xCompress := fun p nOut page =>
    if p.pAlg = .lz4 ∧ (literalBlock page).length ≤ nOut then
      (true, cipherText p.toZipvfsInst (literalBlock page))
    else (ndsMethods literalBlocks).xCompress p nOut page
  xUncompress := fun p blob n =>
    if p.pAlg = .lz4 ∧ blob ≠ [] then
      (readLiterals (Page.plainText p.toZipvfsInst blob) n).map fun page =>
        ({ p with toZipvfsInst := decrypted p blob }, page)
    else (ndsMethods literalBlocks).xUncompress p blob n

theorem ndsMethods_literalBlocks : ndsMethods literalBlocks = literalMethods := by
  have hcompress : (ndsMethods literalBlocks).xCompress = literalMethods.xCompress := by
    funext p nOut page
    by_cases h : p.pAlg = .lz4 ∧ (literalBlock page).length ≤ nOut
    · simp only [literalMethods, if_pos h]
      exact xCompress_literalBlocks h.1 h.2
    · simp only [literalMethods, if_neg h]
  have huncompress : (ndsMethods literalBlocks).xUncompress = literalMethods.xUncompress := by
    funext p blob n
    by_cases h : p.pAlg = .lz4 ∧ blob ≠ []
    · simp only [literalMethods, if_pos h]
      exact xUncompress_literalBlocks h.1 h.2 n
    · simp only [literalMethods, if_neg h]
  exact congrArg₂ (fun xCompress xUncompress => (⟨literalMethods.zHdr,
    literalMethods.xCompressBound, xCompress, xUncompress⟩ : Zipvfs.ZipvfsMethods ZipvfsInst))
    hcompress huncompress

/-- A page of 512 bytes that starts with the bytes. No four bytes occur twice in it, so that LZ4
finds no match. -/
def plainPage (bs : List UInt8) (step : Nat) : List UInt8 :=
  bs ++ (List.range' bs.length (512 - bs.length)).map fun i =>
    UInt8.ofNat (if i < 256 then i else step * i)

def lz4Calls : List (Op Bool Unit) :=
  [.lockShared true 512 100, .lockExclusive true,
    .xWrite true (plainPage ((List.range 16).map UInt8.ofNat ++ [2, 0] ++
      (List.range' 18 10).map UInt8.ofNat ++ [0, 0, 0, 2]) 3) 0,
    .xWrite true (plainPage [] 5) 512, .sync true false,
    -- the slot of the second page stays in the list
    .lockExclusive true, .xTruncate true 512, .sync true false, .unlockNone true,
    .lockShared false 512 100, .xRead false 4 0,
    .lockExclusive false, .xTruncate false 512, .pagerStress () false, .crash () false,
    .lockShared true 512 100, .xFileSize true]

end NdsDevkit.Zipvfs
