import NdsDevkit.Compress.LiteralBlock
import NdsDevkit.Compress.Session
import Mathlib.Logic.Relation

namespace NdsDevkit.Compress

open Framework Page Rijndael

/-- The key that the password of a URI stands for: its first 16 bytes, with zeros behind them. -/
def Uri.key (u : Uri) : Option (List UInt8) :=
  (u.params.lookup (ascii "password")).map fun z => (z ++ List.replicate 16 0).take 16

/-- A cipher that computes the standard with the key, or none without one. -/
def HasKey : Option (List UInt8) → Option BlockCipher → Prop
  | none, none => True
  | some key, some c => ∀ b, b.length = 16 →
    c.rijndaelEncrypt b = (standardCipher key 128 (.ofBytes b)).bytes ∧
      c.rijndaelDecrypt b = (standardInverse key 128 (.ofBytes b)).bytes
  | _, _ => False

/-- Connections with the same key decrypt what each other encrypts. -/
theorem HasKey.agree {key : Option (List UInt8)} {c d : Option BlockCipher} (hc : HasKey key c)
    (hd : HasKey key d) : Agree c d := by
  cases key with
  | none =>
    cases c with
    | some c => exact hc.elim
    | none =>
      cases d with
      | some d => exact hd.elim
      | none => exact True.intro
  | some key =>
    cases c with
    | none => exact hc.elim
    | some c =>
      cases d with
      | none => exact hd.elim
      | some d =>
        intro b hb
        rw [(hc b hb).1, (hd _ (State.length_bytes _)).2, State.ofBytes_bytes,
          standardInverse_standardCipher, State.bytes_ofBytes hb]

theorem aesEncryptionSetup_spec (u : Uri) :
    ∃ inst, aesEncryptionSetup (sqlite3UriParameter u.block (ascii "password")) = .ok inst ∧
      HasKey u.key (blockCipher inst) := by
  have hparam := sqlite3UriParameter_block u (ascii "password")
  rw [Uri.key, ← hparam]
  cases sqlite3UriParameter u.block (ascii "password") with
  | none => exact ⟨⟨none⟩, rfl, True.intro⟩
  | some zPasswd =>
    have hkey := aesKey_eq (keyLength aesEncryptionKeyBits) zPasswd
    have hlen := length_aesKey (keyLength aesEncryptionKeyBits) zPasswd
    rw [hkey] at hlen
    obtain ⟨s, hs, henc, hdec⟩ := setupSchedules_spec hlen
    refine ⟨⟨some ⟨s.cipher, .fresh 0⟩⟩, ?_, fun b hb => ⟨henc b hb, hdec b hb⟩⟩
    simp only [aesEncryptionSetup, hkey, hs, bind, Except.bind]
    rfl

def algorithmOf (name : List UInt8) : Option ZipvfsAlgorithm :=
  aZipvfs.find? fun a => a.zName = name

/-- The names of the table are different. -/
theorem algorithmOf_zName (a : ZipvfsAlgorithm) : algorithmOf a.zName = some a := by
  cases a <;> decide

/-- Every name is a C string. -/
theorem cstring_zName (a : ZipvfsAlgorithm) (rest : List UInt8) :
    cstring (a.zName ++ 0 :: rest) = a.zName := by
  apply cstring_append
  cases a <;> exact ⟨by decide, by decide⟩

/-- The context of a connection with an algorithm and a key. -/
structure Opened (a : ZipvfsAlgorithm) (key : Option (List UInt8)) (p : ZipvfsInst) : Prop where
  pAlg : p.pAlg = a
  cipher : HasKey key (blockCipher p.toZipvfsInst)

/-- The algorithm is the one that the header names, or for a new database the parameter `zv`, and
the key is that of the password. -/
theorem ndsCompressionAlgorithmDetector_spec (u : Uri) (zHeader : Option (List UInt8)) :
    match (zHeader.map cstring <|> u.params.lookup (ascii "zv")).bind algorithmOf with
    | none => ndsCompressionAlgorithmDetector u.block zHeader = .ok none
    | some a => ∃ m, ndsCompressionAlgorithmDetector u.block zHeader = .ok (some m) ∧
      m.zHdr = a.zName ∧ Opened a u.key m.pCtx := by
  have hname : (zHeader <|> sqlite3UriParameter u.block (ascii "zv")).map cstring =
      (zHeader.map cstring <|> u.params.lookup (ascii "zv")) := by
    rw [← sqlite3UriParameter_block u (ascii "zv")]
    cases zHeader with
    | none => rfl
    | some z => rfl
  obtain ⟨inst, hsetup, hcipher⟩ := aesEncryptionSetup_spec u
  rw [← hname]
  simp only [ndsCompressionAlgorithmDetector]
  cases (zHeader <|> sqlite3UriParameter u.block (ascii "zv")) with
  | none => rfl
  | some z =>
    change match algorithmOf (cstring z) with
      | none => _
      | some a => _
    cases ha : algorithmOf (cstring z) with
    | none =>
      rw [algorithmOf] at ha
      simp only [ha]
      rfl
    | some a =>
      rw [algorithmOf] at ha
      simp only [ha, hsetup, bind, Except.bind]
      exact ⟨_, rfl, rfl, rfl, hcipher⟩

/-- What decryption leaves as it is. -/
def Same (p q : ZipvfsInst) : Prop :=
  q.pAlg = p.pAlg ∧ blockCipher q.toZipvfsInst = blockCipher p.toZipvfsInst

theorem Opened.same {a : ZipvfsAlgorithm} {key : Option (List UInt8)} {p q : ZipvfsInst}
    (h : Opened a key p) (hsame : Same p q) : Opened a key q :=
  ⟨hsame.1.trans h.pAlg, hsame.2 ▸ h.cipher⟩

theorem decryptInput_same (p : ZipvfsInst) (aSrc : Buf UInt8) (nSrc : Nat) :
    Ends (p.decryptInput aSrc nSrc) (fun r => Same p r.1) fun _ => True := by
  apply (Ends.self _).bind
  intro r hw
  obtain ⟨inst, text⟩ := r
  cases text with
  | none => exact True.intro
  | some text =>
    apply (Ends.self _).bind
    intro src _
    exact ⟨rfl, aesDecryptWrapper_blockCipher hw⟩

theorem storeUncompressed_same (p : ZipvfsInst) (aDest : Buf UInt8) (x : Option (List UInt8)) :
    Ends (storeUncompressed p aDest x) (fun r => Same p r.1) fun _ => True := by
  cases x with
  | none => exact True.intro
  | some bs =>
    apply (Ends.self _).bind
    intro out _
    exact ⟨rfl, rfl⟩

theorem storeDecrypted_same (p : ZipvfsInst) (aDest aSrc : Buf UInt8) (nSrc : Nat)
    (f : List UInt8 → Option (List UInt8)) :
    Ends (p.decryptInput aSrc nSrc >>= fun r => storeUncompressed r.1 aDest (f r.2))
      (fun r => Same p r.1) fun _ => True := by
  apply (decryptInput_same p aSrc nSrc).bind
  intro r hr
  apply (storeUncompressed_same r.1 aDest (f r.2)).mono
  · intro r' hr'
    exact ⟨hr'.1.trans hr.1, hr'.2.trans hr.2⟩
  · exact fun _ => id

theorem ndscUncompress_same (p : ZipvfsInst) (aDest : Buf UInt8) (pnDest : Nat) (aSrc : Buf UInt8)
    (nSrc : Nat) :
    Ends (ndscUncompress p aDest pnDest aSrc nSrc) (fun r => Same p r.1) fun _ => True := by
  apply (decryptInput_same p aSrc nSrc).bind
  intro r hr
  apply (Ends.self _).bind
  intro written _
  exact hr

/-- A decompression changes the scratch buffer of the connection only. -/
theorem xDecmpr_same (lib : Libraries) (p : ZipvfsInst) (aDest : Buf UInt8) (pnDest : Nat)
    (aSrc : Buf UInt8) (nSrc : Nat) :
    Ends (xDecmpr lib p aDest pnDest aSrc nSrc) (fun r => Same p r.1) fun _ => True := by
  cases halg : p.pAlg with
  | zlib =>
    simp only [xDecmpr, halg]
    exact storeDecrypted_same p aDest aSrc nSrc fun src => lib.uncompress src pnDest
  | lz4 =>
    simp only [xDecmpr, halg]
    exact storeDecrypted_same p aDest aSrc nSrc fun src => lib.LZ4_decompress_safe src pnDest
  | lz4hc =>
    simp only [xDecmpr, halg]
    exact storeDecrypted_same p aDest aSrc nSrc fun src => lib.LZ4_decompress_safe src pnDest
  | ndsc =>
    simp only [xDecmpr, halg]
    exact ndscUncompress_same p aDest pnDest aSrc nSrc
  | ndscMux =>
    simp only [xDecmpr, halg]
    exact ndscUncompress_same p aDest pnDest aSrc nSrc
  | bsr =>
    simp only [xDecmpr, halg]
    apply (Ends.self _).bind
    intro r hres
    obtain ⟨inst, out⟩ := r
    exact ⟨halg.symm, bsrUncompress_blockCipher hres⟩

/-- One page is decompressed, whatever it is. -/
def Decompresses (lib : Libraries) (p q : ZipvfsInst) : Prop :=
  ∃ aDest pnDest aSrc nSrc r, xDecmpr lib p aDest pnDest aSrc nSrc = .ok (q, r)

/-- The states of a connection. -/
abbrev Session (lib : Libraries) : ZipvfsInst → ZipvfsInst → Prop :=
  Relation.ReflTransGen (Decompresses lib)

theorem Session.opened {lib : Libraries} {a : ZipvfsAlgorithm} {key : Option (List UInt8)}
    {p q : ZipvfsInst} (h : Session lib p q) (hp : Opened a key p) : Opened a key q := by
  induction h with
  | refl => exact hp
  | @tail q' q _ hstep ih =>
    obtain ⟨aDest, pnDest, aSrc, nSrc, r, hrun⟩ := hstep
    have hsame := xDecmpr_same lib q' aDest pnDest aSrc nSrc
    rw [hrun] at hsame
    exact ih.same hsame

/-- A page that one connection compressed is restored by another one with the same algorithm and
the same key. -/
theorem Stored.restored {lib : Libraries} {a : ZipvfsAlgorithm} {key : Option (List UInt8)}
    {p q : ZipvfsInst} (hp : Opened a key p) (hq : Opened a key q) {page : List UInt8}
    (hpage : page ≠ []) {aDest : Buf UInt8} {r : Buf UInt8 × Nat} (h : Stored lib p page aDest r) :
    ∃ blob, r.1.Holds 0 blob ∧ blob.length = r.2 ∧ ∀ aOut : Buf UInt8, aOut.size = page.length →
      Restored q page (xDecmpr lib q aOut page.length (.ofList blob) blob.length) := by
  obtain ⟨text, henc, hlen, _, _, hh⟩ := h
  rw [hp.pAlg, ← hq.pAlg] at henc
  refine ⟨_, hh, by rw [length_cipherText, hlen], ?_⟩
  intro aOut hsize
  exact xDecmpr_spec (hp.cipher.agree hq.cipher) hpage henc hsize rfl

/-- A database is opened again by the name in its header. Whatever was decompressed in between, a
page that the first connection compresses is restored by the second one if the passwords stand for
the same key. Only zlib can fail to compress. -/
theorem xDecmpr_xCompr {lib : Libraries} (hlib : lib.Lossless) {u v : Uri} (hkey : v.key = u.key)
    {zHeader : Option (List UInt8)} {m : ZipvfsMethods}
    (hopen : ndsCompressionAlgorithmDetector u.block zHeader = .ok (some m)) (rest : List UInt8) :
    ∃ m', ndsCompressionAlgorithmDetector v.block (some (m.zHdr ++ 0 :: rest)) = .ok (some m') ∧
      ∀ p q, Session lib m.pCtx p → Session lib m'.pCtx q →
        ∀ page, page ≠ [] → page.length ≤ 65536 →
          ∀ aDest : Buf UInt8, aDest.size = p.pAlg.xBound lib page.length →
            Ends (xCompr lib p aDest aDest.size (.ofList page) page.length)
              (fun r => ∃ blob, r.1.Holds 0 blob ∧ blob.length = r.2 ∧
                ∀ aOut : Buf UInt8, aOut.size = page.length → ∃ q' out,
                  xDecmpr lib q aOut page.length (.ofList blob) blob.length =
                    .ok (q', out, page.length) ∧ out.Holds 0 page)
              fun e => e = .failure ∧ p.pAlg = .zlib := by
  obtain ⟨a, hname, hopened⟩ : ∃ a, m.zHdr = a.zName ∧ Opened a u.key m.pCtx := by
    have hspec := ndsCompressionAlgorithmDetector_spec u zHeader
    split at hspec
    · rw [hspec] at hopen
      cases hopen
    · next a _ =>
      obtain ⟨m', hrun, hm'⟩ := hspec
      rw [hrun] at hopen
      cases hopen
      exact ⟨a, hm'⟩
  have hagain := ndsCompressionAlgorithmDetector_spec v (some (m.zHdr ++ 0 :: rest))
  have hfound : ((some (m.zHdr ++ 0 :: rest)).map cstring <|>
      v.params.lookup (ascii "zv")).bind algorithmOf = some a := by
    rw [Option.map_some, hname, cstring_zName]
    exact algorithmOf_zName a
  rw [hfound] at hagain
  obtain ⟨m', hrun, _, hopened'⟩ := hagain
  rw [hkey] at hopened'
  refine ⟨m', hrun, ?_⟩
  intro p q hp hq page hpage hlen aDest hsize
  apply (xCompr_spec hlib hlen hsize).mono
  · intro r hr
    obtain ⟨blob, hh, hblob, hrestored⟩ :=
      hr.restored (hp.opened hopened) (hq.opened hopened') hpage
    refine ⟨blob, hh, hblob, ?_⟩
    intro aOut hout
    obtain ⟨inst, out, hdone, _, _, hpageOut⟩ := hrestored aOut hout
    exact ⟨_, out, hdone, hpageOut⟩
  · exact fun _ => id

/-- A URI that chooses an algorithm and has a password. -/
def lz4Uri : Uri where
  name := ascii "db"
  params := [(ascii "zv", ascii "lz4"), (ascii "password", ascii "key")]
  name_isText := ⟨by decide, by decide⟩
  params_isText := by
    intro p hp
    rcases List.mem_pair.mp hp with rfl | rfl
    · exact ⟨by decide, ⟨by decide, by decide⟩, by decide, by decide⟩
    · exact ⟨by decide, ⟨by decide, by decide⟩, by decide, by decide⟩

theorem xDecmpr_xCompr_lz4 :
    ∃ m m', ndsCompressionAlgorithmDetector lz4Uri.block none = .ok (some m) ∧
      m.pCtx.pAlg = .lz4 ∧
      ndsCompressionAlgorithmDetector lz4Uri.block (some (m.zHdr ++ [0])) = .ok (some m') ∧
      ∀ aDest : Buf UInt8, aDest.size = m.pCtx.pAlg.xBound literalBlocks 3 →
        ∃ r blob, xCompr literalBlocks m.pCtx aDest aDest.size (.ofList [5, 0, 0]) 3 = .ok r ∧
          r.1.Holds 0 blob ∧ blob.length = r.2 ∧
          ∀ aOut : Buf UInt8, aOut.size = 3 → ∃ q' out,
            xDecmpr literalBlocks m'.pCtx aOut 3 (.ofList blob) blob.length = .ok (q', out, 3) ∧
              out.Holds 0 [5, 0, 0] := by
  have hspec := ndsCompressionAlgorithmDetector_spec lz4Uri none
  rw [show ((none : Option (List UInt8)).map cstring <|>
    lz4Uri.params.lookup (ascii "zv")).bind algorithmOf = some .lz4 by decide] at hspec
  obtain ⟨m, hopen, _, hopened⟩ := hspec
  obtain ⟨m', hagain, hpages⟩ := xDecmpr_xCompr literalBlocks_lossless (v := lz4Uri) rfl hopen []
  refine ⟨m, m', hopen, hopened.pAlg, hagain, ?_⟩
  intro aDest hsize
  have hzlib : m.pCtx.pAlg ≠ .zlib := by
    rw [hopened.pAlg]
    decide
  obtain ⟨r, hrun, blob, hh, hlen, hback⟩ :=
    (hpages m.pCtx m'.pCtx .refl .refl [5, 0, 0] (by decide) (by decide) aDest hsize).ok_of_not
      fun _ he => hzlib he.2
  exact ⟨r, blob, hrun, hh, hlen, hback⟩

end NdsDevkit.Compress
