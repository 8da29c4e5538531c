import NdsDevkit.Page.Zipvfs

namespace NdsDevkit.Page

open Framework

/-- The first `n` blocks of a text, each sent through `f`. -/
def wholeBlocks (f : List UInt8 → List UInt8) : Nat → List UInt8 → List UInt8
  | 0, _ => []
  | n + 1, bs => f (bs.take 16) ++ wholeBlocks f n (bs.drop 16)

/-- The number of blocks the cipher is applied to in a text of `n` bytes. -/
def cipherBlocks (n : Nat) : Nat := min (n / 16) 4

/-- The text with the cipher applied to these blocks and the other bytes as they are. -/
def applyCipher (f : List UInt8 → List UInt8) (bs : List UInt8) : List UInt8 :=
  wholeBlocks f (cipherBlocks bs.length) bs ++ bs.drop (cipherBlocks bs.length * 16)

theorem cipherBlocks_le (n : Nat) : cipherBlocks n * 16 ≤ n := by
  rw [cipherBlocks]
  omega

section

variable {f : List UInt8 → List UInt8}

theorem length_wholeBlocks (hf : ∀ b, (f b).length = b.length) {n : Nat} {bs : List UInt8}
    (h : n * 16 ≤ bs.length) : (wholeBlocks f n bs).length = n * 16 := by
  induction n generalizing bs with
  | zero => simp [wholeBlocks]
  | succ n ih =>
    have hrest : n * 16 ≤ (bs.drop 16).length := by
      rw [List.length_drop]
      omega
    rw [wholeBlocks, List.length_append, ih hrest, hf, List.length_take]
    omega

theorem length_applyCipher (hf : ∀ b, (f b).length = b.length) (bs : List UInt8) :
    (applyCipher f bs).length = bs.length := by
  have hle := cipherBlocks_le bs.length
  rw [applyCipher, List.length_append, length_wholeBlocks hf hle, List.length_drop]
  omega

/-- Behind the blocks nothing changes. -/
theorem applyCipher_drop (hf : ∀ b, (f b).length = b.length) (bs : List UInt8) :
    (applyCipher f bs).drop (cipherBlocks bs.length * 16) =
      bs.drop (cipherBlocks bs.length * 16) := by
  rw [applyCipher]
  exact List.drop_left' (length_wholeBlocks hf (cipherBlocks_le _))

theorem wholeBlocks_cancel {g : List UInt8 → List UInt8} (hf : ∀ b, (f b).length = b.length)
    (hg : ∀ b, b.length = 16 → g (f b) = b) {n : Nat} {bs rest : List UInt8}
    (h : n * 16 ≤ bs.length) :
    wholeBlocks g n (wholeBlocks f n bs ++ rest) = bs.take (n * 16) := by
  induction n generalizing bs with
  | zero => simp [wholeBlocks]
  | succ n ih =>
    have hblock : (bs.take 16).length = 16 := by
      rw [List.length_take]
      omega
    have hrest : n * 16 ≤ (bs.drop 16).length := by
      rw [List.length_drop]
      omega
    have hlen : (f (bs.take 16)).length = 16 := by rw [hf, hblock]
    rw [wholeBlocks, wholeBlocks, List.append_assoc, List.take_left' hlen, List.drop_left' hlen,
      ih hrest, hg _ hblock, ← List.take_add]
    congr 1
    omega

/-- An inverse of the block cipher undoes it on every text. -/
theorem applyCipher_cancel {g : List UInt8 → List UInt8} (hf : ∀ b, (f b).length = b.length)
    (hg : ∀ b, b.length = 16 → g (f b) = b) (bs : List UInt8) :
    applyCipher g (applyCipher f bs) = bs := by
  have hle := cipherBlocks_le bs.length
  have hdrop := applyCipher_drop hf bs
  rw [applyCipher, length_applyCipher hf, hdrop]
  rw [applyCipher, wholeBlocks_cancel hf hg hle, List.take_append_drop]

/-- The block loop, from block `i` on: `done` is what it has written so far, and `bs` what is left
to read, be it in another buffer or in the same one. -/
theorem aesBlocks_spec (hf : ∀ b, (f b).length = b.length) (zIn : Option (Buf UInt8)) {n i : Nat}
    {zOut : Buf UInt8} {done bs : List UInt8} (hdone : zOut.Holds 0 done)
    (hlen : done.length = i * 16) (hbs : (zIn.getD zOut).Holds (i * 16) bs)
    (hn : n * 16 ≤ bs.length) (hin : i * 16 + n * 16 ≤ (zIn.getD zOut).size)
    (hout : i * 16 + n * 16 ≤ zOut.size) :
    ∃ out, aesBlocks f zIn n i zOut = .ok out ∧ out.size = zOut.size ∧
      out.Holds 0 (done ++ wholeBlocks f n bs) ∧
      (zIn.getD out).Holds ((i + n) * 16) (bs.drop (n * 16)) := by
  induction n generalizing i zOut done bs with
  | zero => exact ⟨zOut, rfl, rfl, by simpa [wholeBlocks] using hdone, by simpa using hbs⟩
  | succ n ih =>
    have hblock : (bs.take 16).length = 16 := by
      rw [List.length_take]
      omega
    have hread : (zIn.getD zOut).readMany (i * 16) 16 = .ok (bs.take 16) := by
      have hsub := hbs.sub 0 16
      rw [Nat.add_zero, List.drop_zero] at hsub
      have hr := hsub.readMany (by omega)
      rwa [hblock] at hr
    have hfits : i * 16 + (f (bs.take 16)).length ≤ zOut.size := by
      rw [hf, hblock]
      omega
    have hwrite := Buf.writeMany_eq hfits
    generalize hb1 : zOut.put (i * 16) (f (bs.take 16)) = b1 at hwrite
    have hsize : b1.size = zOut.size := by rw [← hb1, Buf.size_put]
    have hdone1 : b1.Holds 0 (done ++ f (bs.take 16)) := by
      rw [← hb1]
      exact hdone.put_at _ (by omega)
    -- in place, the write does not reach the blocks still to read
    have hbs1 : (zIn.getD b1).Holds ((i + 1) * 16) (bs.drop 16) := by
      have hrest := hbs.sub 16 (bs.length - 16)
      rw [List.take_of_length_le (by simp), ← Nat.succ_mul] at hrest
      cases zIn with
      | none =>
        rw [Option.getD_none] at hrest ⊢
        rw [← hb1]
        exact hrest.put_apart (.inr (by rw [hf, hblock, Nat.succ_mul]))
      | some zIn => exact hrest
    have hin1 : (i + 1) * 16 + n * 16 ≤ (zIn.getD b1).size := by
      cases zIn with
      | none =>
        rw [Option.getD_none] at hin ⊢
        omega
      | some zIn =>
        rw [Option.getD_some] at hin ⊢
        omega
    obtain ⟨out, ho, hso, hho, hto⟩ := ih (i := i + 1) hdone1
      (by rw [List.length_append, hf, hblock]; omega) hbs1
      (by rw [List.length_drop]; omega) hin1 (by omega)
    refine ⟨out, ?_, hso.trans hsize, ?_, ?_⟩
    · simp only [aesBlocks, aerEncryptionBlockSize, hread, hwrite, bind, Except.bind]
      exact ho
    · rw [List.append_assoc] at hho
      exact hho
    · rw [List.drop_drop] at hto
      rw [show i + (n + 1) = i + 1 + n by omega, show (n + 1) * 16 = 16 + n * 16 by omega]
      exact hto

theorem numBlocks_eq (n : Nat) :
    (if (n : Int) ≥ aerEncryptionNumBlocks * aerEncryptionBlockSize then aerEncryptionNumBlocks
      else ((n : Int).tdiv aerEncryptionBlockSize).toNat) = cipherBlocks n := by
  have hdiv : ((n : Int).tdiv 16).toNat = n / 16 := by
    rw [Int.tdiv_eq_ediv_of_nonneg (Int.natCast_nonneg n)]
    omega
  simp only [aerEncryptionNumBlocks, aerEncryptionBlockSize, Nat.cast_ofNat, hdiv, cipherBlocks]
  split <;> omega

end

theorem BlockCipher.length_method (c : BlockCipher) (m : AesMethod) (b : List UInt8) :
    (c.method m b).length = b.length := by
  cases m with
  | encryption => exact c.length_encrypt b
  | decryption => exact c.length_decrypt b

/-- In place or from one buffer to another, the output is the input with the cipher applied. -/
theorem aesEncryptDecrypt_spec (d : AesEncryptionData) (m : AesMethod) (zOut : Buf UInt8)
    (zIn : Option (Buf UInt8)) {bs : List UInt8} (hbs : (zIn.getD zOut).Holds 0 bs)
    (hin : bs.length ≤ (zIn.getD zOut).size) (hout : bs.length ≤ zOut.size) :
    ∃ out, aesEncryptDecrypt (some d) zOut zIn bs.length m = .ok out ∧ out.size = zOut.size ∧
      out.Holds 0 (applyCipher (d.cipher.method m) bs) := by
  have hlen := d.cipher.length_method m
  have hle := cipherBlocks_le bs.length
  obtain ⟨b1, h1, hs1, hh1, ht1⟩ := aesBlocks_spec hlen zIn (i := 0) (Buf.holds_nil zOut 0) rfl
    (by simpa using hbs) hle (by omega) (by omega)
  rw [List.nil_append] at hh1
  simp only [aesEncryptDecrypt, numBlocks_eq, h1, bind, Except.bind]
  cases zIn with
  | none =>
    refine ⟨b1, rfl, hs1, ?_⟩
    rw [Option.getD_none, Nat.zero_add] at ht1
    rw [applyCipher, Buf.holds_append, length_wholeBlocks hlen hle, Nat.zero_add]
    exact ⟨hh1, ht1⟩
  | some zIn =>
    rw [Option.getD_some] at hbs hin
    have hcpy := memcpy_eq b1 (d := cipherBlocks bs.length * 16) (s := cipherBlocks bs.length * 16)
      (n := bs.length - cipherBlocks bs.length * 16)
      (i := cipherBlocks bs.length * aerEncryptionBlockSize)
      (m := bs.length - cipherBlocks bs.length * aerEncryptionBlockSize) hbs hin (by omega)
      (by omega) rfl (by simp only [aerEncryptionBlockSize]; omega)
    rw [List.take_of_length_le (by simp)] at hcpy
    exact ⟨_, hcpy, hs1, hh1.put_at _ (by rw [length_wholeBlocks hlen hle, Nat.zero_add])⟩

/-- The scratch buffer grows to the longest text so far. What it held before does not matter. -/
theorem aesDecryptWrapper_spec (d : AesEncryptionData) {aIn : Buf UInt8} {bs : List UInt8}
    (hbs : aIn.Holds 0 bs) (hin : bs.length ≤ aIn.size) :
    ∃ temp, aesDecryptWrapper ⟨some d⟩ aIn bs.length =
        .ok (⟨some { d with pTempBuffer := temp }⟩, if temp.size = 0 then none else some temp) ∧
      temp.size = max d.pTempBuffer.size bs.length ∧
      temp.Holds 0 (applyCipher d.cipher.rijndaelDecrypt bs) := by
  -- the reallocated buffer
  obtain ⟨b, hb, hsize⟩ : ∃ b, (if (d.pTempBuffer.size : Int) < bs.length
      then ⟨(bs.length : Int).toNat, d.pTempBuffer.cells⟩ else d.pTempBuffer) = b ∧
      b.size = max d.pTempBuffer.size bs.length := by
    refine ⟨_, rfl, ?_⟩
    split
    · simp only [Int.toNat_natCast]
      omega
    · omega
  obtain ⟨temp, ht, hst, hh⟩ := aesEncryptDecrypt_spec d .decryption b (some aIn) hbs hin (by omega)
  refine ⟨temp, ?_, hst.trans hsize, hh⟩
  simp only [aesDecryptWrapper, aesDecryption, hb, ht, bind, Except.bind]
  rfl

/-- A connection with a password: the keys are set up, the scratch buffer is not allocated. -/
def aesEncryptionSetup (c : BlockCipher) : ZipvfsInst := ⟨some ⟨c, .fresh 0⟩⟩

/-- The states of such a connection after it has decrypted any buffers. -/
inductive Decrypted (c : BlockCipher) : ZipvfsInst → Prop
  | setup : Decrypted c (aesEncryptionSetup c)
  | wrapper {p p' : ZipvfsInst} {aIn : Buf UInt8} {nIn : Int} {out : Option (Buf UInt8)} :
    Decrypted c p → aesDecryptWrapper p aIn nIn = .ok (p', out) → Decrypted c p'

theorem Decrypted.inst_eq {c : BlockCipher} {p : ZipvfsInst} (h : Decrypted c p) :
    ∃ temp, p = ⟨some ⟨c, temp⟩⟩ := by
  induction h with
  | setup => exact ⟨_, rfl⟩
  | wrapper _ hres ih =>
    obtain ⟨temp, rfl⟩ := ih
    simp only [aesDecryptWrapper, bind, Except.bind] at hres
    split at hres
    · cases hres
    · cases hres
      exact ⟨_, rfl⟩

/-- What a pointer leads to: a buffer of a caller, or the scratch buffer of the connection. -/
inductive Ptr where
  | buffer (k : Nat)
  | pTempBuffer
  deriving DecidableEq

/-- A connection with the memory that its callers see. -/
structure Memory where
  buffers : Nat → Buf UInt8
  inst : ZipvfsInst

namespace Memory

def get (m : Memory) : Ptr → Buf UInt8
  | .buffer k => m.buffers k
  | .pTempBuffer =>
    match m.inst.pCrypto with
    | none => .fresh 0
    | some d => d.pTempBuffer

def set (m : Memory) (b : Buf UInt8) : Ptr → Memory
  | .buffer k => { m with buffers := Function.update m.buffers k b }
  | .pTempBuffer => { m with inst := ⟨m.inst.pCrypto.map ({ · with pTempBuffer := b })⟩ }

/-- The call through its pointers, which may be equal. -/
def aesEncryption (m : Memory) (zOut zIn : Ptr) (nIn : Int) : Except Stop Memory := do
  let out ← Page.aesEncryption m.inst (m.get zOut) (if zIn = zOut then none else some (m.get zIn))
    nIn
  return m.set out zOut

def aesDecryption (m : Memory) (zOut zIn : Ptr) (nIn : Int) : Except Stop Memory := do
  let out ← Page.aesDecryption m.inst (m.get zOut) (if zIn = zOut then none else some (m.get zIn))
    nIn
  return m.set out zOut

def aesDecryptWrapper (m : Memory) (aIn : Ptr) (nIn : Int) :
    Except Stop (Memory × Option Ptr) :=
  match m.inst.pCrypto with
  | none => return (m, some aIn)
  | some pEncryptData => do
    let temp := pEncryptData.pTempBuffer
    let m := if temp.size < nIn then m.set ⟨nIn.toNat, temp.cells⟩ .pTempBuffer else m
    let m ← m.aesDecryption .pTempBuffer aIn nIn
    return (m, if (m.get .pTempBuffer).size = 0 then none else some .pTempBuffer)

/-- On a caller's buffer the wrapper is the one that works on contents, and no buffer of a caller
changes. -/
theorem aesDecryptWrapper_eq (m : Memory) (d : AesEncryptionData) (hd : m.inst = ⟨some d⟩) (k : Nat)
    (nIn : Int) : m.aesDecryptWrapper (.buffer k) nIn =
      (Page.aesDecryptWrapper m.inst (m.buffers k) nIn).map fun r =>
        (⟨m.buffers, r.1⟩, r.2.map fun _ => .pTempBuffer) := by
  obtain ⟨buffers, inst⟩ := m
  subst hd
  -- the connection with the scratch buffer reallocated, if it was too small
  have hgrow : (if (d.pTempBuffer.size : Int) < nIn
      then set ⟨buffers, ⟨some d⟩⟩ ⟨nIn.toNat, d.pTempBuffer.cells⟩ .pTempBuffer
      else ⟨buffers, ⟨some d⟩⟩) =
      ⟨buffers, ⟨some { d with pTempBuffer := if (d.pTempBuffer.size : Int) < nIn
        then ⟨nIn.toNat, d.pTempBuffer.cells⟩ else d.pTempBuffer }⟩⟩ := by
    split <;> rfl
  simp only [aesDecryptWrapper, Page.aesDecryptWrapper, aesDecryption, Page.aesDecryption, hgrow,
    get, reduceCtorEq, if_false]
  generalize (if (d.pTempBuffer.size : Int) < nIn
    then (⟨nIn.toNat, d.pTempBuffer.cells⟩ : Buf UInt8) else d.pTempBuffer) = b
  have hcipher : aesEncryptDecrypt (some { d with pTempBuffer := b }) b (some (buffers k)) nIn
      .decryption = aesEncryptDecrypt (some d) b (some (buffers k)) nIn .decryption := rfl
  rw [hcipher]
  cases aesEncryptDecrypt (some d) b (some (buffers k)) nIn .decryption with
  | error e => rfl
  | ok temp =>
    change Except.ok (_, if temp.size = 0 then none else some Ptr.pTempBuffer) =
      Except.ok (_, Option.map _ (if temp.size = 0 then none else some temp))
    split <;> rfl

end Memory

/-- Encryption in place keeps all bytes behind the first four blocks, and the wrapper gets the
text back, whatever the connection has decrypted by then. It changes no buffer of a caller. -/
theorem aesDecryptWrapper_aesEncryption (c : BlockCipher)
    (hinv : ∀ b, b.length = 16 → c.rijndaelDecrypt (c.rijndaelEncrypt b) = b)
    (m : Memory) (hm : Decrypted c m.inst) (k : Nat) (text : List UInt8) (hn : 1 ≤ text.length)
    (htext : m.buffers k = .ofList text) :
    ∃ m' stored, m.aesEncryption (.buffer k) (.buffer k) text.length = .ok m' ∧
      m'.inst = m.inst ∧ (∀ j, j ≠ k → m'.buffers j = m.buffers j) ∧
      (m'.buffers k).size = text.length ∧ (m'.buffers k).slice 0 text.length = some stored ∧
      stored = applyCipher c.rijndaelEncrypt text ∧
      stored.drop (min (text.length / 16) 4 * 16) = text.drop (min (text.length / 16) 4 * 16) ∧
      ∀ w : Memory, Decrypted c w.inst → w.buffers k = m'.buffers k →
        ∃ w' out, w.aesDecryptWrapper (.buffer k) text.length = .ok (w', some out) ∧
          (w'.get out).slice 0 text.length = some text ∧ w'.buffers = w.buffers := by
  obtain ⟨temp, hinst⟩ := hm.inst_eq
  have hlen := length_applyCipher c.length_encrypt text
  obtain ⟨out, ho, hso, hho⟩ := aesEncryptDecrypt_spec ⟨c, temp⟩ .encryption (.ofList text)
    none (Buf.holds_ofList text) (Nat.le_refl _) (Nat.le_refl _)
  have hstored : out.Holds 0 (applyCipher c.rijndaelEncrypt text) := hho
  refine ⟨m.set out (.buffer k), applyCipher c.rijndaelEncrypt text, ?_, rfl, ?_, ?_, ?_, rfl,
    applyCipher_drop c.length_encrypt text, ?_⟩
  · simp only [Memory.aesEncryption, Page.aesEncryption, Memory.get, hinst, htext, if_true, ho,
      bind, Except.bind]
    rfl
  · intro j hj
    exact Function.update_of_ne hj _ _
  · simpa [Memory.set] using hso
  · rw [← hlen]
    simpa [Memory.set] using hstored.slice
  · intro w hw hk
    obtain ⟨temp', hw'⟩ := hw.inst_eq
    have hwk : w.buffers k = out := by simpa [Memory.set] using hk
    have hsize : (applyCipher c.rijndaelEncrypt text).length ≤ out.size := by
      rw [hlen, hso]
      exact Nat.le_refl _
    obtain ⟨scratch, hs, hss, hhs⟩ := aesDecryptWrapper_spec ⟨c, temp'⟩ hstored hsize
    rw [hlen] at hs hss
    have hne : scratch.size ≠ 0 := by omega
    rw [if_neg hne] at hs
    refine ⟨⟨w.buffers, ⟨some ⟨c, scratch⟩⟩⟩, .pTempBuffer, ?_, ?_, rfl⟩
    · rw [Memory.aesDecryptWrapper_eq w _ hw', hwk, hw', hs]
      rfl
    · have hback : scratch.Holds 0 text := by
        have hcancel := applyCipher_cancel c.length_encrypt hinv text
        simp only [hcancel] at hhs
        exact hhs
      exact hback.slice

/-- The cipher on the one block that matters below, under the password with the bytes
2B 7E 15 16 28 AE D2 A6 AB F7 15 88 09 CF 4F 3C; all blocks but `x` and `y` stand for themselves. -/
def swapBlocks (x y b : List UInt8) : List UInt8 :=
  if b = x then y else if b = y then x else b

theorem length_swapBlocks {x y : List UInt8} (h : x.length = y.length) (b : List UInt8) :
    (swapBlocks x y b).length = b.length := by
  rw [swapBlocks]
  split
  · next hx => rw [hx, h]
  · split
    · next hy => rw [hy, h]
    · rfl

theorem swapBlocks_swapBlocks (x y b : List UInt8) : swapBlocks x y (swapBlocks x y b) = b := by
  unfold swapBlocks
  grind

def plainBlock : List UInt8 :=
  [0x32, 0x43, 0xF6, 0xA8, 0x88, 0x5A, 0x30, 0x8D, 0x31, 0x31, 0x98, 0xA2, 0xE0, 0x37, 0x07, 0x34]

def storedBlock : List UInt8 :=
  [0x39, 0x25, 0x84, 0x1D, 0x02, 0xDC, 0x09, 0xFB, 0xDC, 0x11, 0x85, 0x97, 0x19, 0x6A, 0x0B, 0x32]

def oneBlockCipher : BlockCipher where
  rijndaelEncrypt := swapBlocks plainBlock storedBlock
  rijndaelDecrypt := swapBlocks plainBlock storedBlock
  length_encrypt := length_swapBlocks rfl
  length_decrypt := length_swapBlocks rfl

theorem aesDecryptWrapper_aesEncryption_block :
    ∃ m' stored, Memory.aesEncryption ⟨fun _ => .ofList (plainBlock ++ [1, 2]),
          aesEncryptionSetup oneBlockCipher⟩ (.buffer 0) (.buffer 0) 18 = .ok m' ∧
      m'.inst = aesEncryptionSetup oneBlockCipher ∧
      (∀ j, j ≠ 0 → m'.buffers j = .ofList (plainBlock ++ [1, 2])) ∧
      (m'.buffers 0).size = 18 ∧ (m'.buffers 0).slice 0 18 = some stored ∧
      stored = applyCipher (swapBlocks plainBlock storedBlock) (plainBlock ++ [1, 2]) ∧
      stored.drop 16 = [1, 2] ∧
      ∀ w : Memory, Decrypted oneBlockCipher w.inst → w.buffers 0 = m'.buffers 0 →
        ∃ w' out, w.aesDecryptWrapper (.buffer 0) 18 = .ok (w', some out) ∧
          (w'.get out).slice 0 18 = some (plainBlock ++ [1, 2]) ∧ w'.buffers = w.buffers :=
  aesDecryptWrapper_aesEncryption oneBlockCipher
    (fun b _ => swapBlocks_swapBlocks plainBlock storedBlock b)
    ⟨fun _ => .ofList (plainBlock ++ [1, 2]), aesEncryptionSetup oneBlockCipher⟩ .setup 0
    (plainBlock ++ [1, 2]) (by decide) rfl

end NdsDevkit.Page
