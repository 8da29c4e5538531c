import NdsDevkit.Framework.Buffer

namespace NdsDevkit.Page

open Framework

/-- A block cipher with its keys set up: what `rijndaelEncrypt` and `rijndaelDecrypt` make of
a 16-byte block. -/
structure BlockCipher where
  rijndaelEncrypt : List UInt8 → List UInt8
  rijndaelDecrypt : List UInt8 → List UInt8
  length_encrypt : ∀ b, (rijndaelEncrypt b).length = b.length
  length_decrypt : ∀ b, (rijndaelDecrypt b).length = b.length

inductive AesMethod where
  | encryption
  | decryption

/-- The encryption data of a connection. The scratch buffer is empty before its first use. -/
structure AesEncryptionData where
  cipher : BlockCipher
  pTempBuffer : Buf UInt8

/-- The state the page codecs share; no `pCrypto` without a password. -/
structure ZipvfsInst where
  pCrypto : Option AesEncryptionData

def aerEncryptionNumBlocks : Nat := 4
def aerEncryptionBlockSize : Nat := 16

/-- memcpy with the int offsets and lengths of the callers. -/
def memcpy (dst : Buf UInt8) (d : Int) (src : Buf UInt8) (s : Nat) (n : Int) :
    Except Stop (Buf UInt8) :=
  if n < 0 then throw .negativeLength
  else if d < 0 then throw .outOfBounds
  else do
    let bs ← src.readMany s n.toNat
    dst.writeMany d.toNat bs

def memset (dst : Buf UInt8) (d : Int) (b : UInt8) (n : Int) : Except Stop (Buf UInt8) :=
  if n < 0 then throw .negativeLength
  else if d < 0 then throw .outOfBounds
  else dst.writeMany d.toNat (List.replicate n.toNat b)

def BlockCipher.method (c : BlockCipher) : AesMethod → List UInt8 → List UInt8
  | .encryption => c.rijndaelEncrypt
  | .decryption => c.rijndaelDecrypt

/-- The loop over whole blocks, from block `i` on. `zIn` is `none` when it is `zOut`. -/
def aesBlocks (f : List UInt8 → List UInt8) (zIn : Option (Buf UInt8)) :
    Nat → Nat → Buf UInt8 → Except Stop (Buf UInt8)
  | 0, _, zOut => return zOut
  | n + 1, i, zOut => do
    let block ← (zIn.getD zOut).readMany (i * aerEncryptionBlockSize) aerEncryptionBlockSize
    let zOut ← zOut.writeMany (i * aerEncryptionBlockSize) (f block)
    aesBlocks f zIn n (i + 1) zOut

def aesEncryptDecrypt (pCrypto : Option AesEncryptionData) (zOut : Buf UInt8)
    (zIn : Option (Buf UInt8)) (nIn : Int) (eAesMethod : AesMethod) :
    Except Stop (Buf UInt8) :=
  match pCrypto with
  | none => return zOut
  | some pEncryptData => do
    let nMaxEncryptionSize : Int := aerEncryptionNumBlocks * aerEncryptionBlockSize
    let nNumBlocks : Nat := if nIn ≥ nMaxEncryptionSize then aerEncryptionNumBlocks
      else (nIn.tdiv aerEncryptionBlockSize).toNat
    let zOut ← aesBlocks (pEncryptData.cipher.method eAesMethod) zIn nNumBlocks 0 zOut
    match zIn with
    | none => return zOut
    | some zIn =>
      memcpy zOut (nNumBlocks * aerEncryptionBlockSize) zIn (nNumBlocks * aerEncryptionBlockSize)
        (nIn - nNumBlocks * aerEncryptionBlockSize)

def aesEncryption (p : ZipvfsInst) (zOut : Buf UInt8) (zIn : Option (Buf UInt8)) (nIn : Int) :
    Except Stop (Buf UInt8) :=
  aesEncryptDecrypt p.pCrypto zOut zIn nIn .encryption

def aesDecryption (p : ZipvfsInst) (zOut : Buf UInt8) (zIn : Option (Buf UInt8)) (nIn : Int) :
    Except Stop (Buf UInt8) :=
  aesEncryptDecrypt p.pCrypto zOut zIn nIn .decryption

/-- Decrypts into the scratch buffer, which grows when it is too small, so that the input is
not altered. The allocation succeeds. The result is the pointer to the decrypted text: NULL, here
`none`, for a scratch buffer that was never allocated. -/
def aesDecryptWrapper (p : ZipvfsInst) (aIn : Buf UInt8) (nIn : Int) :
    Except Stop (ZipvfsInst × Option (Buf UInt8)) :=
  match p.pCrypto with
  | none => return (p, some aIn)
  | some pEncryptData => do
    let temp := pEncryptData.pTempBuffer
    let temp := if temp.size < nIn then ⟨nIn.toNat, temp.cells⟩ else temp
    let temp ← aesDecryption p temp (some aIn) nIn
    return ({ pCrypto := some { pEncryptData with pTempBuffer := temp } },
      if temp.size = 0 then none else some temp)

theorem memcpy_eq (dst : Buf UInt8) {src : Buf UInt8} {xs : List UInt8} {d s n : Nat} {i m : Int}
    (h : src.Holds 0 xs) (hsize : xs.length ≤ src.size) (hs : s + n ≤ xs.length)
    (hd : d + n ≤ dst.size) (hi : i = d) (hm : m = n) :
    memcpy dst i src s m = .ok (dst.put d ((xs.drop s).take n)) := by
  have hlen : ((xs.drop s).take n).length = n := by
    rw [List.length_take, List.length_drop]
    omega
  subst hi hm
  rw [memcpy]
  rw [if_neg (by omega), if_neg (by omega), Int.toNat_natCast, Int.toNat_natCast,
    h.readMany_sub hs hsize]
  exact Buf.writeMany_eq (by omega)

theorem memset_eq (dst : Buf UInt8) {d n : Nat} {i m : Int} {b : UInt8} (hd : d + n ≤ dst.size)
    (hi : i = d) (hm : m = n) : memset dst i b m = .ok (dst.put d (List.replicate n b)) := by
  subst hi hm
  rw [memset]
  rw [if_neg (by omega), if_neg (by omega), Int.toNat_natCast, Int.toNat_natCast]
  exact Buf.writeMany_eq (by simpa using hd)

end NdsDevkit.Page
