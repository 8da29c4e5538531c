import NdsDevkit.Framework.Buffer
import NdsDevkit.Rijndael.Tables

namespace NdsDevkit.Rijndael

open Framework

/-- `KEYLENGTH(keybits)`, `RKLENGTH(keybits)` and `NROUNDS(keybits)`. -/
def keyLength (keybits : Nat) : Nat := keybits / 8
def rkLength (keybits : Nat) : Nat := keybits / 8 + 28
def nRounds (keybits : Nat) : Nat := keybits / 32 + 6

/-- `GETU32(p + i)`. A word is an unsigned long, of 32 bits or more. -/
def getU32 (p : Buf UInt8) (i : Nat) : Except Stop Nat := do
  let b0 ← p.read i
  let b1 ← p.read (i + 1)
  let b2 ← p.read (i + 2)
  let b3 ← p.read (i + 3)
  return b0.toNat <<< 24 ^^^ b1.toNat <<< 16 ^^^ b2.toNat <<< 8 ^^^ b3.toNat

/-- `PUTU32(p + i, st)`. -/
def putU32 (p : Buf UInt8) (i st : Nat) : Except Stop (Buf UInt8) := do
  let p ← p.write i (UInt8.ofNat (st >>> 24))
  let p ← p.write (i + 1) (UInt8.ofNat (st >>> 16))
  let p ← p.write (i + 2) (UInt8.ofNat (st >>> 8))
  p.write (i + 3) (UInt8.ofNat st)

/-- `table[i]`. -/
def lookup (table : List Nat) (i : Nat) : Except Stop Nat := (Buf.ofList table).read i

/-- `(Te4[i0] & 0xff000000) ^ (Te4[i1] & 0x00ff0000) ^ (Te4[i2] & 0x0000ff00) ^
(Te4[i3] & 0x000000ff)`, with `Te4` or `Td4` for `table`. -/
def substituteBytes (table : List Nat) (i0 i1 i2 i3 : Nat) : Except Stop Nat := do
  let w0 ← lookup table i0
  let w1 ← lookup table i1
  let w2 ← lookup table i2
  let w3 ← lookup table i3
  return w0 &&& 0xff000000 ^^^ w1 &&& 0x00ff0000 ^^^ w2 &&& 0x0000ff00 ^^^ w3 &&& 0x000000ff

/-- `rk[i] = rk[i - nk] ^ rk[i - 1]`. -/
def chainWord (nk : Nat) (rk : Buf Nat) (i : Nat) : Except Stop (Buf Nat) := do
  let w ← rk.read (i - nk)
  let v ← rk.read (i - 1)
  rk.write i (w ^^^ v)

/-- The first four words of a pass, with `rk` advanced to word `o`. -/
def expandHead (nk : Nat) (rk : Buf Nat) (o i : Nat) : Except Stop (Buf Nat) := do
  let temp ← rk.read (o + nk - 1)
  let w ← rk.read o
  let s ← substituteBytes te4 (temp >>> 16 &&& 0xff) (temp >>> 8 &&& 0xff) (temp &&& 0xff)
    (temp >>> 24)
  let c ← lookup rcon i
  let rk ← rk.write (o + nk) (w ^^^ s ^^^ c)
  let rk ← chainWord nk rk (o + nk + 1)
  let rk ← chainWord nk rk (o + nk + 2)
  chainWord nk rk (o + nk + 3)

def expandTail128 (rk : Buf Nat) (_ : Nat) : Except Stop (Buf Nat) := return rk

def expandTail192 (rk : Buf Nat) (o : Nat) : Except Stop (Buf Nat) := do
  let rk ← chainWord 6 rk (o + 10)
  chainWord 6 rk (o + 11)

def expandTail256 (rk : Buf Nat) (o : Nat) : Except Stop (Buf Nat) := do
  let temp ← rk.read (o + 11)
  let w ← rk.read (o + 4)
  let s ← substituteBytes te4 (temp >>> 24) (temp >>> 16 &&& 0xff) (temp >>> 8 &&& 0xff)
    (temp &&& 0xff)
  let rk ← rk.write (o + 12) (w ^^^ s)
  let rk ← chainWord 8 rk (o + 13)
  let rk ← chainWord 8 rk (o + 14)
  chainWord 8 rk (o + 15)

/-- The loop over the passes: `if (++i == last) return` stands between the head and the tail. -/
def expandLoop (nk last : Nat) (tail : Buf Nat → Nat → Except Stop (Buf Nat)) :
    Nat → Buf Nat → Nat → Nat → Except Stop (Buf Nat)
  | 0, _, _, _ => throw .outOfFuel
  | fuel + 1, rk, o, i => do
    let rk ← expandHead nk rk o i
    if i + 1 = last then return rk
    else do
      let rk ← tail rk o
      expandLoop nk last tail fuel rk (o + nk) (i + 1)

/-- `rk[i] = GETU32(key + 4 * i)`. -/
def keyWord (key : Buf UInt8) (rk : Buf Nat) (i : Nat) : Except Stop (Buf Nat) := do
  let w ← getU32 key (4 * i)
  rk.write i w

/-- Expands the cipher key. The results are the schedule and the number of rounds. -/
def rijndaelSetupEncrypt (rk : Buf Nat) (key : Buf UInt8) (keybits : Nat) :
    Except Stop (Buf Nat × Nat) := do
  let rk ← keyWord key rk 0
  let rk ← keyWord key rk 1
  let rk ← keyWord key rk 2
  let rk ← keyWord key rk 3
  if keybits = 128 then do
    let rk ← expandLoop 4 10 expandTail128 10 rk 0 0
    return (rk, 10)
  else do
    let rk ← keyWord key rk 4
    let rk ← keyWord key rk 5
    if keybits = 192 then do
      let rk ← expandLoop 6 8 expandTail192 8 rk 0 0
      return (rk, 12)
    else do
      let rk ← keyWord key rk 6
      let rk ← keyWord key rk 7
      if keybits = 256 then do
        let rk ← expandLoop 8 7 expandTail256 7 rk 0 0
        return (rk, 14)
      else return (rk, 0)

/-- `temp = rk[i]; rk[i] = rk[j]; rk[j] = temp`. -/
def swapWords (rk : Buf Nat) (i j : Nat) : Except Stop (Buf Nat) := do
  let temp ← rk.read i
  let w ← rk.read j
  let rk ← rk.write i w
  rk.write j temp

/-- Inverts the order of the round keys between words `i` and `j`. -/
def reverseKeys : Nat → Buf Nat → Nat → Nat → Except Stop (Buf Nat)
  | 0, _, _, _ => throw .outOfFuel
  | fuel + 1, rk, i, j =>
    if i < j then do
      let rk ← swapWords rk i j
      let rk ← swapWords rk (i + 1) (j + 1)
      let rk ← swapWords rk (i + 2) (j + 2)
      let rk ← swapWords rk (i + 3) (j + 3)
      reverseKeys fuel rk (i + 4) (j - 4)
    else return rk

/-- `T0[i0] ^ T1[i1] ^ T2[i2] ^ T3[i3]`. -/
def mixBytes (t0 t1 t2 t3 : List Nat) (i0 i1 i2 i3 : Nat) : Except Stop Nat := do
  let w0 ← lookup t0 i0
  let w1 ← lookup t1 i1
  let w2 ← lookup t2 i2
  let w3 ← lookup t3 i3
  return w0 ^^^ w1 ^^^ w2 ^^^ w3

/-- Replaces `rk[i]` by its inverse MixColumn transform. -/
def unmixWord (rk : Buf Nat) (i : Nat) : Except Stop (Buf Nat) := do
  let w ← rk.read i
  let i0 ← lookup te4 (w >>> 24)
  let i1 ← lookup te4 (w >>> 16 &&& 0xff)
  let i2 ← lookup te4 (w >>> 8 &&& 0xff)
  let i3 ← lookup te4 (w &&& 0xff)
  let v ← mixBytes td0 td1 td2 td3 (i0 &&& 0xff) (i1 &&& 0xff) (i2 &&& 0xff) (i3 &&& 0xff)
  rk.write i v

/-- The round keys from number `i` on, `n` of them; word 0 of the first is at `o`. -/
def unmixKeys : Nat → Buf Nat → Nat → Except Stop (Buf Nat)
  | 0, rk, _ => return rk
  | n + 1, rk, o => do
    let o := o + 4
    let rk ← unmixWord rk o
    let rk ← unmixWord rk (o + 1)
    let rk ← unmixWord rk (o + 2)
    let rk ← unmixWord rk (o + 3)
    unmixKeys n rk o

/-- Expands the cipher key for decryption. -/
def rijndaelSetupDecrypt (rk : Buf Nat) (key : Buf UInt8) (keybits : Nat) :
    Except Stop (Buf Nat × Nat) := do
  let (rk, nrounds) ← rijndaelSetupEncrypt rk key keybits
  let rk ← reverseKeys (nrounds + 1) rk 0 (4 * nrounds)
  let rk ← unmixKeys (nrounds - 1) rk 0
  return (rk, nrounds)

/-- The variables `s0` to `s3`, or `t0` to `t3`. -/
structure Words where
  w0 : Nat
  w1 : Nat
  w2 : Nat
  w3 : Nat

/-- `T0[w0 >> 24] ^ T1[(w1 >> 16) & 0xff] ^ T2[(w2 >> 8) & 0xff] ^ T3[w3 & 0xff] ^ rk[k]`. -/
def roundWord (t0 t1 t2 t3 : List Nat) (rk : Buf Nat) (k w0 w1 w2 w3 : Nat) :
    Except Stop Nat := do
  let m ← mixBytes t0 t1 t2 t3 (w0 >>> 24) (w1 >>> 16 &&& 0xff) (w2 >>> 8 &&& 0xff) (w3 &&& 0xff)
  let r ← rk.read k
  return m ^^^ r

/-- A word of the last round, where one table stands for all four. -/
def lastWord (table : List Nat) (rk : Buf Nat) (k w0 w1 w2 w3 : Nat) : Except Stop Nat := do
  let m ← substituteBytes table (w0 >>> 24) (w1 >>> 16 &&& 0xff) (w2 >>> 8 &&& 0xff) (w3 &&& 0xff)
  let r ← rk.read k
  return m ^^^ r

/-- The last round; `u` has the words that each word of the block takes its bytes from. -/
def lastRound (table : List Nat) (rk : Buf Nat) (k : Nat) (out : Buf UInt8) (j : Nat)
    (u0 u1 u2 u3 : Words) : Except Stop (Buf UInt8) := do
  let s0 ← lastWord table rk k u0.w0 u0.w1 u0.w2 u0.w3
  let out ← putU32 out j s0
  let s1 ← lastWord table rk (k + 1) u1.w0 u1.w1 u1.w2 u1.w3
  let out ← putU32 out (j + 4) s1
  let s2 ← lastWord table rk (k + 2) u2.w0 u2.w1 u2.w2 u2.w3
  let out ← putU32 out (j + 8) s2
  let s3 ← lastWord table rk (k + 3) u3.w0 u3.w1 u3.w2 u3.w3
  putU32 out (j + 12) s3

/-- The state with the first round key added. -/
def firstWords (rk : Buf Nat) (p : Buf UInt8) (i : Nat) : Except Stop Words := do
  let s0 ← getU32 p i
  let r0 ← rk.read 0
  let s1 ← getU32 p (i + 4)
  let r1 ← rk.read 1
  let s2 ← getU32 p (i + 8)
  let r2 ← rk.read 2
  let s3 ← getU32 p (i + 12)
  let r3 ← rk.read 3
  return ⟨s0 ^^^ r0, s1 ^^^ r1, s2 ^^^ r2, s3 ^^^ r3⟩

/-- The rounds 1 to `nrounds - 1`, unrolled as in the source; `round k` takes the round key from
word `k` on. -/
def fullRounds (round : Nat → Words → Except Stop Words) (nrounds : Nat) (s : Words) :
    Except Stop Words := do
  let t ← round 4 s
  let s ← round 8 t
  let t ← round 12 s
  let s ← round 16 t
  let t ← round 20 s
  let s ← round 24 t
  let t ← round 28 s
  let s ← round 32 t
  let t ← round 36 s
  if nrounds > 10 then do
    let s ← round 40 t
    let t ← round 44 s
    if nrounds > 12 then do
      let s ← round 48 t
      round 52 s
    else return t
  else return t

/-- An encryption round with the round key from word `k` on. -/
def encryptRound (rk : Buf Nat) (k : Nat) (s : Words) : Except Stop Words := do
  let t0 ← roundWord te0 te1 te2 te3 rk k s.w0 s.w1 s.w2 s.w3
  let t1 ← roundWord te0 te1 te2 te3 rk (k + 1) s.w1 s.w2 s.w3 s.w0
  let t2 ← roundWord te0 te1 te2 te3 rk (k + 2) s.w2 s.w3 s.w0 s.w1
  let t3 ← roundWord te0 te1 te2 te3 rk (k + 3) s.w3 s.w0 s.w1 s.w2
  return ⟨t0, t1, t2, t3⟩

/-- Encrypts the block at `plaintext + i` into `ciphertext + j`. All of the block is read before
the first byte is written. -/
def rijndaelEncrypt (rk : Buf Nat) (nrounds : Nat) (plaintext : Buf UInt8) (i : Nat)
    (ciphertext : Buf UInt8) (j : Nat) : Except Stop (Buf UInt8) := do
  let s ← firstWords rk plaintext i
  let t ← fullRounds (encryptRound rk) nrounds s
  lastRound te4 rk (nrounds <<< 2) ciphertext j ⟨t.w0, t.w1, t.w2, t.w3⟩ ⟨t.w1, t.w2, t.w3, t.w0⟩
    ⟨t.w2, t.w3, t.w0, t.w1⟩ ⟨t.w3, t.w0, t.w1, t.w2⟩

/-- A decryption round with the round key from word `k` on. -/
def decryptRound (rk : Buf Nat) (k : Nat) (s : Words) : Except Stop Words := do
  let t0 ← roundWord td0 td1 td2 td3 rk k s.w0 s.w3 s.w2 s.w1
  let t1 ← roundWord td0 td1 td2 td3 rk (k + 1) s.w1 s.w0 s.w3 s.w2
  let t2 ← roundWord td0 td1 td2 td3 rk (k + 2) s.w2 s.w1 s.w0 s.w3
  let t3 ← roundWord td0 td1 td2 td3 rk (k + 3) s.w3 s.w2 s.w1 s.w0
  return ⟨t0, t1, t2, t3⟩

/-- Decrypts the block at `ciphertext + i` into `plaintext + j`. -/
def rijndaelDecrypt (rk : Buf Nat) (nrounds : Nat) (ciphertext : Buf UInt8) (i : Nat)
    (plaintext : Buf UInt8) (j : Nat) : Except Stop (Buf UInt8) := do
  let s ← firstWords rk ciphertext i
  let t ← fullRounds (decryptRound rk) nrounds s
  lastRound td4 rk (nrounds <<< 2) plaintext j ⟨t.w0, t.w3, t.w2, t.w1⟩ ⟨t.w1, t.w0, t.w3, t.w2⟩
    ⟨t.w2, t.w1, t.w0, t.w3⟩ ⟨t.w3, t.w2, t.w1, t.w0⟩

end NdsDevkit.Rijndael
