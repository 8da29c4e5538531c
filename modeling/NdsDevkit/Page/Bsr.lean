import NdsDevkit.Page.Zipvfs

namespace NdsDevkit.Page

open Framework

/-- The largest compressed size of a page of `n` bytes. -/
def bsrBound (n : Nat) : Nat := n + 2

/-- The variables of the search for the longest run of zeros, as offsets into the page. -/
structure BsrSearch where
  p : Nat
  pN : Nat
  pBestStart : Nat
  bestLen : Nat

/-- `while( p<pEnd && *p==0 ) p++`, with at most `n` characters before the end. -/
def skipZeros (aIn : Buf UInt8) : Nat → Nat → Except Stop Nat
  | 0, p => return p
  | n + 1, p => do
    if (← aIn.read p) = 0 then skipZeros aIn n (p + 1) else return p

/-- One pass of the search. Behind a run the cursor moves one more step. -/
def bsrSearchStep (aIn : Buf UInt8) (nIn : Nat) (s : BsrSearch) : Except Stop BsrSearch := do
  if (← aIn.read s.p) = 0 then
    let pS := s.p
    let p ← skipZeros aIn (nIn - (pS + 1)) (pS + 1)
    let X := p - pS
    if X > s.bestLen then return ⟨p + 1, nIn - X, pS, X⟩
    else return { s with p := p + 1 }
  else return { s with p := s.p + 1 }

def bsrSearch (aIn : Buf UInt8) (nIn : Nat) : Except Stop BsrSearch :=
  whileDo (fun s => decide (s.p < s.pN)) (bsrSearchStep aIn nIn) .outOfFuel (nIn + 1)
    ⟨0, nIn, 0, 0⟩

/-- Stores the page without its longest run of zeros; the result is `aOut` and `*pnOut`. -/
def bsrCompress (pInst : ZipvfsInst) (aOut aIn : Buf UInt8) (nIn : Nat) :
    Except Stop (Buf UInt8 × Nat) := do
  let s ← bsrSearch aIn nIn
  let X := s.pBestStart
  let aOut ← aOut.write 0 (UInt8.ofNat (X >>> 8))
  let aOut ← aOut.write 1 (UInt8.ofNat X)
  let aOut ← memcpy aOut 2 aIn 0 X
  let aOut ← memcpy aOut (2 + X) aIn (s.pBestStart + s.bestLen) (nIn - X - s.bestLen)
  let pnOut := 2 + nIn - s.bestLen
  if pInst.pCrypto.isSome then do
    let aOut ← aesEncryption pInst aOut none pnOut
    return (aOut, pnOut)
  else return (aOut, pnOut)

/-- `if( X>0 ) memcpy(aOut, &aIn[2], X)`. -/
def copyHead (aOut aIn : Buf UInt8) (X : Nat) : Except Stop (Buf UInt8) :=
  if X > 0 then memcpy aOut 0 aIn 2 X else return aOut

/-- Restores a page; `pnOut` holds its size. Without decrypted text the exit `failure` stands for
SQLITE_NOMEM. -/
def bsrUncompress (p : ZipvfsInst) (aOut : Buf UInt8) (pnOut : Int) (aIn : Buf UInt8)
    (nIn : Int) : Except Stop (ZipvfsInst × Buf UInt8) := do
  let (p, aIn) ← aesDecryptWrapper p aIn nIn
  match aIn with
  | none => throw .failure
  | some aIn => do
    let a0 ← aIn.read 0
    let a1 ← aIn.read 1
    let X := a0.toNat <<< 8 + a1.toNat
    let nIn := nIn - 2
    let nTail := nIn - X
    let szPage := pnOut
    let aOut ← copyHead aOut aIn X
    let aOut ← memset aOut X 0 (szPage - nIn)
    let aOut ← memcpy aOut (szPage - nTail) aIn (2 + X) nTail
    return (p, aOut)

end NdsDevkit.Page
