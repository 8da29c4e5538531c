import NdsDevkit.Compress.Password
import NdsDevkit.Ndsc.Pack
import NdsDevkit.Ndsc.Unpack
import NdsDevkit.Page.Bsr

namespace NdsDevkit.Compress

open Framework Page

/-- The entries of the table of algorithms. -/
inductive ZipvfsAlgorithm where
  | zlib
  | lz4
  | lz4hc
  | ndsc
  | ndscMux
  | bsr
  deriving DecidableEq

def ZipvfsAlgorithm.zName : ZipvfsAlgorithm → List UInt8
  | .zlib => ascii "zlib"
  | .lz4 => ascii "lz4"
  | .lz4hc => ascii "lz4hc"
  | .ndsc => ascii "ndsc"
  | .ndscMux => ascii "ndsc-mux"
  | .bsr => ascii "bsr"

def aZipvfs : List ZipvfsAlgorithm := [.zlib, .lz4, .lz4hc, .ndsc, .ndscMux, .bsr]

/-- The context of an open connection. -/
structure ZipvfsInst extends Page.ZipvfsInst where
  pAlg : ZipvfsAlgorithm
  iLevel : Int

/-- The functions of the external libraries. A failing call has no result. -/
structure Libraries where
  compress2 : List UInt8 → Nat → Int → Option (List UInt8)
  uncompress : List UInt8 → Nat → Option (List UInt8)
  LZ4_compressBound : Nat → Nat
  LZ4_compress_limitedOutput : List UInt8 → Nat → Option (List UInt8)
  LZ4_compressHC_limitedOutput : List UInt8 → Nat → Option (List UInt8)
  LZ4_decompress_safe : List UInt8 → Nat → Option (List UInt8)

/-- `if( p->pCrypto ) p->pAlg->xEncrypt(p, aDest, aDest, n)`. All algorithms have the same
`xEncrypt`. -/
def ZipvfsInst.encryptInPlace (p : ZipvfsInst) (aDest : Buf UInt8) (n : Nat) :
    Except Stop (Buf UInt8) :=
  if p.pCrypto.isSome then aesEncryption p.toZipvfsInst aDest none n else return aDest

/-- The decrypted input. Without it the exit `failure` stands for SQLITE_NOMEM. -/
def ZipvfsInst.decryptInput (p : ZipvfsInst) (aSrc : Buf UInt8) (nSrc : Nat) :
    Except Stop (ZipvfsInst × List UInt8) := do
  let (inst, aSrc) ← aesDecryptWrapper p.toZipvfsInst aSrc nSrc
  match aSrc with
  | none => throw .failure
  | some aSrc => do
    let src ← aSrc.readMany 0 nSrc
    return ({ p with toZipvfsInst := inst }, src)

/-- The buffer `b` after a function has written the cells that `written` has. -/
def overwrite (b written : Buf UInt8) : Buf UInt8 :=
  { b with cells := fun i => written.cells i <|> b.cells i }

def zlibBound (nByte : Nat) : Nat := nByte + nByte >>> 12 + nByte >>> 14 + 11

/-- Z_DEFAULT_COMPRESSION for a level out of range. -/
def zlibLevel (iLevel : Int) : Int := if iLevel < 0 ∨ iLevel > 9 then -1 else iLevel

/-- Stores what a library made of the page, encrypted if there is a password. The result is
`aDest` and `*pnDest`. -/
def storeCompressed (p : ZipvfsInst) (aDest : Buf UInt8) :
    Option (List UInt8) → Except Stop (Buf UInt8 × Nat)
  | none => throw .failure
  | some bs => do
    let aDest ← aDest.writeMany 0 bs
    let aDest ← p.encryptInPlace aDest bs.length
    return (aDest, bs.length)

/-- Stores what a library made of the decrypted input. The result is also `*pnDest`. -/
def storeUncompressed (p : ZipvfsInst) (aDest : Buf UInt8) :
    Option (List UInt8) → Except Stop (ZipvfsInst × Buf UInt8 × Nat)
  | none => throw .failure
  | some bs => do
    let aDest ← aDest.writeMany 0 bs
    return (p, aDest, bs.length)

section

variable (lib : Libraries) (p : ZipvfsInst) (aDest : Buf UInt8) (pnDest : Nat) (aSrc : Buf UInt8)
  (nSrc : Nat)

def zlibCompress : Except Stop (Buf UInt8 × Nat) := do
  let src ← aSrc.readMany 0 nSrc
  storeCompressed p aDest (lib.compress2 src pnDest (zlibLevel p.iLevel))

def zlibUncompress : Except Stop (ZipvfsInst × Buf UInt8 × Nat) := do
  let (p, src) ← p.decryptInput aSrc nSrc
  storeUncompressed p aDest (lib.uncompress src pnDest)

def lz4Compress : Except Stop (Buf UInt8 × Nat) := do
  let src ← aSrc.readMany 0 nSrc
  storeCompressed p aDest (lib.LZ4_compress_limitedOutput src pnDest)

def lz4CompressHc : Except Stop (Buf UInt8 × Nat) := do
  let src ← aSrc.readMany 0 nSrc
  storeCompressed p aDest (lib.LZ4_compressHC_limitedOutput src pnDest)

def lz4Uncompress : Except Stop (ZipvfsInst × Buf UInt8 × Nat) := do
  let (p, src) ← p.decryptInput aSrc nSrc
  storeUncompressed p aDest (lib.LZ4_decompress_safe src pnDest)

def ndscBound (n : Nat) : Nat := Ndsc.calcNDSC n

/-- NDSC_DEFAULT_COMPRESSION_LEVEL for a level out of range. -/
def ndscLevel (iLevel : Int) : Int := if iLevel < 0 ∨ iLevel > 8 then 4 else iLevel

/-- After a failure the contents of the target are not followed. -/
def ndscCompress : Except Stop (Buf UInt8 × Nat) := do
  let src ← aSrc.readMany 0 nSrc
  let (outLen, written) ← Ndsc.packNDSC src pnDest (ndscLevel p.iLevel)
  let aDest ← p.encryptInPlace (overwrite aDest written) outLen
  return (aDest, outLen)

/-- The output length stays as it is. -/
def ndscUncompress : Except Stop (ZipvfsInst × Buf UInt8 × Nat) := do
  let (p, src) ← p.decryptInput aSrc nSrc
  let written ← Ndsc.unpackNDSC src pnDest
  return (p, overwrite aDest written, pnDest)

/-- `xBound` of the algorithm. -/
def ZipvfsAlgorithm.xBound (a : ZipvfsAlgorithm) (n : Nat) : Nat :=
  match a with
  | .zlib => zlibBound n
  | .lz4 | .lz4hc => lib.LZ4_compressBound n
  | .ndsc | .ndscMux => ndscBound n
  | .bsr => bsrBound n

/-- `xCompr` of the algorithm of the connection. -/
def xCompr : Except Stop (Buf UInt8 × Nat) :=
  match p.pAlg with
  | .zlib => zlibCompress lib p aDest pnDest aSrc nSrc
  | .lz4 => lz4Compress lib p aDest pnDest aSrc nSrc
  | .lz4hc => lz4CompressHc lib p aDest pnDest aSrc nSrc
  | .ndsc | .ndscMux => ndscCompress p aDest pnDest aSrc nSrc
  | .bsr => bsrCompress p.toZipvfsInst aDest aSrc nSrc

/-- `xDecmpr` of the algorithm of the connection. -/
def xDecmpr : Except Stop (ZipvfsInst × Buf UInt8 × Nat) :=
  match p.pAlg with
  | .zlib => zlibUncompress lib p aDest pnDest aSrc nSrc
  | .lz4 | .lz4hc => lz4Uncompress lib p aDest pnDest aSrc nSrc
  | .ndsc | .ndscMux => ndscUncompress p aDest pnDest aSrc nSrc
  | .bsr => do
    let (inst, aDest) ← bsrUncompress p.toZipvfsInst aDest pnDest aSrc nSrc
    return ({ p with toZipvfsInst := inst }, aDest, pnDest)

end

/-- What the detector hands out; the functions are those of the algorithm. -/
structure ZipvfsMethods where
  zHdr : List UInt8
  pCtx : ZipvfsInst

/-- Chooses the algorithm by the name in the header of the database, or for a new one by the
parameter `zv`. No result stands for cleared methods: the database is not compressed. -/
def ndsCompressionAlgorithmDetector (zFile : List UInt8) (zHeader : Option (List UInt8)) :
    Except Stop (Option ZipvfsMethods) :=
  let zHeader := zHeader <|> sqlite3UriParameter zFile (ascii "zv")
  match zHeader with
  | none => return none
  | some zHeader =>
    match aZipvfs.find? fun a => a.zName = cstring zHeader with
    | none => return none
    | some a => do
      let iLevel := (sqlite3UriInt64 zFile (ascii "level") (-1)).bmod (2 ^ 32)
      let inst ← aesEncryptionSetup (sqlite3UriParameter zFile (ascii "password"))
      return some ⟨a.zName, { inst with pAlg := a, iLevel }⟩

end NdsDevkit.Compress
