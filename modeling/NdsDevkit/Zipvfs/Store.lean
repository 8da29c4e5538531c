import NdsDevkit.Zipvfs.Slots

namespace NdsDevkit.Zipvfs

open Framework

/-- The callbacks of a connection with the context `σ`. `xCompress` takes the size of the output
buffer; its result is whether it returns SQLITE_OK, and the bytes of the buffer up to `*pnOut`. A
failing `xUncompress` has no result. -/
structure ZipvfsMethods (σ : Type) where
  zHdr : σ → List UInt8
  xCompressBound : σ → Nat → Nat
  xCompress : σ → Nat → List UInt8 → Bool × List UInt8
  xUncompress : σ → List UInt8 → Nat → Option (σ × List UInt8)

/-- The free-slot list. The best fit has the offset 0 when there is none. -/
structure FreeList where
  zipvfsFreelistAdd : ZipvfsFile → Nat → Nat → Except ErrorCode ZipvfsFile
  zipvfsFreelistRemove : ZipvfsFile → Nat → Nat → Except ErrorCode ZipvfsFile
  zipvfsFreelistBestfit : ZipvfsFile → Bool → Nat → Except ErrorCode (ZipvfsFile × Nat × Nat)

section

variable {σ : Type} (fl : FreeList) (m : ZipvfsMethods σ)

/-- The connection with its buffer for compressed pages, and the size of the buffer. It is allocated
at its first use, for the page size of that time. -/
def zipvfsCompressionBuffer (s : σ) (z : ZipvfsFile) : ZipvfsFile × Nat :=
  let n := z.nCompressionBuffer.getD (m.xCompressBound s z.hdr.pgsz)
  ({ z with nCompressionBuffer := some n }, n)

/-- Loads data into a buffer of `nBuf` bytes. -/
def loadBuffer (z : ZipvfsFile) (nBuf iOffset nByte : Nat) : Except ErrorCode (List UInt8) :=
  if nByte > nBuf then throw .outOfBounds else z.zipvfsLoadData iOffset nByte

/-- Moves the slot of a page to the free-slot list. The product wraps at 32 bits. -/
def zipvfsFreeOldSlot (z : ZipvfsFile) (iPg : Nat) : Except ErrorCode ZipvfsFile :=
  if z.hdr.iSize > (iPg - 1) * z.hdr.pgsz % 2 ^ 32 then do
    let (iOff, nByte) ← z.zipvfsFindPage iPg
    let nPadding ← z.findPadding iPg
    let z ← fl.zipvfsFreelistAdd z iOff (nByte + nPadding).toNat
    return { z with hdr.nFreeFragment := z.hdr.nFreeFragment - nPadding }
  else return z

/-- Writes a record to the slot that was chosen. -/
def fillSlot (z : ZipvfsFile) (iPg iSlotOff nSlotSize : Nat) (zBuf : List UInt8) :
    Except ErrorCode ZipvfsFile := do
  let (z, iSlotOff) ← z.zipvfsWritePageTo iPg iSlotOff zBuf (nSlotSize - zBuf.length)
  return { z with
    hdr.iDataEnd := max iSlotOff z.hdr.iDataEnd
    hdr.nFreeFragment := z.hdr.nFreeFragment + (nSlotSize - zBuf.length) }

/-- Writes a record to a free slot, or behind the data area. -/
def zipvfsWritePage (z : ZipvfsFile) (appendOnly : Bool) (iPg : Nat) (zBuf : List UInt8) :
    Except ErrorCode ZipvfsFile := do
  let z ← zipvfsFreeOldSlot fl z iPg
  let (z, iSlotOff, nSlotSize) ←
    if appendOnly then pure (z, 0, 0)
    else
      let bExact := decide (z.hdr.nFreeSlot < z.nMaxFree)
      fl.zipvfsFreelistBestfit z bExact zBuf.length
  let (iSlotOff, nSlotSize) :=
    if iSlotOff = 0 then (z.hdr.iDataEnd, max zBuf.length zipvfsMinPayload)
    else (iSlotOff, nSlotSize)
  fillSlot z iPg iSlotOff nSlotSize zBuf

/-- The stored form of a page. The return code of the callback is not looked at; a result that no
slot can hold is an error. -/
def zipvfsCompress (s : σ) (nBuf : Nat) (zInput : List UInt8) : Except ErrorCode (List UInt8) :=
  let zOut := (m.xCompress s nBuf zInput).2
  if zOut.length > zipvfsMaxPayload then throw .SQLITE_ERROR else return zOut

/-- Clears the first bytes of the data area, which then starts behind them. -/
def clearStart (z : ZipvfsFile) (nByte : Nat) : Except ErrorCode ZipvfsFile := do
  let z ← z.zipvfsStoreData z.hdr.iDataStart (List.replicate nByte 0)
  return { z with hdr.iDataStart := z.hdr.iDataStart + nByte }

/-- One pass of the loop that makes room for the page map: nothing is there yet, or the gap
shrinks, or the first slot goes. Its record is moved through a buffer of `nBuf` bytes. -/
def expandStep (nBuf iPg : Nat) (z : ZipvfsFile) : Except ErrorCode ZipvfsFile := do
  let (z, nByte) ←
    if z.hdr.iDataStart = z.hdr.iDataEnd then
      let iEntry := zipvfsPgmapEntry (iPg + 1)
      pure ({ z with hdr.iDataStart := iEntry, hdr.iDataEnd := iEntry }, 0)
    else if z.hdr.iDataStart = z.hdr.iGapStart then
      let nByte := z.hdr.iGapEnd - z.hdr.iGapStart
      if nByte > 128 then pure ({ z with hdr.iGapStart := z.hdr.iGapStart + 128 }, 128)
      else pure ({ z with hdr.iGapStart := 0, hdr.iGapEnd := 0 }, nByte)
    else do
      let (iFirstPg, nByte) ← z.zipvfsReadSlotHdr z.hdr.iDataStart
      let (iOff, nData) ← z.zipvfsFindPage iFirstPg
      let z ←
        if iOff = z.hdr.iDataStart then do
          let zData ← loadBuffer z nBuf (iOff + 6) nData
          zipvfsWritePage fl z true iFirstPg zData
        else pure z
      let z ← fl.zipvfsFreelistRemove z z.hdr.iDataStart nByte
      pure (z, nByte + 6)
  clearStart z nByte

/-- Moves the start of the data area behind the map entry of a page. -/
def expandPgmap (nBuf iPg : Nat) (z : ZipvfsFile) : Except ErrorCode ZipvfsFile :=
  whileDo (fun z => decide (zipvfsPgmapEntry (iPg + 1) > z.hdr.iDataStart))
    (expandStep fl nBuf iPg) .outOfFuel (2 * zipvfsPgmapEntry (iPg + 1) + 2) z

def pageIsZeroed (zBuf : List UInt8) : Bool := zBuf.all (· = 0)

/-- The name of the format in the first 16 bytes of the file. -/
def formatName (zHdr : List UInt8) : List UInt8 :=
  ([0x5A, 0x56, 0x2D] ++ zHdr ++ List.replicate 16 0).take 16

/-- The first 92 bytes of the file: the name of the format, and a copy of the user's header. -/
def page1Bytes (zHdr zBuf : List UInt8) : List UInt8 :=
  formatName zHdr ++ (zBuf.drop 16).take 76

/-- Compresses a page and writes it into the file. A page of zeros gives up its record. -/
def storePage (s : σ) (nBuf : Nat) (z : ZipvfsFile) (iPg : Nat) (zBuf : List UInt8) :
    Except ErrorCode ZipvfsFile :=
  if pageIsZeroed zBuf then do
    let z ← zipvfsFreeOldSlot fl z iPg
    z.zipvfsStoreData (zipvfsPgmapEntry iPg) (List.replicate 8 0)
  else do
    let z := if iPg = 1 then { z with nUsrPage := getBytes ((zBuf.drop 28).take 4) } else z
    let zOut ← zipvfsCompress m s nBuf zBuf
    zipvfsWritePage fl z false iPg zOut

/-- Writes a page of the user's database. -/
def zipvfsWrite (s : σ) (z : ZipvfsFile) (zBuf : List UInt8) (iOfst : Nat) :
    Except ErrorCode ZipvfsFile :=
  let iAmt := zBuf.length
  let nPgsz := getBytes ((zBuf.drop 16).take 2)
  if z.inWriteTrans ≠ 2 then throw .SQLITE_IOERR_ZIPVFS01
  else if iOfst = 0 ∧ iAmt ≠ (if nPgsz = 1 then 65536 else nPgsz) then
    throw .SQLITE_IOERR_ZIPVFS02
  else do
    let z := { z with hdr.pgsz := iAmt }
    let iPg := (iOfst / iAmt + 1) % 2 ^ 32
    let (z, nBuf) := zipvfsCompressionBuffer m s z
    let z ← expandPgmap fl nBuf iPg z
    let z ← if iPg = 1 then z.zipvfsStoreData 0 (page1Bytes (m.zHdr s) zBuf) else pure z
    let z ← storePage fl m s nBuf z iPg zBuf
    return { z with hdr.iSize := max z.hdr.iSize (iOfst + iAmt) }

/-- `nBuf` bytes from `iPgOff` on of the page that a record stands for. -/
def zipvfsDecompress (s : σ) (pgsz nBuf iPgOff : Nat) (aCompressed : List UInt8) :
    Except ErrorCode (σ × List UInt8) :=
  match m.xUncompress s aCompressed pgsz with
  | none => throw .ZIPVFS_CORRUPT
  | some (s, aOut) =>
    if aOut.length ≠ pgsz then throw .ZIPVFS_CORRUPT
    else return (s, if nBuf < pgsz then (aOut.drop iPgOff).take nBuf else aOut)

/-- Loads a record and decompresses it. -/
def zipvfsLoadAndUncompress (s : σ) (z : ZipvfsFile) (nOutput iPgOff nByte iOff : Nat) :
    Except ErrorCode (σ × ZipvfsFile × List UInt8) := do
  let (z, nBuf) := zipvfsCompressionBuffer m s z
  let aCompressed ← loadBuffer z nBuf (iOff + zipvfsSlotHdrSize) nByte
  let (s, aOutput) ← zipvfsDecompress m s z.hdr.pgsz nOutput iPgOff aCompressed
  return (s, z, aOutput)

/-- Reads from the user's database. The last result is set for SQLITE_IOERR_SHORT_READ. -/
def zipvfsRead (s : σ) (z : ZipvfsFile) (iAmt iOfst : Nat) :
    Except ErrorCode (σ × ZipvfsFile × List UInt8 × Bool) :=
  if iOfst ≥ z.hdr.iSize then return (s, z, List.replicate iAmt 0, true)
  else do
    let iPg := (iOfst / z.hdr.pgsz + 1) % 2 ^ 32
    let iPgOff := iOfst % z.hdr.pgsz
    let (iOff, nByte) ← z.zipvfsFindPage iPg
    if iOff ≠ 0 then
      let (s, z, zBuf) ← zipvfsLoadAndUncompress m s z iAmt iPgOff nByte iOff
      return (s, z, zBuf ++ List.replicate (iAmt - z.hdr.pgsz) 0, decide (iAmt > z.hdr.pgsz))
    else return (s, z, List.replicate iAmt 0, false)

/-- The loop over the `n` pages from `iPg` on that are cut off. -/
def truncateLoop : Nat → Nat → ZipvfsFile → Except ErrorCode ZipvfsFile
  | 0, _, z => return z
  | n + 1, iPg, z => do
    let (iOff, nByte) ← z.zipvfsFindPage iPg
    let nPadding ← z.findPadding iPg
    let z ← fl.zipvfsFreelistAdd z iOff (nByte + nPadding).toNat
    truncateLoop n (iPg + 1) z

/-- The number of bytes of the page map that are cleared. It is an int: from 2^31 on it is
negative, and nothing is cleared. -/
def nClear (nPage iFree : Nat) : Nat :=
  ((zipvfsPgmapEntry (nPage + 1) - zipvfsPgmapEntry iFree : Int).bmod (2 ^ 32)).toNat

/-- Truncates the user's database to `nPg` pages. -/
def zipvfsTruncateUserdb (z : ZipvfsFile) (nPg : Nat) : Except ErrorCode ZipvfsFile := do
  let iFree := (nPg + 1) % 2 ^ 32
  let nPage := z.hdr.iSize / z.hdr.pgsz % 2 ^ 32
  let z ← truncateLoop fl (nPage + 1 - iFree) iFree z
  let z ← z.zipvfsStoreData (zipvfsPgmapEntry iFree) (List.replicate (nClear nPage iFree) 0)
  return { z with hdr.iSize := nPg * z.hdr.pgsz }

def zipvfsTruncate (z : ZipvfsFile) (size : Nat) : Except ErrorCode ZipvfsFile :=
  if z.inWriteTrans ≠ 2 then return z
  else if size % z.hdr.pgsz ≠ 0 then throw .SQLITE_IOERR_TRUNCATE
  else do
    let z ← zipvfsTruncateUserdb fl z (size / z.hdr.pgsz)
    return { z with nUsrPage := 0 }

end

end NdsDevkit.Zipvfs
