import NdsDevkit.Framework.Outcome
import NdsDevkit.Framework.PlainFile

namespace NdsDevkit.Zipvfs

open Framework

def pendingByte : Nat := 0x40000000

def zipvfsLockingPageSize : Nat := 65536

def pagerMaxPgno : Nat := 2147483647

def sqliteMaxPageCount : Nat := 1073741823

/-- The error codes of the page store, and what ends a call without a code: a buffer that is too
small, a loop cut off by its fuel, a file that is not compressed. -/
inductive ErrorCode where
  | SQLITE_ERROR
  | SQLITE_CANTOPEN
  | SQLITE_CORRUPT
  | SQLITE_FULL
  | SQLITE_IOERR_SHORT_READ
  | SQLITE_IOERR_TRUNCATE
  | SQLITE_IOERR_ZIPVFS01
  | SQLITE_IOERR_ZIPVFS02
  | SQLITE_IOERR_ZIPVFS05
  | SQLITE_MISUSE
  | ZIPVFS_CORRUPT
  | outOfBounds
  | outOfFuel
  | notCompressed
  deriving DecidableEq

/-- The header of a compressed database as the connection caches it. -/
structure ZipvfsHdr where
  iFreeSlot : Nat
  iDataStart : Nat
  iDataEnd : Nat
  iGapStart : Nat
  iGapEnd : Nat
  iSize : Nat
  pgsz : Nat
  nFreeSlot : Nat
  nFreeByte : Nat
  nFreeFragment : Int
  iVersion : Nat
  deriving DecidableEq

/-- A compressed database that is open and locked. `file` has the pages as the pager has them, with
the size that a commit gives the file; `disk` is the file that is read around the pager. -/
structure ZipvfsFile where
  file : PlainFile
  disk : PlainFile
  hdr : ZipvfsHdr
  nPgsz : Nat
  inWriteTrans : Nat
  nUsrPage : Nat
  nMaxFree : Nat
  nCompressionBuffer : Option Nat

namespace ZipvfsFile

/-- The number of pages of the file. -/
def dbSize (z : ZipvfsFile) : Nat := (z.file.size + z.nPgsz - 1) / z.nPgsz

/-- The page that the pager is asked for. The pages around the pending byte are left out. -/
def pagerPage (z : ZipvfsFile) (iPg : Nat) : Nat :=
  if iPg ≥ 1 + pendingByte / z.nPgsz then
    (iPg + (if z.hdr.iVersion ≠ 0 then zipvfsLockingPageSize / z.nPgsz else 1)) % 2 ^ 32
  else iPg

/-- Where the data of a page begin in the file. The page of the pending byte is not used, and a
file does not grow without an end. -/
def sqlite3PagerAcquire (z : ZipvfsFile) (pgno : Nat) : Except ErrorCode Nat :=
  if pgno = 0 ∨ pgno > pagerMaxPgno ∨ pgno = pendingByte / z.nPgsz + 1 then throw .SQLITE_CORRUPT
  else if z.dbSize < pgno ∧ pgno > sqliteMaxPageCount then throw .SQLITE_FULL
  else return (pgno - 1) * z.nPgsz

def zipvfsPagerAcquire (z : ZipvfsFile) (iPg : Nat) : Except ErrorCode Nat :=
  z.sqlite3PagerAcquire (z.pagerPage iPg)

/-- The number of bytes that are left out at the pending byte. -/
def lockingGap (z : ZipvfsFile) : Nat :=
  if z.hdr.iVersion ≠ 0 then zipvfsLockingPageSize else z.nPgsz

/-- The loop over the pages, with at most `fuel` of them and `nRem` bytes still to load. -/
def loadPages (z : ZipvfsFile) (iOffset nByte : Nat) : Nat → Nat → Except ErrorCode (List UInt8)
  | 0, _ => return []
  | fuel + 1, nRem =>
    if nRem > 0 then do
      let iPg := ((iOffset + nByte - nRem) / z.nPgsz + 1) % 2 ^ 32
      let pPg ← z.zipvfsPagerAcquire iPg
      let iPgData := if nRem = nByte then iOffset % z.nPgsz else 0
      let nCopy := min (z.nPgsz - iPgData) nRem
      let aRest ← z.loadPages iOffset nByte fuel (nRem - nCopy)
      return z.file.read (pPg + iPgData) nCopy ++ aRest
    else return []

/-- A read of the file itself. It fails when the file ends before it. -/
def xRead (fd : PlainFile) (iAmt iOfst : Nat) : Except ErrorCode (List UInt8) :=
  if iAmt = 0 ∨ iOfst + iAmt ≤ fd.size then return fd.read iOfst iAmt
  else throw .SQLITE_IOERR_SHORT_READ

/-- The loads that go around the pager, in two parts if the data lie on both sides of the pending
byte. -/
def loadDirect (z : ZipvfsFile) (iOffset nByte : Nat) : Except ErrorCode (List UInt8) := do
  let front ←
    if iOffset < pendingByte then xRead z.disk (min nByte (pendingByte - iOffset)) iOffset
    else pure []
  let back ←
    if iOffset + nByte > pendingByte then
      let nDone := if iOffset < pendingByte then pendingByte - iOffset else 0
      let iOff := if iOffset < pendingByte then pendingByte else iOffset
      xRead z.disk (nByte - nDone) (iOff + z.lockingGap)
    else pure []
  return front ++ back

def zipvfsLoadData (z : ZipvfsFile) (iOffset nByte : Nat) : Except ErrorCode (List UInt8) :=
  if z.inWriteTrans > 1 ∨ z.hdr.iVersion = 2 then z.loadPages iOffset nByte nByte nByte
  else z.loadDirect iOffset nByte

/-- Changes a part of a page, which is then written as a whole. -/
def putPage (z : ZipvfsFile) (pPg iPgData : Nat) (bs : List UInt8) : ZipvfsFile :=
  { z with file := (z.file.write (pPg + iPgData) bs).extend (pPg + z.nPgsz) }

/-- The loop over the pages, for the `bs.length` bytes of `nBuf` that are still to store. -/
def storePages (iOffset nBuf : Nat) : Nat → List UInt8 → ZipvfsFile → Except ErrorCode ZipvfsFile
  | 0, _, z => return z
  | fuel + 1, bs, z =>
    if bs.length > 0 then do
      let iPg := ((iOffset + nBuf - bs.length) / z.nPgsz + 1) % 2 ^ 32
      let pPg ← z.zipvfsPagerAcquire iPg
      let iPgData := if bs.length = nBuf then iOffset % z.nPgsz else 0
      let nCopy := min (z.nPgsz - iPgData) bs.length
      storePages iOffset nBuf fuel (bs.drop nCopy) (z.putPage pPg iPgData (bs.take nCopy))
    else return z

def zipvfsStoreData (z : ZipvfsFile) (iOffset : Nat) (bs : List UInt8) :
    Except ErrorCode ZipvfsFile :=
  storePages iOffset bs.length bs.length bs z

/-- Cuts off the pages behind `iPg`. -/
def zipvfsPagerTruncateImage (z : ZipvfsFile) (iPg : Nat) : ZipvfsFile :=
  let nPage := z.pagerPage iPg
  if nPage = z.dbSize then z else { z with file := z.file.truncate (nPage * z.nPgsz) }

/-- The place in the file of a byte of the contiguous space. -/
def place (z : ZipvfsFile) (o : Nat) : Nat := if o < pendingByte then o else o + z.lockingGap

/-- The contiguous space. -/
def bytes (z : ZipvfsFile) : Cells UInt8 := fun o => z.file.bytes (z.place o)

/-- The page size of the pager is a power of two, from 512 to 65536. -/
def Paged (z : ZipvfsFile) : Prop := ∃ k, 9 ≤ k ∧ k ≤ 16 ∧ z.nPgsz = 2 ^ k

/-- Up to here every byte of the contiguous space lies on a page that the pager has. -/
def pagerReach : Nat := 2 ^ 39 - 2 ^ 17

/-- The file has the bytes from `o` to `e`. -/
def Covers (z : ZipvfsFile) (o e : Nat) : Prop := ∀ i, o ≤ i → i < e → z.place i < z.file.size

/-- What lies in the file stays in it. -/
def Grows (z z' : ZipvfsFile) : Prop := ∀ i, z.place i < z.file.size → z'.place i < z'.file.size

theorem Grows.refl (z : ZipvfsFile) : z.Grows z := fun _ h => h

theorem Covers.grows {z z' : ZipvfsFile} {o e : Nat} (h : z.Covers o e) (hgrows : z.Grows z') :
    z'.Covers o e :=
  fun i h1 h2 => hgrows i (h i h1 h2)

/-- The page size and the format decide where a byte lies. -/
theorem place_congr {z z' : ZipvfsFile} (hn : z'.nPgsz = z.nPgsz)
    (hv : z'.hdr.iVersion = z.hdr.iVersion) : z'.place = z.place := by
  funext i
  rw [place, place, lockingGap, lockingGap, hn, hv]

theorem Paged.pos {z : ZipvfsFile} (h : z.Paged) : 0 < z.nPgsz := by
  obtain ⟨k, _, _, hk⟩ := h
  rw [hk]
  exact Nat.two_pow_pos k

theorem Paged.bounds {z : ZipvfsFile} (h : z.Paged) : 512 ≤ z.nPgsz ∧ z.nPgsz ≤ 65536 := by
  obtain ⟨k, h9, h16, hk⟩ := h
  have hlow : 2 ^ 9 ≤ 2 ^ k := Nat.pow_le_pow_right (by decide) h9
  have hhigh : 2 ^ k ≤ 2 ^ 16 := Nat.pow_le_pow_right (by decide) h16
  rw [hk]
  omega

theorem Paged.pending {z : ZipvfsFile} (h : z.Paged) : z.nPgsz ∣ pendingByte := by
  obtain ⟨k, _, h16, hk⟩ := h
  rw [hk, show pendingByte = 2 ^ 30 from rfl]
  exact Nat.pow_dvd_pow 2 (by omega)

theorem Paged.locking {z : ZipvfsFile} (h : z.Paged) : z.nPgsz ∣ zipvfsLockingPageSize := by
  obtain ⟨k, _, h16, hk⟩ := h
  rw [hk, show zipvfsLockingPageSize = 2 ^ 16 from rfl]
  exact Nat.pow_dvd_pow 2 h16

theorem Paged.aligned {z : ZipvfsFile} (h : z.Paged) : 8 ∣ z.nPgsz := by
  obtain ⟨k, h9, _, hk⟩ := h
  rw [hk, show 8 = 2 ^ 3 from rfl]
  exact Nat.pow_dvd_pow 2 (by omega)

/-- Every byte within the reach of the pager has a page, and lies on it at its place. -/
theorem Paged.pagerPage_spec {z : ZipvfsFile} (h : z.Paged) {o : Nat} (ho : o ≤ pagerReach) :
    o / z.nPgsz + 1 < 2 ^ 32 ∧ 1 ≤ z.pagerPage (o / z.nPgsz + 1) ∧
      z.pagerPage (o / z.nPgsz + 1) ≤ sqliteMaxPageCount ∧
      z.pagerPage (o / z.nPgsz + 1) ≠ pendingByte / z.nPgsz + 1 ∧
      (z.pagerPage (o / z.nPgsz + 1) - 1) * z.nPgsz + o % z.nPgsz = z.place o := by
  obtain ⟨a, ha⟩ := h.pending
  obtain ⟨b, hb⟩ := h.locking
  have hpos := h.pos
  obtain ⟨hlow, hhigh⟩ := h.bounds
  have hdiv := Nat.div_add_mod o z.nPgsz
  have hpend : pendingByte / z.nPgsz = a := by rw [ha, Nat.mul_div_cancel_left _ hpos]
  have hlock : zipvfsLockingPageSize / z.nPgsz = b := by rw [hb, Nat.mul_div_cancel_left _ hpos]
  have hlt : o / z.nPgsz < a ↔ o < pendingByte := by
    rw [ha, Nat.mul_comm]
    exact Nat.div_lt_iff_lt_mul hpos
  have hnat := Nat.zero_le (o / z.nPgsz)
  have hpage : o / z.nPgsz ≤ o / 512 := Nat.div_le_div_left hlow (by decide)
  have hmost : b ≤ 128 := by
    rw [← hlock]
    exact Nat.div_le_div_left hlow (by decide)
  have hleast : 1 ≤ b := by
    rw [← hlock]
    exact Nat.div_pos hhigh hpos
  rw [pagerReach] at ho
  rw [sqliteMaxPageCount, pagerPage, place, lockingGap, hpend, hlock]
  refine ⟨by omega, ?_⟩
  by_cases hside : o < pendingByte
  · have hbelow := hlt.mpr hside
    rw [if_neg (by omega), if_pos hside, Nat.add_sub_cancel, Nat.mul_comm]
    exact ⟨by omega, by omega, by omega, hdiv⟩
  · have hnot : ¬ o / z.nPgsz < a := fun hc => hside (hlt.mp hc)
    obtain ⟨nGap, hgap, hone, hmax, hbytes⟩ : ∃ nGap, (if z.hdr.iVersion ≠ 0 then b else 1) = nGap ∧
        1 ≤ nGap ∧ nGap ≤ 128 ∧
        (if z.hdr.iVersion ≠ 0 then zipvfsLockingPageSize else z.nPgsz) = nGap * z.nPgsz := by
      by_cases hversion : z.hdr.iVersion ≠ 0
      · refine ⟨b, if_pos hversion, hleast, hmost, ?_⟩
        rw [if_pos hversion, hb, Nat.mul_comm]
      · refine ⟨1, if_neg hversion, Nat.le_refl 1, by omega, ?_⟩
        rw [if_neg hversion, Nat.one_mul]
    rw [if_pos (by omega), if_neg hside, hgap, hbytes, Nat.mod_eq_of_lt (by omega),
      show o / z.nPgsz + 1 + nGap - 1 = o / z.nPgsz + nGap by omega, Nat.add_mul,
      Nat.mul_comm (o / z.nPgsz)]
    exact ⟨by omega, by omega, by omega, by omega⟩

/-- The pager has the page of every byte within its reach. -/
theorem Paged.zipvfsPagerAcquire_eq {z : ZipvfsFile} (h : z.Paged) {o : Nat}
    (ho : o ≤ pagerReach) :
    ∃ pPg, z.zipvfsPagerAcquire ((o / z.nPgsz + 1) % 2 ^ 32) = .ok pPg ∧
      pPg + o % z.nPgsz = z.place o := by
  obtain ⟨hless, hone, hmax, hmaster, hplace⟩ := h.pagerPage_spec ho
  rw [sqliteMaxPageCount] at hmax
  rw [Nat.mod_eq_of_lt hless, zipvfsPagerAcquire, sqlite3PagerAcquire, pagerMaxPgno,
    sqliteMaxPageCount]
  exact ⟨_, (if_neg (by omega)).trans (if_neg (by omega)), hplace⟩

theorem place_mono (z : ZipvfsFile) {a b : Nat} (h : a ≤ b) : z.place a ≤ z.place b := by
  rw [place, place]
  split <;> split <;> omega

theorem place_inj {z : ZipvfsFile} {a b : Nat} (h : z.place a = z.place b) : a = b := by
  rw [place, place] at h
  split at h <;> split at h <;> omega

/-- The file covers a stretch when it has its last byte. -/
theorem covers_iff (z : ZipvfsFile) {o n : Nat} (hn : n ≠ 0) :
    z.Covers o (o + n) ↔ z.place (o + n - 1) < z.file.size := by
  constructor
  · intro h
    exact h _ (by omega) (by omega)
  · intro h i _ hi
    exact Nat.lt_of_le_of_lt (z.place_mono (by omega)) h

/-- The bytes up to the end of the last page stay. -/
theorem Paged.truncateImage_spec {z : ZipvfsFile} (h : z.Paged) {o i : Nat} (ho : o ≤ pagerReach)
    (hi : i ≤ o) : (z.zipvfsPagerTruncateImage (o / z.nPgsz + 1)).bytes i = z.bytes i ∧
      (z.place i < z.file.size →
        z.place i < (z.zipvfsPagerTruncateImage (o / z.nPgsz + 1)).file.size) := by
  obtain ⟨_, hone, _, _, hplace⟩ := h.pagerPage_spec ho
  have hmod := Nat.mod_lt o h.pos
  have hle := z.place_mono hi
  rw [zipvfsPagerTruncateImage]
  generalize z.pagerPage (o / z.nPgsz + 1) = nPage at hone hplace
  obtain ⟨k, rfl⟩ := Nat.exists_eq_add_of_le' hone
  rw [Nat.add_sub_cancel] at hplace
  have hbelow : z.place i < (k + 1) * z.nPgsz := by
    rw [Nat.succ_mul]
    omega
  by_cases hsame : k + 1 = z.dbSize
  · rw [if_pos hsame]
    exact ⟨rfl, fun hlt => hlt⟩
  · rw [if_neg hsame]
    refine ⟨?_, fun _ => hbelow⟩
    change (if z.place i < _ then z.file.bytes (z.place i) else 0) = z.file.bytes (z.place i)
    rw [if_pos hbelow]

/-- Within a page the places are contiguous. -/
theorem Paged.place_add {z : ZipvfsFile} (h : z.Paged) {o k : Nat}
    (hk : o % z.nPgsz + k < z.nPgsz) : z.place (o + k) = z.place o + k := by
  obtain ⟨a, ha⟩ := h.pending
  have hdiv := Nat.div_add_mod o z.nPgsz
  have hside : o + k < pendingByte ↔ o < pendingByte := by
    constructor
    · intro hlt
      omega
    · intro hlt
      have hpage : o / z.nPgsz < a := by
        rw [Nat.div_lt_iff_lt_mul h.pos, Nat.mul_comm, ← ha]
        exact hlt
      have hnext : z.nPgsz * (o / z.nPgsz + 1) ≤ z.nPgsz * a := Nat.mul_le_mul_left _ hpage
      rw [Nat.mul_succ] at hnext
      omega
  rw [place, place]
  by_cases ho : o < pendingByte
  · rw [if_pos ho, if_pos (hside.mpr ho)]
  · rw [if_neg ho, if_neg fun hc => ho (hside.mp hc)]
    omega

/-- A stretch inside a page. -/
theorem Paged.readFile_eq {z : ZipvfsFile} (h : z.Paged) {o n : Nat}
    (hn : o % z.nPgsz + n ≤ z.nPgsz) : z.file.read (z.place o) n = z.bytes.get o n := by
  apply List.map_congr_left
  intro k hk
  rw [List.mem_range] at hk
  rw [bytes, h.place_add (by omega)]

/-- Behind the first page the loop is at the start of a page. -/
theorem pageOffset_eq {n o nRem nByte : Nat} (hrem : nRem ≤ nByte)
    (hstart : nRem < nByte → (o + nByte - nRem) % n = 0) :
    (if nRem = nByte then o % n else 0) = (o + nByte - nRem) % n := by
  by_cases heq : nRem = nByte
  · rw [if_pos heq, heq, Nat.add_sub_cancel]
  · rw [if_neg heq, hstart (by omega)]

theorem nextPage_mod {n o : Nat} (hn : 0 < n) : (o + (n - o % n)) % n = 0 := by
  have hmod := Nat.mod_lt o hn
  have hdiv := Nat.div_add_mod o n
  rw [show o + (n - o % n) = n * (o / n + 1) by rw [Nat.mul_succ]; omega]
  exact Nat.mul_mod_right _ _

theorem Paged.loadPages_eq {z : ZipvfsFile} (h : z.Paged) {iOffset nByte fuel : Nat}
    (hreach : iOffset + nByte ≤ pagerReach) (nRem : Nat) (hfuel : nRem ≤ fuel)
    (hrem : nRem ≤ nByte)
    (hstart : 0 < nRem → nRem < nByte → (iOffset + nByte - nRem) % z.nPgsz = 0) :
    z.loadPages iOffset nByte fuel nRem = .ok (z.bytes.get (iOffset + nByte - nRem) nRem) := by
  induction fuel generalizing nRem with
  | zero =>
    obtain rfl : nRem = 0 := by omega
    rfl
  | succ fuel ih =>
    rw [loadPages]
    by_cases hpos : nRem > 0
    · rw [if_pos hpos]
      simp only [pageOffset_eq hrem (hstart hpos)]
      generalize ho : iOffset + nByte - nRem = o
      have hmod := Nat.mod_lt o h.pos
      generalize hc : min (z.nPgsz - o % z.nPgsz) nRem = nCopy
      obtain ⟨pPg, hpage, hplace⟩ := h.zipvfsPagerAcquire_eq (o := o) (by omega)
      have hrest := ih (nRem - nCopy) (by omega) (by omega) (by
        intro hmore _
        have hcopy : nCopy = z.nPgsz - o % z.nPgsz := by omega
        rw [show iOffset + nByte - (nRem - nCopy) = o + nCopy by omega, hcopy]
        exact nextPage_mod h.pos)
      have hget := z.bytes.get_add o nCopy (nRem - nCopy)
      rw [show nCopy + (nRem - nCopy) = nRem by omega] at hget
      rw [hpage, hrest, show iOffset + nByte - (nRem - nCopy) = o + nCopy by omega, hget]
      simp only [bind, Except.bind, pure, Except.pure, hplace]
      rw [h.readFile_eq (by omega)]
    · obtain rfl : nRem = 0 := by omega
      rfl

/-- On one side of the pending byte a stretch of the file is one of the contiguous space. -/
theorem readFile_front {z : ZipvfsFile} {o n : Nat} (h : o + n ≤ pendingByte) :
    z.file.read o n = z.bytes.get o n := by
  apply List.map_congr_left
  intro k hk
  rw [List.mem_range] at hk
  rw [bytes, place, if_pos (by omega)]

theorem readFile_back {z : ZipvfsFile} {o n : Nat} (h : pendingByte ≤ o) :
    z.file.read (o + z.lockingGap) n = z.bytes.get o n := by
  apply List.map_congr_left
  intro k hk
  rw [bytes, place, if_neg (by omega)]
  congr 1
  omega

theorem xRead_ok {fd : PlainFile} {iAmt iOfst : Nat} (h : iAmt = 0 ∨ iOfst + iAmt ≤ fd.size) :
    xRead fd iAmt iOfst = .ok (fd.read iOfst iAmt) :=
  if_pos h

theorem xRead_short {fd : PlainFile} {iAmt iOfst : Nat}
    (h : ¬ (iAmt = 0 ∨ iOfst + iAmt ≤ fd.size)) :
    xRead fd iAmt iOfst = .error .SQLITE_IOERR_SHORT_READ :=
  if_neg h

/-- A load around the pager reads the contiguous space, if the file has the last byte. -/
theorem loadDirect_eq {z : ZipvfsFile} (hdisk : z.disk = z.file) (iOffset nByte : Nat) :
    z.loadDirect iOffset nByte =
      if nByte = 0 ∨ z.place (iOffset + nByte - 1) < z.file.size then
        .ok (z.bytes.get iOffset nByte)
      else .error .SQLITE_IOERR_SHORT_READ := by
  rw [loadDirect, hdisk, place]
  by_cases hfront : iOffset < pendingByte
  · simp only [if_pos hfront]
    by_cases hback : iOffset + nByte > pendingByte
    · simp only [if_pos hback, Nat.min_eq_right (show pendingByte - iOffset ≤ nByte by omega),
        if_neg (show ¬ iOffset + nByte - 1 < pendingByte by omega)]
      by_cases hfirst : pendingByte ≤ z.file.size
      · have hread : xRead z.file (pendingByte - iOffset) iOffset = .ok _ :=
          xRead_ok (.inr (by omega))
        by_cases hall : nByte = 0 ∨ iOffset + nByte - 1 + z.lockingGap < z.file.size
        · have hlast := hall.resolve_left (by omega)
          have hread' : xRead z.file (nByte - (pendingByte - iOffset))
              (pendingByte + z.lockingGap) = .ok _ := xRead_ok (.inr (by omega))
          have hsplit := z.bytes.get_add iOffset (pendingByte - iOffset)
            (nByte - (pendingByte - iOffset))
          rw [show iOffset + (pendingByte - iOffset) = pendingByte by omega,
            show pendingByte - iOffset + (nByte - (pendingByte - iOffset)) = nByte by omega]
            at hsplit
          rw [if_pos hall, hread, hread', readFile_front (by omega),
            readFile_back (Nat.le_refl _), hsplit]
          rfl
        · rw [if_neg hall, hread, xRead_short (by omega)]
          rfl
      · rw [if_neg (by omega), xRead_short (by omega)]
        rfl
    · simp only [if_neg hback, Nat.min_eq_left (show nByte ≤ pendingByte - iOffset by omega)]
      by_cases hall : nByte = 0 ∨ iOffset + nByte ≤ z.file.size
      · rw [xRead_ok hall, readFile_front (by omega), if_pos (by split <;> omega)]
        simp only [bind, Except.bind, pure, Except.pure, List.append_nil]
      · rw [xRead_short hall, if_neg (by split <;> omega)]
        rfl
  · simp only [if_neg hfront]
    by_cases hback : iOffset + nByte > pendingByte
    · simp only [if_pos hback, Nat.sub_zero]
      by_cases hall : nByte = 0 ∨ iOffset + nByte + z.lockingGap ≤ z.file.size
      · rw [xRead_ok (by omega), readFile_back (by omega), if_pos (by split <;> omega)]
        rfl
      · rw [xRead_short (by omega), if_neg (by split <;> omega)]
        rfl
    · obtain rfl : nByte = 0 := by omega
      simp only [if_neg hback, true_or, if_true]
      rfl

/-- What can be loaded: within the reach of the pager, and what is loaded around the pager within
the file. -/
def Loads (z : ZipvfsFile) (o n : Nat) : Prop :=
  o + n ≤ pagerReach ∧ (1 < z.inWriteTrans ∨ z.disk = z.file ∧ z.Covers o (o + n))

/-- Both ways to load read the contiguous space. -/
theorem Paged.zipvfsLoadData_eq {z : ZipvfsFile} (h : z.Paged) {iOffset nByte : Nat}
    (hload : z.Loads iOffset nByte) :
    z.zipvfsLoadData iOffset nByte = .ok (z.bytes.get iOffset nByte) := by
  obtain ⟨hreach, hway⟩ := hload
  rw [zipvfsLoadData]
  by_cases hpages : z.inWriteTrans > 1 ∨ z.hdr.iVersion = 2
  · have hpage := h.loadPages_eq hreach nByte (Nat.le_refl nByte) (Nat.le_refl nByte)
      fun _ hlt => absurd hlt (Nat.lt_irrefl _)
    rw [if_pos hpages, hpage, Nat.add_sub_cancel]
  · obtain ⟨hdisk, hcovers⟩ := hway.resolve_left fun hw => hpages (.inl hw)
    rw [if_neg hpages, loadDirect_eq hdisk, if_pos]
    by_cases h0 : nByte = 0
    · exact .inl h0
    · exact .inr ((z.covers_iff h0).mp hcovers)

/-- A write inside a page. -/
theorem Paged.putPage_bytes {z : ZipvfsFile} (h : z.Paged) {o pPg : Nat} {bs : List UInt8}
    (hplace : pPg + o % z.nPgsz = z.place o) (hn : o % z.nPgsz + bs.length ≤ z.nPgsz) :
    (z.putPage pPg (o % z.nPgsz) bs).bytes = z.bytes.put o bs := by
  funext a
  change z.file.bytes.put (pPg + o % z.nPgsz) bs (z.place a) = _
  rw [hplace]
  by_cases hin : o ≤ a ∧ a < o + bs.length
  · obtain ⟨k, rfl⟩ : ∃ k, a = o + k := ⟨a - o, by omega⟩
    have hsum := h.place_add (o := o) (k := k) (by omega)
    rw [Cells.put_of_mem _ hin.1 hin.2, Cells.put_of_mem _ (by omega) (by omega)]
    congr 1
    omega
  · have hout : z.place a < z.place o ∨ z.place o + bs.length ≤ z.place a := by
      by_contra hmem
      have hsum := h.place_add (o := o) (k := z.place a - z.place o) (by omega)
      have heq : a = o + (z.place a - z.place o) := place_inj (z := z) (by omega)
      omega
    rw [Cells.put_of_not_mem _ hout, Cells.put_of_not_mem _ (by omega)]
    rfl

/-- Data have been stored in the contiguous space, and nothing else of the connection changes. The
file has the bytes. -/
structure Stored (z : ZipvfsFile) (o : Nat) (bs : List UInt8) (z' : ZipvfsFile) : Prop where
  rest : { z' with file := z.file } = z
  bytes : z'.bytes = z.bytes.put o bs
  size : z.file.size ≤ z'.file.size
  covers : ∀ i, o ≤ i → i < o + bs.length → z.place i < z'.file.size

theorem Paged.putPage_stored {z : ZipvfsFile} (h : z.Paged) {o pPg : Nat} (bs : List UInt8)
    (hplace : pPg + o % z.nPgsz = z.place o) (hn : o % z.nPgsz + bs.length ≤ z.nPgsz) :
    Stored z o bs (z.putPage pPg (o % z.nPgsz) bs) := by
  refine ⟨rfl, h.putPage_bytes hplace hn, ?_, ?_⟩
  · change _ ≤ max (max _ _) _
    omega
  · intro i h1 h2
    obtain ⟨k, rfl⟩ : ∃ k, i = o + k := ⟨i - o, by omega⟩
    have hsum := h.place_add (o := o) (k := k) (by omega)
    change _ < max (max _ _) _
    omega

theorem Stored.place {z z' : ZipvfsFile} {o : Nat} {bs : List UInt8} (h : Stored z o bs z') :
    z'.place = z.place := by
  have hn : z'.nPgsz = z.nPgsz := (congrArg ZipvfsFile.nPgsz h.rest :)
  have hv : z'.hdr = z.hdr := (congrArg ZipvfsFile.hdr h.rest :)
  exact place_congr hn (congrArg ZipvfsHdr.iVersion hv)

theorem Stored.grows {z z' : ZipvfsFile} {o : Nat} {bs : List UInt8} (h : Stored z o bs z') :
    z.Grows z' := by
  intro i hi
  rw [h.place]
  exact Nat.lt_of_lt_of_le hi h.size

theorem Stored.paged {z z' : ZipvfsFile} {o : Nat} {bs : List UInt8} (h : Stored z o bs z')
    (hz : z.Paged) : z'.Paged := by
  obtain ⟨k, h9, h16, hk⟩ := hz
  have hn : z'.nPgsz = z.nPgsz := (congrArg ZipvfsFile.nPgsz h.rest :)
  exact ⟨k, h9, h16, hn.trans hk⟩

theorem Stored.nil (z : ZipvfsFile) (o : Nat) : Stored z o [] z := by
  refine ⟨rfl, (Cells.put_nil _ _).symm, Nat.le_refl _, ?_⟩
  intro i h1 h2
  rw [List.length_nil] at h2
  omega

/-- Stores one behind the other are one. -/
theorem Stored.append {z z' z'' : ZipvfsFile} {o o' : Nat} {bs bs' : List UInt8}
    (h : Stored z o bs z') (h' : Stored z' o' bs' z'') (ho : o' = o + bs.length) :
    Stored z o (bs ++ bs') z'' := by
  have hrest := h.rest
  rw [← h'.rest] at hrest
  have hsize := h.size
  have hsize' := h'.size
  refine ⟨hrest, ?_, by omega, ?_⟩
  · rw [h'.bytes, h.bytes, Cells.put_put _ _ _ ho]
  · intro i h1 h2
    rw [List.length_append] at h2
    by_cases hi : i < o + bs.length
    · have hold := h.covers i h1 hi
      omega
    · have hnew := h'.covers i (by omega) (by omega)
      rwa [h.place] at hnew

theorem storePages_spec {z : ZipvfsFile} (h : z.Paged) {iOffset nBuf fuel : Nat}
    (hreach : iOffset + nBuf ≤ pagerReach) (bs : List UInt8) (hfuel : bs.length ≤ fuel)
    (hrem : bs.length ≤ nBuf)
    (hstart : 0 < bs.length → bs.length < nBuf → (iOffset + nBuf - bs.length) % z.nPgsz = 0) :
    ∃ z', storePages iOffset nBuf fuel bs z = .ok z' ∧
      Stored z (iOffset + nBuf - bs.length) bs z' := by
  induction fuel generalizing bs z with
  | zero =>
    obtain rfl : bs = [] := List.eq_nil_of_length_eq_zero (by omega)
    exact ⟨z, rfl, Stored.nil z _⟩
  | succ fuel ih =>
    rw [storePages]
    by_cases hpos : bs.length > 0
    · rw [if_pos hpos]
      simp only [pageOffset_eq hrem (hstart hpos)]
      generalize ho : iOffset + nBuf - bs.length = o
      have hmod := Nat.mod_lt o h.pos
      generalize hc : min (z.nPgsz - o % z.nPgsz) bs.length = nCopy
      obtain ⟨pPg, hpage, hplace⟩ := h.zipvfsPagerAcquire_eq (o := o) (by omega)
      have htake : (bs.take nCopy).length = nCopy := by
        rw [List.length_take]
        omega
      have hput := h.putPage_stored (bs.take nCopy) hplace (by omega)
      have hpgsz : (z.putPage pPg (o % z.nPgsz) (bs.take nCopy)).nPgsz = z.nPgsz := rfl
      have hnext : iOffset + nBuf - (bs.drop nCopy).length = o + nCopy := by
        rw [List.length_drop]
        omega
      obtain ⟨z', hrun, hrest⟩ := ih (hput.paged h) (bs.drop nCopy)
        (by rw [List.length_drop]; omega) (by rw [List.length_drop]; omega) (by
          intro hmore _
          rw [List.length_drop] at hmore
          have hcopy : nCopy = z.nPgsz - o % z.nPgsz := by omega
          rw [hnext, hpgsz, hcopy]
          exact nextPage_mod h.pos)
      rw [hnext] at hrest
      have hall := hput.append hrest (by rw [htake])
      rw [List.take_append_drop] at hall
      refine ⟨z', ?_, hall⟩
      simp only [hpage, bind, Except.bind]
      exact hrun
    · obtain rfl : bs = [] := List.eq_nil_of_length_eq_zero (by omega)
      exact ⟨z, rfl, Stored.nil z _⟩

/-- Data are stored in the contiguous space. -/
theorem Paged.zipvfsStoreData_spec {z : ZipvfsFile} (h : z.Paged) (iOffset : Nat)
    (bs : List UInt8) (hreach : iOffset + bs.length ≤ pagerReach) :
    ∃ z', z.zipvfsStoreData iOffset bs = .ok z' ∧ Stored z iOffset bs z' := by
  have hspec := storePages_spec h hreach bs (Nat.le_refl bs.length) (Nat.le_refl bs.length)
    fun _ hlt => absurd hlt (Nat.lt_irrefl _)
  rwa [Nat.add_sub_cancel] at hspec

/-- What a commit leaves of the pages: the pager changes its counters in the first page. -/
structure Stamped (f g : PlainFile) : Prop where
  size : g.size = f.size
  bytes : ∀ i, i < 24 ∨ 28 ≤ i ∧ i < 92 ∨ 100 ≤ i → g.bytes i = f.bytes i

/-- The old bytes with those that were stored over them. -/
def merged (aOld : List UInt8) (iFrom iOffset : Nat) (bs : List UInt8) : List UInt8 :=
  aOld.mapIdx fun k b => if iOffset ≤ iFrom + k then bs.getD (iFrom + k - iOffset) b else b

theorem get_put_eq_merged (m : Cells UInt8) (iFrom nByte iOffset : Nat) (bs : List UInt8) :
    (m.put iOffset bs).get iFrom nByte = merged (m.get iFrom nByte) iFrom iOffset bs := by
  apply List.ext_getElem
  · rw [merged, List.length_mapIdx, Cells.length_get, Cells.length_get]
  · intro k hk _
    simp only [merged, List.getElem_mapIdx, Cells.get, List.getElem_map, List.getElem_range,
      List.getD_eq_getElem?_getD]
    by_cases hin : iOffset ≤ iFrom + k ∧ iFrom + k < iOffset + bs.length
    · rw [Cells.put_of_mem _ hin.1 hin.2, if_pos hin.1, List.getElem?_eq_getElem (by omega),
        Option.getD_some]
    · rw [Cells.put_of_not_mem _ (by omega)]
      by_cases hlow : iOffset ≤ iFrom + k
      · rw [if_pos hlow, List.getElem?_eq_none (by omega), Option.getD_none]
      · rw [if_neg hlow]

/-- In a write transaction a load behind a store has the stored bytes where these lie, and the old
ones elsewhere, also at the pending byte. When the transaction is committed, the same bytes are
read around the pager, if the file has the last of them; otherwise the read is short. -/
theorem zipvfsLoadData_zipvfsStoreData {z : ZipvfsFile} (h : z.Paged) (hwrite : 1 < z.inWriteTrans)
    {iOffset iFrom nByte : Nat} {bs : List UInt8} (hstore : iOffset + bs.length ≤ pagerReach)
    (hload : iFrom + nByte ≤ pagerReach) :
    ∃ z' aOld, z.zipvfsStoreData iOffset bs = .ok z' ∧ z.zipvfsLoadData iFrom nByte = .ok aOld ∧
      z'.zipvfsLoadData iFrom nByte = .ok (merged aOld iFrom iOffset bs) ∧
      ∀ g t, Stamped z'.file g → t ≤ 1 → 100 ≤ iFrom →
        { z' with file := g, disk := g, inWriteTrans := t }.zipvfsLoadData iFrom nByte =
          if z.hdr.iVersion = 2 ∨ nByte = 0 ∨ z.place (iFrom + nByte - 1) < z'.file.size then
            .ok (merged aOld iFrom iOffset bs)
          else .error .SQLITE_IOERR_SHORT_READ := by
  obtain ⟨z', hrun, hstored⟩ := h.zipvfsStoreData_spec iOffset bs hstore
  have hpaged := hstored.paged h
  have htrans : z'.inWriteTrans = z.inWriteTrans := (congrArg inWriteTrans hstored.rest :)
  have hversion : z'.hdr = z.hdr := (congrArg ZipvfsFile.hdr hstored.rest :)
  have hmerged := get_put_eq_merged z.bytes iFrom nByte iOffset bs
  rw [← hstored.bytes] at hmerged
  refine ⟨z', _, hrun, h.zipvfsLoadData_eq ⟨hload, .inl hwrite⟩, ?_, ?_⟩
  · rw [hpaged.zipvfsLoadData_eq ⟨hload, .inl (by omega)⟩, hmerged]
  · intro g t hg ht hlow
    obtain ⟨w, hw⟩ : ∃ w, { z' with file := g, disk := g, inWriteTrans := t } = w := ⟨_, rfl⟩
    have hpagedw : w.Paged := by
      rw [← hw]
      exact hpaged
    have hplace : w.place = z.place := by
      rw [← hstored.place, ← hw]
      rfl
    have hget : w.bytes.get iFrom nByte = z'.bytes.get iFrom nByte := by
      apply Cells.get_congr
      intro i hi _
      have hle : i ≤ z'.place i := by
        rw [place]
        split <;> omega
      rw [← hw]
      exact hg.bytes (z'.place i) (.inr (.inr (by omega)))
    have hdisk : w.disk = w.file := by rw [← hw]
    have hsize : w.file.size = z'.file.size := by
      rw [← hw]
      exact hg.size
    have hversionw : w.hdr.iVersion = z.hdr.iVersion := by rw [← hw, ← hversion]
    have htransw : w.inWriteTrans = t := by rw [← hw]
    rw [hw, zipvfsLoadData, hversionw, htransw, ← hmerged, ← hget]
    by_cases h2 : z.hdr.iVersion = 2
    · have hpages := hpagedw.loadPages_eq hload nByte (Nat.le_refl _) (Nat.le_refl _)
        fun _ hlt => absurd hlt (Nat.lt_irrefl _)
      rw [if_pos (.inr h2), if_pos (.inl h2), hpages, Nat.add_sub_cancel]
    · have hdirect := loadDirect_eq hdisk iFrom nByte
      rw [hplace, hsize] at hdirect
      rw [if_neg (by omega), hdirect]
      by_cases hall : nByte = 0 ∨ z.place (iFrom + nByte - 1) < z'.file.size
      · rw [if_pos hall, if_pos (.inr hall)]
      · rw [if_neg hall, if_neg fun hc => hc.elim h2 hall]

/-- A file without bytes, in a write transaction. -/
def zeroFile : ZipvfsFile where
  file := PlainFile.empty
  disk := PlainFile.empty
  hdr := ⟨0, 456, 456, 0, 0, 0, 0, 0, 0, 0, 1⟩
  nPgsz := 512
  inWriteTrans := 2
  nUsrPage := 0
  nMaxFree := 0
  nCompressionBuffer := none

theorem zeroFile_paged : zeroFile.Paged := ⟨9, Nat.le_refl 9, by decide, rfl⟩

theorem zipvfsLoadData_zipvfsStoreData_zeroFile :
    ∃ z', zeroFile.zipvfsStoreData (pendingByte - 2) [1, 2, 3, 4] = .ok z' ∧
      { z' with disk := z'.file, inWriteTrans := 0 }.zipvfsLoadData (pendingByte - 3) 6 =
        .ok [0, 1, 2, 3, 4, 0] ∧
      { z' with disk := z'.file, inWriteTrans := 0 }.zipvfsLoadData (pendingByte + 511) 2 =
        .error .SQLITE_IOERR_SHORT_READ := by
  have hsize : (zeroFile.zipvfsStoreData (pendingByte - 2) [1, 2, 3, 4]).map
      (fun z => z.file.size) = .ok (pendingByte + 65536 + 512) := by rfl
  have hold : zeroFile.zipvfsLoadData (pendingByte - 3) 6 = .ok [0, 0, 0, 0, 0, 0] := by rfl
  obtain ⟨z', aOld, hrun, hload, _, hcommit⟩ :=
    zipvfsLoadData_zipvfsStoreData zeroFile_paged (by decide)
      (show pendingByte - 2 + [1, 2, 3, 4].length ≤ pagerReach by decide)
      (show pendingByte - 3 + 6 ≤ pagerReach by decide)
  obtain ⟨_, _, hrun', _, _, hshort⟩ :=
    zipvfsLoadData_zipvfsStoreData zeroFile_paged (by decide)
      (show pendingByte - 2 + [1, 2, 3, 4].length ≤ pagerReach by decide)
      (show pendingByte + 511 + 2 ≤ pagerReach by decide)
  rw [hrun] at hsize hrun'
  rw [hold] at hload
  cases hload
  cases hrun'
  have hfile : z'.file.size = pendingByte + 65536 + 512 := Except.ok.inj hsize
  have hg : Stamped z'.file z'.file := ⟨rfl, fun _ _ => rfl⟩
  refine ⟨z', hrun, ?_, ?_⟩
  · rw [hcommit _ 0 hg (Nat.zero_le 1) (by decide), hfile, if_pos (by decide +kernel)]
    have hmerged : merged [0, 0, 0, 0, 0, 0] (pendingByte - 3) (pendingByte - 2) [1, 2, 3, 4] =
        [0, 1, 2, 3, 4, 0] := by decide +kernel
    rw [hmerged]
  · rw [hshort _ 0 hg (Nat.zero_le 1) (by decide), hfile, if_neg (by decide +kernel)]

end ZipvfsFile

end NdsDevkit.Zipvfs
