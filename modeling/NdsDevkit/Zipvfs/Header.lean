import NdsDevkit.Zipvfs.Access

namespace NdsDevkit.Zipvfs

open Framework ZipvfsFile

def zipvfsFileheaderReserved : Nat := 100
def zipvfsFileheaderSize : Nat := 100
def zipvfsPagemapInitSize : Nat := 256

def zipvfsMaxName : Nat := 13

/-- An i64: a negative number is its two's complement. -/
def zipvfsPutI64 (iVal : Int) : List UInt8 := putBytes 8 (iVal % 2 ^ 64).toNat

def zipvfsGetI64 (aBuf : List UInt8) : Int := (getBytes aBuf : Int).bmod (2 ^ 64)

/-- The fields of the header as they stand in the file. -/
def ZipvfsHdr.fields (hdr : ZipvfsHdr) : List UInt8 :=
  putBytes 8 hdr.iFreeSlot ++ (putBytes 8 hdr.iDataStart ++ (putBytes 8 hdr.iDataEnd ++
    (putBytes 8 hdr.iGapStart ++ (putBytes 8 hdr.iGapEnd ++ (putBytes 8 hdr.iSize ++
      (putBytes 8 hdr.nFreeSlot ++ (putBytes 8 hdr.nFreeByte ++ (zipvfsPutI64 hdr.nFreeFragment ++
        (putBytes 4 hdr.pgsz ++ putBytes 4 hdr.iVersion)))))))))

/-- The fields that lie in `aHdr`. -/
def hdrOfFields (aHdr : List UInt8) : ZipvfsHdr where
  iFreeSlot := getBytes ((aHdr.drop 0).take 8)
  iDataStart := getBytes ((aHdr.drop 8).take 8)
  iDataEnd := getBytes ((aHdr.drop 16).take 8)
  iGapStart := getBytes ((aHdr.drop 24).take 8)
  iGapEnd := getBytes ((aHdr.drop 32).take 8)
  iSize := getBytes ((aHdr.drop 40).take 8)
  nFreeSlot := getBytes ((aHdr.drop 48).take 8)
  nFreeByte := getBytes ((aHdr.drop 56).take 8)
  nFreeFragment := zipvfsGetI64 ((aHdr.drop 64).take 8)
  pgsz := getBytes ((aHdr.drop 72).take 4)
  iVersion := getBytes ((aHdr.drop 76).take 4)

/-- The first bytes of a database that is not compressed: SQLite format 3, with a zero behind it. -/
def sqliteMagic : List UInt8 :=
  [0x53, 0x51, 0x4C, 0x69, 0x74, 0x65, 0x20, 0x66, 0x6F, 0x72, 0x6D, 0x61, 0x74, 0x20, 0x33, 0]

/-- The callbacks for a file. They are looked up when its header is read for the first time; there
are none for a file that is not compressed. -/
def findMethods {σ : Type} (xGetMethods : Option (List UInt8) → Except ErrorCode (Option σ))
    (methods : Option σ) (file : PlainFile) : Except ErrorCode (Option σ) :=
  match methods with
  | some s => return some s
  | none =>
    let aHdr := file.read 0 16
    if aHdr = sqliteMagic then return none
    else
      let zHdr :=
        if aHdr.take 3 = [0x5A, 0x56, 0x2D] then some ((aHdr.drop 3).take zipvfsMaxName) else none
      xGetMethods zHdr

/-- The numbers in the header of a compressed database. -/
def loadHdr (file : PlainFile) : Except ErrorCode ZipvfsHdr :=
  let hdr := hdrOfFields (file.read zipvfsFileheaderReserved 80)
  let hdr :=
    if hdr.iDataEnd = 0 then
      let iDataStart := zipvfsFileheaderReserved + zipvfsFileheaderSize + zipvfsPagemapInitSize
      { hdr with iDataStart, iDataEnd := iDataStart }
    else hdr
  if hdr.iSize > 0 ∧ (hdr.pgsz < 512 ∨ hdr.pgsz > 65536 ∨ hdr.pgsz &&& (hdr.pgsz - 1) ≠ 0) then
    throw .ZIPVFS_CORRUPT
  else if hdr.iVersion > 2 then throw .SQLITE_CANTOPEN
  else if hdr.iVersion = 0 ∧ hdr.iDataEnd < pendingByte then return { hdr with iVersion := 1 }
  else return hdr

/-- Reads the header of a file from its first page. The file may not be compressed. -/
def zipvfsReadHeader {σ : Type} (xGetMethods : Option (List UInt8) → Except ErrorCode (Option σ))
    (methods : Option σ) (file : PlainFile) : Except ErrorCode (Option (σ × ZipvfsHdr)) := do
  match ← findMethods xGetMethods methods file with
  | none => return none
  | some s => return some (s, ← loadHdr file)

/-- Writes the header to the first page. -/
def zipvfsWriteHeader (z : ZipvfsFile) : ZipvfsFile :=
  z.putPage 0 zipvfsFileheaderReserved z.hdr.fields

theorem length_fields (hdr : ZipvfsHdr) : hdr.fields.length = 80 := by
  simp [ZipvfsHdr.fields, zipvfsPutI64]

theorem zipvfsGetI64_putI64 (iVal : Int) :
    zipvfsGetI64 (zipvfsPutI64 iVal) = iVal.bmod (2 ^ 64) := by
  have hpow : ((2 ^ (8 * 8) : Nat) : Int) = 2 ^ 64 := by simp
  have hlow := Int.emod_nonneg iVal (show (2 ^ 64 : Int) ≠ 0 by decide)
  have hhigh := Int.emod_lt_of_pos iVal (show (0 : Int) < 2 ^ 64 by decide)
  have hlt : (iVal % 2 ^ 64).toNat < 2 ^ (8 * 8) := by
    rw [Int.toNat_lt hlow, hpow]
    exact hhigh
  have hput : (getBytes (zipvfsPutI64 iVal) : Int) = iVal % ((2 ^ (8 * 8) : Nat) : Int) := by
    rw [zipvfsPutI64, getBytes_putBytes hlt, Int.toNat_of_nonneg hlow, hpow]
  have hmod := Int.emod_bmod iVal (2 ^ (8 * 8))
  rw [← hput] at hmod
  exact hmod

/-- The numbers of the header that the file has room for. -/
structure ZipvfsHdr.Fits (hdr : ZipvfsHdr) : Prop where
  iFreeSlot : hdr.iFreeSlot < 2 ^ 63
  iDataStart : hdr.iDataStart < 2 ^ 63
  iDataEnd : hdr.iDataEnd < 2 ^ 63
  iGapStart : hdr.iGapStart < 2 ^ 63
  iGapEnd : hdr.iGapEnd < 2 ^ 63
  iSize : hdr.iSize < 2 ^ 63
  nFreeSlot : hdr.nFreeSlot < 2 ^ 63
  nFreeByte : hdr.nFreeByte < 2 ^ 63
  pgsz : hdr.pgsz < 2 ^ 31
  iVersion : hdr.iVersion < 2 ^ 31

/-- The fields are read as they were written. -/
theorem hdrOfFields_fields {hdr : ZipvfsHdr} (h : hdr.Fits) : hdrOfFields hdr.fields =
    { hdr with nFreeFragment := hdr.nFreeFragment.bmod (2 ^ 64) } := by
  have hdrop : ∀ i n v (rest : List UInt8), n ≤ i →
      (putBytes n v ++ rest).drop i = rest.drop (i - n) := by
    intro i n v rest hi
    rw [List.drop_append, List.drop_of_length_le (by rw [length_putBytes]; exact hi),
      length_putBytes, List.nil_append]
  have htake : ∀ n v (rest : List UInt8), (putBytes n v ++ rest).take n = putBytes n v :=
    fun n v rest => List.take_left' (length_putBytes n v)
  have hlast : ∀ n v, (putBytes n v).take n = putBytes n v :=
    fun n v => List.take_of_length_le (Nat.le_of_eq (length_putBytes n v))
  have hfragment := zipvfsGetI64_putI64 hdr.nFreeFragment
  rw [zipvfsPutI64] at hfragment
  simp only [hdrOfFields, ZipvfsHdr.fields, zipvfsPutI64, List.drop_zero, htake]
  simp only [hdrop, Nat.reduceLeDiff, Nat.reduceSub, List.drop_zero, htake, hlast]
  rw [hfragment, getBytes_putBytes (by have hlt := h.iFreeSlot; omega),
    getBytes_putBytes (by have hlt := h.iDataStart; omega),
    getBytes_putBytes (by have hlt := h.iDataEnd; omega),
    getBytes_putBytes (by have hlt := h.iGapStart; omega),
    getBytes_putBytes (by have hlt := h.iGapEnd; omega),
    getBytes_putBytes (by have hlt := h.iSize; omega),
    getBytes_putBytes (by have hlt := h.pgsz; omega),
    getBytes_putBytes (by have hlt := h.nFreeSlot; omega),
    getBytes_putBytes (by have hlt := h.nFreeByte; omega),
    getBytes_putBytes (by have hlt := h.iVersion; omega)]

/-- The first bytes of a file decide about its callbacks. -/
theorem findMethods_congr {σ : Type}
    {xGetMethods : Option (List UInt8) → Except ErrorCode (Option σ)} {methods : Option σ}
    {file file' : PlainFile} (h : ∀ i, i < 16 → file'.bytes i = file.bytes i) :
    findMethods xGetMethods methods file' = findMethods xGetMethods methods file := by
  have hread : file'.read 0 16 = file.read 0 16 := Cells.get_congr fun i _ hi => h i (by omega)
  cases methods with
  | none => simp only [findMethods, hread]
  | some s => rfl

theorem PageSize.valid {n : Nat} (h : PageSize n) :
    ¬ (n < 512 ∨ n > 65536 ∨ n &&& (n - 1) ≠ 0) := by
  obtain ⟨hlow, hhigh⟩ := h.bounds
  obtain ⟨k, _, _, hk⟩ := h
  have hand : n &&& (n - 1) = 0 := by
    rw [hk, Nat.and_two_pow_sub_one_eq_mod, Nat.mod_self]
  rw [hand]
  omega

/-- A small file of the first format gets the second one. -/
def ZipvfsHdr.upgraded (hdr : ZipvfsHdr) : ZipvfsHdr :=
  if hdr.iVersion = 0 ∧ hdr.iDataEnd < pendingByte then { hdr with iVersion := 1 } else hdr

/-- A header that was written is read back, but for what the fragment field cannot hold. -/
theorem loadHdr_fields {file : PlainFile} {hdr : ZipvfsHdr} (h : hdr.Fits)
    (hfile : file.read zipvfsFileheaderReserved 80 = hdr.fields) (hend : hdr.iDataEnd ≠ 0)
    (hpgsz : hdr.iSize > 0 → PageSize hdr.pgsz) (hversion : hdr.iVersion ≤ 2) :
    loadHdr file =
      .ok { hdr with nFreeFragment := hdr.nFreeFragment.bmod (2 ^ 64) }.upgraded := by
  rw [loadHdr, hfile, hdrOfFields_fields h]
  simp only [if_neg hend]
  rw [if_neg fun hc => (hpgsz hc.1).valid hc.2, if_neg (by omega), ZipvfsHdr.upgraded]
  by_cases hsmall : hdr.iVersion = 0 ∧ hdr.iDataEnd < pendingByte
  · rw [if_pos hsmall, if_pos hsmall]
    rfl
  · rw [if_neg hsmall, if_neg hsmall]
    rfl

/-- The first page has the header that was written to it. -/
theorem ZipvfsFile.Paged.zipvfsWriteHeader_stored {z : ZipvfsFile} (h : z.Paged) :
    Stored z zipvfsFileheaderReserved z.hdr.fields (zipvfsWriteHeader z) := by
  have hlow := h.bounds.1
  have hmod : zipvfsFileheaderReserved % z.nPgsz = zipvfsFileheaderReserved := by
    apply Nat.mod_eq_of_lt
    rw [zipvfsFileheaderReserved]
    omega
  have hput := h.putPage_stored z.hdr.fields
    (show 0 + zipvfsFileheaderReserved % z.nPgsz = z.place zipvfsFileheaderReserved by
      rw [hmod, place, if_pos (by decide), Nat.zero_add])
    (by rw [hmod, length_fields, zipvfsFileheaderReserved]; omega)
  rw [hmod] at hput
  exact hput

theorem writeHeader_read (z : ZipvfsFile) :
    (zipvfsWriteHeader z).file.read zipvfsFileheaderReserved 80 = z.hdr.fields := by
  have hsame := Cells.get_put_same z.file.bytes zipvfsFileheaderReserved z.hdr.fields
  rw [length_fields] at hsame
  rw [PlainFile.read, zipvfsWriteHeader, putPage, Nat.zero_add]
  exact hsame

/-- A file that is known to be compressed needs no look at its name. -/
theorem zipvfsReadHeader_eq {σ : Type}
    {xGetMethods : Option (List UInt8) → Except ErrorCode (Option σ)} {methods : Option σ}
    {file : PlainFile} {s : σ} {hdr : ZipvfsHdr}
    (hmethods : findMethods xGetMethods methods file = .ok (some s))
    (hhdr : loadHdr file = .ok hdr) :
    zipvfsReadHeader xGetMethods methods file = .ok (some (s, hdr)) := by
  simp only [zipvfsReadHeader, hmethods, hhdr, bind, Except.bind]
  rfl

/-- The header that was written is read back, with the second format for a small file of the first
one. Nothing else in the file changes. -/
theorem zipvfsReadHeader_zipvfsWriteHeader {σ : Type}
    {xGetMethods : Option (List UInt8) → Except ErrorCode (Option σ)} {methods : Option σ}
    {z : ZipvfsFile} {s : σ} (hpaged : z.Paged) (h : z.hdr.Fits) (hend : z.hdr.iDataEnd ≠ 0)
    (hpgsz : z.hdr.iSize > 0 → PageSize z.hdr.pgsz) (hversion : z.hdr.iVersion ≤ 2)
    (hlow : -2 ^ 63 ≤ z.hdr.nFreeFragment) (hhigh : z.hdr.nFreeFragment < 2 ^ 63)
    (hmethods : findMethods xGetMethods methods z.file = .ok (some s)) :
    zipvfsReadHeader xGetMethods methods (zipvfsWriteHeader z).file =
        .ok (some (s, z.hdr.upgraded)) ∧
      ∀ i, i < 100 ∨ 180 ≤ i → (zipvfsWriteHeader z).bytes i = z.bytes i := by
  have hfragment : z.hdr.nFreeFragment.bmod (2 ^ 64) = z.hdr.nFreeFragment :=
    Int.bmod_eq_of_le (by omega) (by omega)
  have hhdr := loadHdr_fields h (writeHeader_read z) hend hpgsz hversion
  rw [hfragment] at hhdr
  constructor
  · apply zipvfsReadHeader_eq _ hhdr
    rw [← hmethods]
    apply findMethods_congr
    intro i hi
    apply Cells.put_of_not_mem
    rw [zipvfsFileheaderReserved]
    omega
  · intro i hi
    rw [hpaged.zipvfsWriteHeader_stored.bytes]
    apply Cells.put_of_not_mem
    rw [length_fields, zipvfsFileheaderReserved]
    omega

theorem zipvfsReadHeader_zipvfsWriteHeader_zeroFile :
    zipvfsReadHeader (fun _ => .ok (some ())) none
        (zipvfsWriteHeader { zeroFile with hdr := ⟨0, 456, 456, 0, 0, 0, 0, 0, 0, -5, 0⟩ }).file =
          .ok (some ((), ⟨0, 456, 456, 0, 0, 0, 0, 0, 0, -5, 1⟩)) ∧
      ∀ i, i < 100 ∨ 180 ≤ i →
        (zipvfsWriteHeader
            { zeroFile with hdr := ⟨0, 456, 456, 0, 0, 0, 0, 0, 0, -5, 0⟩ }).bytes i =
          { zeroFile with hdr := ⟨0, 456, 456, 0, 0, 0, 0, 0, 0, -5, 0⟩ }.bytes i :=
  zipvfsReadHeader_zipvfsWriteHeader zeroFile_paged
    ⟨by decide, by decide, by decide, by decide, by decide, by decide, by decide, by decide,
      by decide, by decide⟩
    (by decide) (fun h => absurd h (by decide)) (by decide) (by decide) (by decide) (by rfl)

/-- The header of a file without data. -/
def newHdr : ZipvfsHdr where
  iFreeSlot := 0
  iDataStart := 456
  iDataEnd := 456
  iGapStart := 0
  iGapEnd := 0
  iSize := 0
  pgsz := 0
  nFreeSlot := 0
  nFreeByte := 0
  nFreeFragment := 0
  iVersion := 1

theorem loadHdr_empty : loadHdr PlainFile.empty = .ok newHdr := by
  have hread : PlainFile.empty.read zipvfsFileheaderReserved 80 = List.replicate 80 0 :=
    PlainFile.empty.read_beyond (Nat.zero_le _) 80
  have hfragment : zipvfsGetI64 (List.replicate 8 0) = 0 := by decide
  rw [loadHdr, hread]
  simp only [hdrOfFields, List.drop_replicate, List.take_replicate, getBytes_replicate,
    Nat.reduceSub, Nat.reduceLeDiff, Nat.min_eq_left, hfragment]
  rfl

end NdsDevkit.Zipvfs
