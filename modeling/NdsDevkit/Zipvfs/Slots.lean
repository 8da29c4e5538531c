import NdsDevkit.Framework.BigEndian
import NdsDevkit.Framework.ByteField
import NdsDevkit.Zipvfs.Pager

namespace NdsDevkit.Zipvfs

open Framework

def zipvfsMinPayload : Nat := 37
def zipvfsMaxPayload : Nat := 2 ^ 17 - 1
def zipvfsSlotHdrSize : Nat := 6

/-- The offset of the entry of a page in the page map. The product wraps at 32 bits. -/
def zipvfsPgmapEntry (iPg : Nat) : Nat := ((iPg - 1) * 8 + 100 + 100) % 2 ^ 32

/-- An entry: 40 bits of offset, 17 bits of record size, 7 bits of padding. -/
def entryBytes (iOffset nBuf nPadding : Nat) : List UInt8 :=
  [UInt8.ofNat (iOffset >>> 32), UInt8.ofNat (iOffset >>> 24), UInt8.ofNat (iOffset >>> 16),
    UInt8.ofNat (iOffset >>> 8), UInt8.ofNat iOffset, UInt8.ofNat (nBuf >>> 9),
    UInt8.ofNat (nBuf >>> 1),
    UInt8.ofNat (nBuf <<< 7 &&& 0x80) ||| UInt8.ofNat (if nPadding < 127 then nPadding else 0x7F)]

/-- A slot header: 31 bits of page number, 17 bits of slot size. -/
def slotHdrBytes (iPg nSlot : Nat) : List UInt8 :=
  [UInt8.ofNat (iPg >>> 23), UInt8.ofNat (iPg >>> 15), UInt8.ofNat (iPg >>> 7),
    UInt8.ofNat (iPg <<< 1 &&& 0xFE) ||| UInt8.ofNat (nSlot >>> 16 &&& 0x01),
    UInt8.ofNat (nSlot >>> 8), UInt8.ofNat nSlot]

/-- The page number in a slot header. -/
def hdrPage (a : List UInt8) : Nat :=
  ((a.getD 0 0).toNat <<< 23 &&& 0x7F800000) + ((a.getD 1 0).toNat <<< 15 &&& 0x007F8000) +
    ((a.getD 2 0).toNat <<< 7 &&& 0x00007F80) + ((a.getD 3 0).toNat >>> 1 &&& 0x0000007F)

/-- The payload size in a slot header. -/
def hdrPayload (a : List UInt8) : Nat :=
  ((a.getD 3 0).toNat <<< 16 &&& 0x00010000) + ((a.getD 4 0).toNat <<< 8 &&& 0x0000FF00) +
    ((a.getD 5 0).toNat <<< 0 &&& 0x000000FF)

namespace ZipvfsFile

/-- The page number and the payload size of a slot. -/
def zipvfsReadSlotHdr (z : ZipvfsFile) (iOffset : Nat) : Except ErrorCode (Nat × Nat) := do
  let aHdr ← z.zipvfsLoadData iOffset 6
  if hdrPayload aHdr < zipvfsMinPayload then throw .ZIPVFS_CORRUPT
  else return (hdrPage aHdr, hdrPayload aHdr)

/-- The page map entry of a page, read through the page that it lies on. -/
def pgmapBytes (z : ZipvfsFile) (iPage : Nat) : Except ErrorCode (List UInt8) := do
  let iOff := zipvfsPgmapEntry iPage
  let iMapPg := (iOff / z.nPgsz + 1) % 2 ^ 32
  let pPg ← z.zipvfsPagerAcquire iMapPg
  return z.file.read (pPg + (iOff - (iMapPg - 1) * z.nPgsz)) 8

def entryOffset (aEntry : List UInt8) : Nat := getBytes (aEntry.take 5)

def entrySize (aEntry : List UInt8) : Nat :=
  (aEntry.getD 5 0).toNat <<< 9 + (aEntry.getD 6 0).toNat <<< 1 +
    (if aEntry.getD 7 0 &&& 0x80 ≠ 0 then 1 else 0)

/-- The offset and the size of the record of a page; the offset is 0 without a record. -/
def zipvfsFindPage (z : ZipvfsFile) (iPage : Nat) : Except ErrorCode (Nat × Nat) := do
  let aEntry ← z.pgmapBytes iPage
  return (entryOffset aEntry, entrySize aEntry)

/-- `*pnPadding`: the bytes behind the record, which the slot itself knows when they are many. -/
def findPadding (z : ZipvfsFile) (iPage : Nat) : Except ErrorCode Int := do
  let aEntry ← z.pgmapBytes iPage
  if aEntry.getD 7 0 &&& 0x7F = 0x7F then
    let (_, nPayload) ← z.zipvfsReadSlotHdr (entryOffset aEntry)
    return nPayload - entrySize aEntry
  else return (aEntry.getD 7 0 &&& 0x7F).toNat

/-- Writes a record with its page map entry and its slot header; the result is also the offset
behind the slot. -/
def zipvfsWritePageTo (z : ZipvfsFile) (iPg iOffset : Nat) (zBuf : List UInt8) (nPadding : Nat) :
    Except ErrorCode (ZipvfsFile × Nat) := do
  let nSlot := zBuf.length + nPadding
  let z ← z.zipvfsStoreData (zipvfsPgmapEntry iPg) (entryBytes iOffset zBuf.length nPadding)
  let z ← z.zipvfsStoreData iOffset (slotHdrBytes iPg nSlot)
  let z ← z.zipvfsStoreData (iOffset + zipvfsSlotHdrSize) zBuf
  return (z, iOffset + zipvfsSlotHdrSize + zBuf.length + nPadding)

end ZipvfsFile

/-- The entries of the page map lie within the reach of the pager. -/
theorem zipvfsPgmapEntry_le (iPg : Nat) : zipvfsPgmapEntry iPg + 8 ≤ ZipvfsFile.pagerReach := by
  have hlt := Nat.mod_lt ((iPg - 1) * 8 + 100 + 100) (show 0 < 2 ^ 32 by decide)
  rw [zipvfsPgmapEntry, ZipvfsFile.pagerReach]
  omega

/-- A page map entry does not cross a page. -/
theorem ZipvfsFile.Paged.pgmapBytes_eq {z : ZipvfsFile} (h : z.Paged) (iPage : Nat) :
    z.pgmapBytes iPage = .ok (z.bytes.get (zipvfsPgmapEntry iPage) 8) := by
  have hreach := zipvfsPgmapEntry_le iPage
  have hentry : 8 ∣ zipvfsPgmapEntry iPage := by
    rw [zipvfsPgmapEntry]
    omega
  rw [ZipvfsFile.pgmapBytes]
  generalize zipvfsPgmapEntry iPage = o at hentry hreach
  obtain ⟨pPg, hpage, hplace⟩ := h.zipvfsPagerAcquire_eq (o := o) (by omega)
  have hless := (h.pagerPage_spec (o := o) (by omega)).1
  obtain ⟨a, ha⟩ := h.aligned
  obtain ⟨b, rfl⟩ := hentry
  have hmod := Nat.mod_lt (8 * b) h.pos
  have hdiv := Nat.div_add_mod (8 * b) z.nPgsz
  have hoff : 8 * b - (8 * b / z.nPgsz + 1 - 1) * z.nPgsz = 8 * b % z.nPgsz := by
    rw [Nat.add_sub_cancel, Nat.mul_comm (8 * b / z.nPgsz)]
    omega
  have hfits : 8 * b % z.nPgsz + 8 ≤ z.nPgsz := by
    rw [ha, Nat.mul_mod_mul_left]
    rw [ha, Nat.mul_mod_mul_left] at hmod
    omega
  simp only [hpage, bind, Except.bind]
  rw [Nat.mod_eq_of_lt hless, hoff, hplace, h.readFile_eq hfits]
  rfl

theorem toNat_high_or_low (a : Nat) {b : Nat} (h : b < 128) :
    (UInt8.ofNat (a <<< 7 &&& 0x80) ||| UInt8.ofNat b).toNat = a % 2 * 128 + b := by
  have hhigh : a <<< 7 &&& 0x80 = a % 2 * 128 := by
    rw [show 0x80 = 1 <<< 7 from rfl, and_shifted_mask, Nat.shiftLeft_shiftRight,
      Nat.and_one_is_mod, Nat.shiftLeft_eq]
    rfl
  have hall : ∀ c < 2, ∀ b < 128,
      (UInt8.ofNat (c * 128) ||| UInt8.ofNat b).toNat = c * 128 + b := by decide +kernel
  rw [hhigh]
  exact hall (a % 2) (Nat.mod_lt _ (by decide)) b h

theorem toNat_page_or_slot (a b : Nat) :
    (UInt8.ofNat (a <<< 1 &&& 0xFE) ||| UInt8.ofNat (b &&& 0x01)).toNat =
      a % 128 * 2 + b % 2 := by
  have hpage : a <<< 1 &&& 0xFE = a % 128 * 2 := by
    rw [show 0xFE = 0x7F <<< 1 from rfl, and_shifted_mask, Nat.shiftLeft_shiftRight,
      show 0x7F = 2 ^ 7 - 1 from rfl, Nat.and_two_pow_sub_one_eq_mod, Nat.shiftLeft_eq]
  have hall : ∀ c < 128, ∀ b < 2,
      (UInt8.ofNat (c * 2) ||| UInt8.ofNat b).toNat = c * 2 + b := by decide +kernel
  rw [hpage, Nat.and_one_is_mod]
  exact hall (a % 128) (Nat.mod_lt _ (by decide)) (b % 2) (Nat.mod_lt _ (by decide))

theorem and_0x80_ne_zero (b : UInt8) : b &&& 0x80 ≠ 0 ↔ 128 ≤ b.toNat := by
  apply forall_byte (P := fun b => b &&& 0x80 ≠ 0 ↔ 128 ≤ b.toNat)
  decide +kernel

theorem toNat_and_0x7F (b : UInt8) : (b &&& 0x7F).toNat = b.toNat % 128 := by
  rw [UInt8.toNat_and]
  exact Nat.and_two_pow_sub_one_eq_mod b.toNat 7

/-- The masks keep a shifted byte as it is. -/
theorem shiftLeft_and_mask (b : UInt8) (k : Nat) :
    b.toNat <<< k &&& 0xff <<< k = b.toNat * 2 ^ k := by
  have hb := b.toNat_lt
  rw [and_shifted_mask, Nat.shiftLeft_shiftRight, and_byte, Nat.mod_eq_of_lt hb, Nat.shiftLeft_eq]

section

open ZipvfsFile

@[simp] theorem length_entryBytes (o n p : Nat) : (entryBytes o n p).length = 8 := rfl

@[simp] theorem length_slotHdrBytes (p n : Nat) : (slotHdrBytes p n).length = 6 := rfl

theorem entryOffset_entryBytes {o : Nat} (h : o < 2 ^ 40) (n p : Nat) :
    entryOffset (entryBytes o n p) = o :=
  getBytes_putBytes (n := 5) h

theorem toNat_entryBytes_last (o n p : Nat) :
    ((entryBytes o n p).getD 7 0).toNat = n % 2 * 128 + min p 127 := by
  have hpad : (if p < 127 then p else 0x7F) = min p 127 := by split <;> omega
  have hlast := toNat_high_or_low n (b := min p 127) (by omega)
  rw [← hpad] at hlast
  rw [← hpad]
  exact hlast

theorem entrySize_entryBytes {n : Nat} (h : n < 2 ^ 17) (o p : Nat) :
    entrySize (entryBytes o n p) = n := by
  have hbit : (if (entryBytes o n p).getD 7 0 &&& 0x80 ≠ 0 then 1 else 0) = n % 2 := by
    simp only [and_0x80_ne_zero, toNat_entryBytes_last]
    split <;> omega
  rw [entrySize, hbit]
  simp only [entryBytes, List.getD_cons_succ, List.getD_cons_zero, UInt8.toNat_ofNat',
    Nat.shiftRight_eq_div_pow, Nat.shiftLeft_eq]
  omega

/-- The padding field holds what is below 127. -/
theorem entryPadding_entryBytes (o n p : Nat) :
    ((entryBytes o n p).getD 7 0 &&& 0x7F).toNat = min p 127 := by
  rw [toNat_and_0x7F, toNat_entryBytes_last]
  omega

theorem hdrPage_slotHdrBytes {p : Nat} (h : p < 2 ^ 31) (n : Nat) :
    hdrPage (slotHdrBytes p n) = p := by
  have hlast := toNat_page_or_slot p (n >>> 16)
  have h0 := shiftLeft_and_mask (UInt8.ofNat (p >>> 23)) 23
  have h1 := shiftLeft_and_mask (UInt8.ofNat (p >>> 15)) 15
  have h2 := shiftLeft_and_mask (UInt8.ofNat (p >>> 7)) 7
  simp only [hdrPage, slotHdrBytes, List.getD_cons_succ, List.getD_cons_zero, hlast]
  rw [show 0x7F800000 = 0xff <<< 23 from rfl, show 0x007F8000 = 0xff <<< 15 from rfl,
    show 0x00007F80 = 0xff <<< 7 from rfl, h0, h1, h2,
    show 0x0000007F = 2 ^ 7 - 1 from rfl, Nat.and_two_pow_sub_one_eq_mod]
  simp only [UInt8.toNat_ofNat', Nat.shiftRight_eq_div_pow]
  omega

theorem hdrPayload_slotHdrBytes (p : Nat) {n : Nat} (h : n < 2 ^ 17) :
    hdrPayload (slotHdrBytes p n) = n := by
  have hlast := toNat_page_or_slot p (n >>> 16)
  have h1 := shiftLeft_and_mask (UInt8.ofNat (n >>> 8)) 8
  have h2 := shiftLeft_and_mask (UInt8.ofNat n) 0
  simp only [hdrPayload, slotHdrBytes, List.getD_cons_succ, List.getD_cons_zero, hlast]
  rw [show 0x00010000 = 1 <<< 16 from rfl, show 0x0000FF00 = 0xff <<< 8 from rfl, h1,
    show 0x000000FF = 0xff <<< 0 from rfl, h2, and_shifted_mask, Nat.shiftLeft_shiftRight,
    Nat.and_one_is_mod]
  simp only [UInt8.toNat_ofNat', Nat.shiftRight_eq_div_pow, Nat.shiftLeft_eq]
  omega

end

end NdsDevkit.Zipvfs
