import NdsDevkit.Zipvfs.FreeSlots

namespace NdsDevkit.Zipvfs

open Framework ZipvfsFile

/-- What stays the same while data move inside the file. -/
structure Inner (z z' : ZipvfsFile) : Prop where
  nPgsz : z'.nPgsz = z.nPgsz
  inWriteTrans : z'.inWriteTrans = z.inWriteTrans
  nUsrPage : z'.nUsrPage = z.nUsrPage
  nMaxFree : z'.nMaxFree = z.nMaxFree
  nCompressionBuffer : z'.nCompressionBuffer = z.nCompressionBuffer
  iSize : z'.hdr.iSize = z.hdr.iSize
  pgsz : z'.hdr.pgsz = z.hdr.pgsz
  iVersion : z'.hdr.iVersion = z.hdr.iVersion
  size : z.file.size ≤ z'.file.size
  head : ∀ i, i < 200 → z'.bytes i = z.bytes i

namespace Inner

variable {z z' z'' : ZipvfsFile}

theorem refl (z : ZipvfsFile) : Inner z z :=
  ⟨rfl, rfl, rfl, rfl, rfl, rfl, rfl, rfl, Nat.le_refl _, fun _ _ => rfl⟩

theorem trans (h : Inner z z') (h' : Inner z' z'') : Inner z z'' where
  nPgsz := h'.nPgsz.trans h.nPgsz
  inWriteTrans := h'.inWriteTrans.trans h.inWriteTrans
  nUsrPage := h'.nUsrPage.trans h.nUsrPage
  nMaxFree := h'.nMaxFree.trans h.nMaxFree
  nCompressionBuffer := h'.nCompressionBuffer.trans h.nCompressionBuffer
  iSize := h'.iSize.trans h.iSize
  pgsz := h'.pgsz.trans h.pgsz
  iVersion := h'.iVersion.trans h.iVersion
  size := Nat.le_trans h.size h'.size
  head := fun i hi => (h'.head i hi).trans (h.head i hi)

theorem paged (h : Inner z z') (hz : z.Paged) : z'.Paged := by
  obtain ⟨k, h1, h2, hk⟩ := hz
  exact ⟨k, h1, h2, by rw [h.nPgsz, hk]⟩

theorem grows (h : Inner z z') : z.Grows z' := by
  intro i hi
  rw [place_congr h.nPgsz h.iVersion]
  exact Nat.lt_of_lt_of_le hi h.size

theorem write (h : Inner z z') (hwrite : 1 < z.inWriteTrans) : 1 < z'.inWriteTrans := by
  rw [h.inWriteTrans]
  exact hwrite

end Inner

theorem ZipvfsHdr.SameArea.trans {a b c : ZipvfsHdr} (h : a.SameArea b) (h' : b.SameArea c) :
    a.SameArea c := by
  obtain ⟨h1, h2, h3, h4⟩ := h
  obtain ⟨h1', h2', h3', h4'⟩ := h'
  exact ⟨h1'.trans h1, h2'.trans h2, h3'.trans h3, h4'.trans h4⟩

theorem Untouched.inner {S : Set (Nat × Nat)} {z z' : ZipvfsFile} (h : Untouched S z z')
    (hS : ∀ s ∈ S, 200 ≤ s.1) : Inner z z' := by
  have hn := congrArg ZipvfsFile.nPgsz h.rest
  have ht := congrArg ZipvfsFile.inWriteTrans h.rest
  have hu := congrArg ZipvfsFile.nUsrPage h.rest
  have hm := congrArg ZipvfsFile.nMaxFree h.rest
  have hb := congrArg ZipvfsFile.nCompressionBuffer h.rest
  have hs := congrArg (fun z => z.hdr.iSize) h.rest
  have hp := congrArg (fun z => z.hdr.pgsz) h.rest
  have hv := congrArg (fun z => z.hdr.iVersion) h.rest
  refine ⟨hn, ht, hu, hm, hb, hs, hp, hv, h.size, ?_⟩
  intro i hi
  apply h.bytes
  intro s hmem
  have hlow := hS s hmem
  exact .inl (by omega)

/-- Storing data keeps the header. -/
theorem ZipvfsFile.Stored.hdr_eq {z z' : ZipvfsFile} {o : Nat} {bs : List UInt8}
    (h : Stored z o bs z') : z'.hdr = z.hdr :=
  (congrArg ZipvfsFile.hdr h.rest :)

/-- Storing data behind the header. -/
theorem ZipvfsFile.Stored.inner {z z' : ZipvfsFile} {o : Nat} {bs : List UInt8}
    (h : Stored z o bs z') (hoff : 200 ≤ o) : Inner z z' := by
  have hhdr := h.hdr_eq
  have hn := congrArg ZipvfsFile.nPgsz h.rest
  have ht := congrArg ZipvfsFile.inWriteTrans h.rest
  have hu := congrArg ZipvfsFile.nUsrPage h.rest
  have hm := congrArg ZipvfsFile.nMaxFree h.rest
  have hb := congrArg ZipvfsFile.nCompressionBuffer h.rest
  refine ⟨hn, ht, hu, hm, hb, congrArg ZipvfsHdr.iSize hhdr, congrArg ZipvfsHdr.pgsz hhdr,
    congrArg ZipvfsHdr.iVersion hhdr, h.size, ?_⟩
  intro i hi
  rw [h.bytes]
  exact Cells.put_of_not_mem _ (.inl (by omega))

section

variable {D : List UInt8 → List UInt8 → Prop} {z : ZipvfsFile} {offs : List Nat} {ex : Set Nat}
  {page : Nat → Option (List UInt8)} {p : Nat}

theorem pgmapBytes_mapEntry (hz : z.Paged) (p : Nat) :
    z.pgmapBytes p = .ok (mapEntry z.bytes p) := by
  rw [hz.pgmapBytes_eq, mapEntry]

theorem zipvfsFindPage_eq (hz : z.Paged) (p : Nat) : z.zipvfsFindPage p =
    .ok (entryOffset (mapEntry z.bytes p), entrySize (mapEntry z.bytes p)) := by
  rw [zipvfsFindPage, pgmapBytes_mapEntry hz]
  rfl

theorem zipvfsReadSlotHdr_eq (hz : z.Paged) {o : Nat} (hload : z.Loads o 6)
    (hmin : zipvfsMinPayload ≤ slotPayload z.bytes o) :
    z.zipvfsReadSlotHdr o = .ok (slotPage z.bytes o, slotPayload z.bytes o) := by
  rw [slotPayload] at hmin
  simp only [zipvfsReadSlotHdr, hz.zipvfsLoadData_eq hload, bind, Except.bind]
  rw [if_neg (by omega)]
  rfl

theorem findPadding_zero (hz : z.Paged) (h : mapEntry z.bytes p = List.replicate 8 0) :
    z.findPadding p = .ok 0 := by
  rw [ZipvfsFile.findPadding, pgmapBytes_mapEntry hz, h]
  rfl

/-- Up to 126 bytes of padding are in the entry; more follow from the header of the slot. -/
theorem findPadding_record (hz : z.Paged) {o : Nat} {blob : List UInt8}
    (h : RecordAt z.bytes p o blob) (hload : z.Loads o 6)
    (hmin : zipvfsMinPayload ≤ slotPayload z.bytes o) :
    z.findPadding p = .ok (slotPayload z.bytes o - blob.length : Int) := by
  have ho : o < 2 ^ 40 := by
    have hreach := hload.1
    rw [pagerReach] at hreach
    omega
  have hlt := slotPayload_lt z.bytes o
  have hfits := h.fits
  have hpad := entryPadding_entryBytes o blob.length (slotPayload z.bytes o - blob.length)
  have hoff := entryOffset_entryBytes ho blob.length (slotPayload z.bytes o - blob.length)
  have hsize := entrySize_entryBytes (n := blob.length) (by omega) o
    (slotPayload z.bytes o - blob.length)
  simp only [ZipvfsFile.findPadding, pgmapBytes_mapEntry hz, h.entry, hoff, hsize, bind,
    Except.bind]
  by_cases hbig : 127 ≤ slotPayload z.bytes o - blob.length
  · rw [Nat.min_eq_right hbig] at hpad
    rw [if_pos (UInt8.toNat.inj hpad), zipvfsReadSlotHdr_eq hz hload hmin]
    rfl
  · have hne : (entryBytes o blob.length (slotPayload z.bytes o - blob.length)).getD 7 0 &&& 0x7F ≠
        0x7F := by
      intro heq
      rw [heq] at hpad
      have h127 : (0x7F : UInt8).toNat = 127 := rfl
      omega
    rw [if_neg hne, hpad, Nat.min_eq_left (by omega), Int.ofNat_sub hfits]
    rfl

namespace Image

variable (h : Image D z offs ex page)

include h

theorem entry_none (hp : z.InMap p) (hex : p ∉ ex) (hpage : page p = none) :
    mapEntry z.bytes p = List.replicate 8 0 := by
  have hentry := h.entries p hp hex
  rw [hpage] at hentry
  exact hentry

theorem entry_some (hp : z.InMap p) (hex : p ∉ ex) {c : List UInt8} (hpage : page p = some c) :
    ∃ o blob, o ∈ offs ∧ RecordAt z.bytes p o blob ∧ z.Covers o (o + 6 + blob.length) ∧
      D blob c := by
  have hentry := h.entries p hp hex
  rw [hpage] at hentry
  exact hentry

theorem findPage_none (hp : z.InMap p) (hex : p ∉ ex) (hpage : page p = none) :
    z.zipvfsFindPage p = .ok (0, 0) ∧ z.findPadding p = .ok 0 := by
  have hentry := h.entry_none hp hex hpage
  refine ⟨?_, findPadding_zero h.paged hentry⟩
  rw [zipvfsFindPage_eq h.paged, hentry]
  rfl

theorem findPage_record {o : Nat} {blob : List UInt8} (ho : o ∈ offs)
    (hrec : RecordAt z.bytes p o blob) : z.zipvfsFindPage p = .ok (o, blob.length) := by
  have hoff := (h.slot_bounds ho).2.2.2
  have hlt := slotPayload_lt z.bytes o
  have hfits := hrec.fits
  rw [zipvfsFindPage_eq h.paged, hrec.entry, entryOffset_entryBytes hoff,
    entrySize_entryBytes (by omega)]

/-- In a write transaction a slot can be loaded, or a part of it. -/
theorem loads (hwrite : 1 < z.inWriteTrans) {o k n : Nat} (ho : o ∈ offs)
    (hn : k + n ≤ 6 + slotPayload z.bytes o) : z.Loads (o + k) n := by
  have hhigh := (h.slot_bounds ho).2.2.1
  have hend := h.dataEnd
  rw [slotEnd, zipvfsSlotHdrSize] at hhigh
  exact ⟨by omega, .inl hwrite⟩

variable (hwrite : 1 < z.inWriteTrans)

include hwrite

theorem padding_record {o : Nat} {blob : List UInt8} (ho : o ∈ offs)
    (hrec : RecordAt z.bytes p o blob) :
    z.findPadding p = .ok (slotPayload z.bytes o - blob.length : Int) :=
  findPadding_record h.paged hrec (h.loads hwrite (k := 0) ho (by omega)) (h.slots o ho).1

theorem readSlotHdr {o : Nat} (ho : o ∈ offs) :
    z.zipvfsReadSlotHdr o = .ok (slotPage z.bytes o, slotPayload z.bytes o) :=
  zipvfsReadSlotHdr_eq h.paged (h.loads hwrite (k := 0) ho (by omega)) (h.slots o ho).1

/-- The record is loaded from its slot, into a buffer that is large enough. -/
theorem loadRecord {o nBuf : Nat} {blob : List UInt8} (ho : o ∈ offs)
    (hrec : RecordAt z.bytes p o blob) (hbuf : blob.length ≤ nBuf) :
    loadBuffer z nBuf (o + 6) blob.length = .ok blob := by
  have hfits := hrec.fits
  rw [loadBuffer, if_neg (by omega), h.paged.zipvfsLoadData_eq (h.loads hwrite ho (by omega)),
    hrec.bytes]

end Image

end

end NdsDevkit.Zipvfs
