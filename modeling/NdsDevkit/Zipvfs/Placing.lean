import NdsDevkit.Zipvfs.Freeing

namespace NdsDevkit.Zipvfs

open Framework ZipvfsFile

/-- The contents of the file when a record has been written with its entry and its header. -/
def written (mem : Cells UInt8) (p o : Nat) (blob : List UInt8) (pad : Nat) : Cells UInt8 :=
  ((mem.put (zipvfsPgmapEntry p) (entryBytes o blob.length pad)).put o
    (slotHdrBytes p (blob.length + pad))).put (o + zipvfsSlotHdrSize) blob

/-- A record has been written; nothing else of the connection changes. The file has its bytes. -/
structure WroteTo (z : ZipvfsFile) (p o : Nat) (blob : List UInt8) (pad : Nat) (z' : ZipvfsFile) :
    Prop where
  rest : { z' with file := z.file } = z
  bytes : z'.bytes = written z.bytes p o blob pad
  size : z.file.size ≤ z'.file.size
  covers : z'.Covers o (o + 6 + blob.length)

theorem zipvfsWritePageTo_spec {z : ZipvfsFile} (hz : z.Paged) (p : Nat) {o : Nat}
    {blob : List UInt8} (pad : Nat) (hreach : o + 6 + blob.length ≤ pagerReach) :
    ∃ z', z.zipvfsWritePageTo p o blob pad = .ok (z', o + 6 + blob.length + pad) ∧
      WroteTo z p o blob pad z' := by
  obtain ⟨z1, hrun1, h1⟩ := hz.zipvfsStoreData_spec (zipvfsPgmapEntry p)
    (entryBytes o blob.length pad) (zipvfsPgmapEntry_le p)
  obtain ⟨z2, hrun2, h2⟩ := (h1.paged hz).zipvfsStoreData_spec o
    (slotHdrBytes p (blob.length + pad)) (by rw [length_slotHdrBytes]; omega)
  obtain ⟨z3, hrun3, h3⟩ := (h2.paged (h1.paged hz)).zipvfsStoreData_spec
    (o + zipvfsSlotHdrSize) blob (by rw [zipvfsSlotHdrSize]; omega)
  have hrest := h1.rest
  rw [← h2.rest, ← h3.rest] at hrest
  have hsize := Nat.le_trans h1.size (Nat.le_trans h2.size h3.size)
  have hall := h2.append h3 rfl
  refine ⟨z3, ?_, hrest, ?_, hsize, ?_⟩
  · simp only [ZipvfsFile.zipvfsWritePageTo, hrun1, hrun2, hrun3, bind, Except.bind]
    rfl
  · rw [h3.bytes, h2.bytes, h1.bytes, written]
  · intro i hlow hhigh
    have hcover := hall.covers i hlow
    rw [List.length_append, length_slotHdrBytes] at hcover
    rw [h3.place, h2.place]
    exact hcover (by omega)

section

variable {mem : Cells UInt8} {p o pad : Nat} {blob : List UInt8}

theorem written_other {i : Nat} (h1 : i < zipvfsPgmapEntry p ∨ zipvfsPgmapEntry p + 8 ≤ i)
    (h2 : i < o ∨ o + 6 + blob.length ≤ i) : written mem p o blob pad i = mem i := by
  rw [written, zipvfsSlotHdrSize]
  rw [Cells.put_of_not_mem _ (by omega),
    Cells.put_of_not_mem _ (by rw [length_slotHdrBytes]; omega),
    Cells.put_of_not_mem _ (by rw [length_entryBytes]; omega)]

variable (hp : zipvfsPgmapEntry p + 8 ≤ o)

include hp

theorem mapEntry_written :
    mapEntry (written mem p o blob pad) p = entryBytes o blob.length pad := by
  have hsame := Cells.get_put_same mem (zipvfsPgmapEntry p) (entryBytes o blob.length pad)
  rw [length_entryBytes] at hsame
  rw [mapEntry, written, zipvfsSlotHdrSize, Cells.get_put_apart _ (by omega),
    Cells.get_put_apart _ (by omega), hsame]

omit hp in
theorem slotHdr_written (mem : Cells UInt8) (o : Nat) (hp31 : p < 2 ^ 31)
    (hsize : blob.length + pad < 2 ^ 17) :
    slotPage (written mem p o blob pad) o = p ∧
      slotPayload (written mem p o blob pad) o = blob.length + pad := by
  have hsame := Cells.get_put_same (mem.put (zipvfsPgmapEntry p) (entryBytes o blob.length pad)) o
    (slotHdrBytes p (blob.length + pad))
  rw [length_slotHdrBytes] at hsame
  have hget : (written mem p o blob pad).get o 6 = slotHdrBytes p (blob.length + pad) := by
    rw [written, zipvfsSlotHdrSize, Cells.get_put_apart _ (by omega), hsame]
  rw [slotPage, slotPayload, hget, hdrPage_slotHdrBytes hp31, hdrPayload_slotHdrBytes p hsize]
  exact ⟨rfl, rfl⟩

/-- What is written is a record of the page. -/
theorem recordAt_written (hp31 : p < 2 ^ 31) (hsize : blob.length + pad < 2 ^ 17)
    (hpos : 0 < blob.length) : RecordAt (written mem p o blob pad) p o blob := by
  obtain ⟨hpage, hpayload⟩ := slotHdr_written mem o hp31 hsize
  refine ⟨?_, hpage, hpos, by omega, ?_⟩
  · rw [mapEntry_written hp, hpayload, Nat.add_sub_cancel_left]
  · exact Cells.get_put_same _ _ _

end

/-- In a write transaction a record that was written is found again with its padding, of whatever
size, and its slot knows the page. The entries of the other pages stay as they are, padding
included. -/
theorem zipvfsFindPage_zipvfsWritePageTo {z : ZipvfsFile} (hz : z.Paged)
    (hwrite : 1 < z.inWriteTrans) {iPg iOffset nPadding : Nat} {zBuf : List UInt8}
    (hone : 1 ≤ iPg) (hpg : iPg < 2 ^ 28) (hmap : 200 + 8 * iPg ≤ iOffset)
    (hreach : iOffset + 6 + zBuf.length ≤ pagerReach) (hpos : 0 < zBuf.length)
    (hmin : zipvfsMinPayload ≤ zBuf.length + nPadding)
    (hmax : zBuf.length + nPadding ≤ zipvfsMaxPayload) :
    ∃ z', z.zipvfsWritePageTo iPg iOffset zBuf nPadding =
        .ok (z', iOffset + 6 + zBuf.length + nPadding) ∧
      z'.zipvfsFindPage iPg = .ok (iOffset, zBuf.length) ∧
      z'.findPadding iPg = .ok nPadding ∧
      z'.zipvfsReadSlotHdr iOffset = .ok (iPg, zBuf.length + nPadding) ∧
      z'.zipvfsLoadData (iOffset + 6) zBuf.length = .ok zBuf ∧
      ∀ q, 1 ≤ q → q < 2 ^ 28 → 200 + 8 * q ≤ iOffset → q ≠ iPg →
        z'.pgmapBytes q = z.pgmapBytes q := by
  rw [zipvfsMaxPayload] at hmax
  have hentry : ∀ q, 1 ≤ q → q < 2 ^ 28 → zipvfsPgmapEntry q = 192 + 8 * q := by
    intro q h1 h2
    rw [zipvfsPgmapEntry]
    omega
  obtain ⟨z', hrun, hto⟩ := zipvfsWritePageTo_spec hz iPg nPadding hreach
  have hpaged : z'.Paged := by
    have hpgsz := congrArg ZipvfsFile.nPgsz hto.rest
    obtain ⟨k, h9, h16, hk⟩ := hz
    exact ⟨k, h9, h16, hpgsz.trans hk⟩
  have htrans : z'.inWriteTrans = z.inWriteTrans := (congrArg inWriteTrans hto.rest :)
  have hheader : z'.Loads iOffset 6 := ⟨by omega, .inl (by omega)⟩
  have hbehind : zipvfsPgmapEntry iPg + 8 ≤ iOffset := by
    rw [hentry iPg hone hpg]
    omega
  have hrec : RecordAt (written z.bytes iPg iOffset zBuf nPadding) iPg iOffset zBuf :=
    recordAt_written hbehind (by omega) (by omega) hpos
  have hhdr : slotPage (written z.bytes iPg iOffset zBuf nPadding) iOffset = iPg ∧
      slotPayload (written z.bytes iPg iOffset zBuf nPadding) iOffset = zBuf.length + nPadding :=
    slotHdr_written z.bytes iOffset (by omega) (by omega)
  rw [← hto.bytes] at hrec hhdr
  obtain ⟨hpage, hpayload⟩ := hhdr
  have hslot : zipvfsMinPayload ≤ slotPayload z'.bytes iOffset := by
    rw [hpayload]
    exact hmin
  refine ⟨z', hrun, ?_, ?_, ?_, ?_, ?_⟩
  · have hoff : iOffset < 2 ^ 40 := by
      rw [pagerReach] at hreach
      omega
    rw [zipvfsFindPage_eq hpaged, hrec.entry, entryOffset_entryBytes hoff,
      entrySize_entryBytes (by omega)]
  · rw [findPadding_record hpaged hrec hheader hslot, hpayload]
    congr 1
    omega
  · rw [zipvfsReadSlotHdr_eq hpaged hheader hslot, hpage, hpayload]
  · rw [hpaged.zipvfsLoadData_eq ⟨hreach, .inl (by omega)⟩, hrec.bytes]
  · intro q h1 h2 h3 hne
    have hsame : mapEntry z'.bytes q = mapEntry z.bytes q := by
      apply mapEntry_congr
      intro i hlow hhigh
      rw [hentry q h1 h2] at hlow hhigh
      rw [hto.bytes]
      apply written_other
      · rw [hentry iPg hone hpg]
        omega
      · omega
    rw [pgmapBytes_mapEntry hpaged, pgmapBytes_mapEntry hz, hsame]

theorem zipvfsFindPage_zipvfsWritePageTo_zeroFile :
    ∃ z', zeroFile.zipvfsWritePageTo 3 456 (List.replicate 40 7) 200 = .ok (z', 702) ∧
      z'.zipvfsFindPage 3 = .ok (456, 40) ∧ z'.findPadding 3 = .ok 200 ∧
      z'.zipvfsReadSlotHdr 456 = .ok (3, 240) := by
  obtain ⟨z', hrun, hfind, hpadding, hslot, _⟩ :=
    zipvfsFindPage_zipvfsWritePageTo (z := zeroFile) zeroFile_paged (by decide)
      (show 1 ≤ 3 by decide) (by decide) (show 200 + 8 * 3 ≤ 456 by decide)
      (show 456 + 6 + (List.replicate 40 (7 : UInt8)).length ≤ pagerReach by decide) (by decide)
      (show zipvfsMinPayload ≤ 40 + 200 by decide) (by decide)
  exact ⟨z', hrun, hfind, hpadding, hslot⟩

/-- A place for a record of `n` bytes: the slots `offs'` are slots of `offs` that do not touch it,
with all that are in use, and the place itself. -/
structure Place (z : ZipvfsFile) (p : Nat) (offs offs' : List Nat) (o n : Nat) : Prop where
  start : z.hdr.iDataStart ≤ o
  mem : o ∈ offs'
  keep : ∀ o' ∈ offs', o' ≠ o → o' ∈ offs ∧ (slotEnd z.bytes o' ≤ o ∨ o + 6 + n ≤ o')
  used : ∀ o' ∈ offs, Used z.bytes {p} o' → o' ∈ offs' ∧ o' ≠ o

section

variable {D : List UInt8 → List UInt8 → Prop} {z z' : ZipvfsFile} {offs offs' : List Nat}
  {page : Nat → Option (List UInt8)} {p o pad : Nat} {blob : List UInt8}
  (h : Image D z offs {p} page) (hp : z.InMap p)
  (hplace : Place z p offs offs' o (blob.length + pad))
  (hbytes : z'.bytes = written z.bytes p o blob pad)

include h hp hplace hbytes

theorem written_slot {o' i : Nat} (ho : o' ∈ offs') (hne : o' ≠ o) (h1 : o' ≤ i)
    (h2 : i < slotEnd z.bytes o') : z'.bytes i = z.bytes i := by
  obtain ⟨hmem, hapart⟩ := hplace.keep o' ho hne
  have hlow := (h.slot_bounds hmem).2.1
  have hmap := hp.2
  rw [hbytes]
  apply written_other
  · rw [hp.entry_eq h.mapSize]
    omega
  · omega

theorem written_hdr {o' : Nat} (ho : o' ∈ offs') (hne : o' ≠ o) :
    slotPage z'.bytes o' = slotPage z.bytes o' ∧
      slotPayload z'.bytes o' = slotPayload z.bytes o' := by
  have hend := lt_slotEnd z.bytes o'
  exact slotHdr_congr fun i h1 h2 =>
    written_slot h hp hplace hbytes ho hne h1 (by omega)

theorem written_entry {q : Nat} (hq : z.InMap q) (hne : q ≠ p) :
    ∀ i, zipvfsPgmapEntry q ≤ i → i < zipvfsPgmapEntry q + 8 → z'.bytes i = z.bytes i := by
  intro i h1 h2
  have hstart := hplace.start
  have hpmap := hp.2
  obtain ⟨hq1, hqmap⟩ := hq
  rw [ZipvfsFile.InMap.entry_eq ⟨hq1, hqmap⟩ h.mapSize] at h1 h2
  rw [hbytes]
  apply written_other
  · rw [hp.entry_eq h.mapSize]
    omega
  · omega

/-- The other pages keep their records. -/
theorem stands_written (hgrows : z.Grows z') {q : Nat} (hq : z.InMap q) (hne : q ≠ p) :
    Stands D z' offs' q (page q) := by
  have hold := h.entries q hq hne
  have hentry := written_entry h hp hplace hbytes hq hne
  cases hpage : page q with
  | none =>
    rw [hpage, Stands] at hold
    rw [Stands, mapEntry_congr hentry, hold]
  | some c =>
    rw [hpage] at hold
    obtain ⟨o', blob', ho', hrec, hcovers, hD⟩ := hold
    obtain ⟨hmem, hother⟩ := hplace.used o' ho' (hrec.used (h.slot_bounds ho').2.2.2 hne)
    have hfits := hrec.fits
    refine ⟨o', blob', hmem, hrec.congr hentry ?_, hcovers.grows hgrows, hD⟩
    intro i h1 h2
    apply written_slot h hp hplace hbytes hmem hother h1
    rw [slotEnd, zipvfsSlotHdrSize]
    omega

variable (hsize : blob.length + pad < 2 ^ 17) (ho40 : o < 2 ^ 40)

include hsize ho40

omit hsize in
theorem used_written {o' : Nat} (ho : o' ∈ offs') (hne : o' ≠ o) :
    Used z'.bytes ∅ o' ↔ Used z.bytes {p} o' := by
  have hpage := (written_hdr h hp hplace hbytes ho hne).1
  have hmem := (hplace.keep o' ho hne).1
  have hmap := hp.2
  have hstart := hplace.start
  rw [Used, Used, hpage]
  by_cases heq : slotPage z.bytes o' = p
  · have hoff : entryOffset (mapEntry z'.bytes p) = o := by
      rw [hbytes, mapEntry_written (by rw [hp.entry_eq h.mapSize]; omega),
        entryOffset_entryBytes ho40]
    rw [heq, hoff]
    constructor
    · intro hu
      exact absurd hu.2.symm hne
    · intro hu
      exact absurd rfl hu.1
  · rw [mapEntry_congr (written_entry h hp hplace hbytes (h.slots o' hmem).2 heq)]
    exact ⟨fun hu => ⟨heq, hu.2⟩, fun hu => ⟨Set.notMem_empty _, hu.2⟩⟩

theorem freeSlots_written : freeSlots z'.bytes offs' ∅ =
    {s | s ∈ freeSlots z.bytes offs {p} ∧ s.1 ∈ offs' ∧ s.1 ≠ o} := by
  have hp31 := hp.lt h.mapSize
  obtain ⟨hpage, _⟩ := slotHdr_written z.bytes o hp31 hsize
  have hmap := hp.2
  have hstart := hplace.start
  have hoff : Used z'.bytes ∅ o := by
    rw [Used, hbytes, hpage, mapEntry_written (by rw [hp.entry_eq h.mapSize]; omega),
      entryOffset_entryBytes ho40]
    exact ⟨Set.notMem_empty _, rfl⟩
  apply Set.ext
  intro s
  constructor
  · intro hs
    obtain ⟨h1, h2, h3⟩ := hs
    have hne : s.1 ≠ o := by
      intro heq
      rw [heq] at h2
      exact h2 hoff
    rw [(written_hdr h hp hplace hbytes h1 hne).2] at h3
    rw [used_written h hp hplace hbytes ho40 h1 hne] at h2
    exact ⟨⟨(hplace.keep _ h1 hne).1, h2, h3⟩, h1, hne⟩
  · intro hs
    obtain ⟨⟨_, h2, h3⟩, h1, hne⟩ := hs
    rw [← (written_hdr h hp hplace hbytes h1 hne).2] at h3
    rw [← used_written h hp hplace hbytes ho40 h1 hne] at h2
    exact ⟨h1, h2, h3⟩

omit ho40 in
/-- The file holds the page that was written, and all others as before. -/
theorem Image.written {c : List UInt8} (hD : D blob c) (hpos : 0 < blob.length)
    (hmin : zipvfsMinPayload ≤ blob.length + pad) (hpaged : z'.Paged) (hgrows : z.Grows z')
    (hcovers : z'.Covers o (o + 6 + blob.length))
    (hstart : z'.hdr.iDataStart = z.hdr.iDataStart) (hlayout : z'.Layout offs')
    (hend : z'.hdr.iDataEnd ≤ pagerReach) (hinside : o + 6 + blob.length ≤ z'.hdr.iDataEnd)
    (htail : page 1 ≠ none ∨
      z'.hdr.iGapStart = z.hdr.iGapStart ∧ z.hdr.iDataEnd ≤ z'.hdr.iDataEnd) :
    Image D z' offs' ∅ (Function.update page p (some c)) := by
  have hp31 := hp.lt h.mapSize
  obtain ⟨hpage, hpayload⟩ := slotHdr_written z.bytes o hp31 hsize
  have hmap := hp.2
  have hplow := hplace.start
  have hentry : zipvfsPgmapEntry p + 8 ≤ o := by
    rw [hp.entry_eq h.mapSize]
    omega
  have hin : ∀ q, z'.InMap q ↔ z.InMap q := by
    intro q
    rw [InMap, InMap, hstart]
  refine ⟨hpaged, hlayout, by rw [hstart]; exact h.dataStart, by rw [hstart]; exact h.mapSize, hend,
    ?_, ?_, ?_, ?_, ?_⟩
  · intro o' ho
    by_cases heq : o' = o
    · rw [heq, hbytes, hpage, hpayload, hin]
      exact ⟨hmin, hp⟩
    · obtain ⟨hp', hs'⟩ := written_hdr h hp hplace hbytes ho heq
      rw [hp', hs', hin]
      exact h.slots o' (hplace.keep o' ho heq).1
  · intro q hq _
    by_cases heq : q = p
    · subst heq
      rw [Function.update_self]
      refine ⟨o, blob, hplace.mem, ?_, hcovers, hD⟩
      rw [hbytes]
      exact recordAt_written hentry hp31 hsize hpos
    · rw [Function.update_of_ne heq]
      exact stands_written h hp hplace hbytes hgrows ((hin q).mp hq) heq
  · intro q hq
    rw [hin]
    by_cases heq : q = p
    · rw [heq]
      exact hp
    · rw [Function.update_of_ne heq] at hq
      exact h.inMap q hq
  · intro i h1 h2
    rw [hstart] at h1 h2
    rw [hbytes, written_other (by rw [hp.entry_eq h.mapSize]; omega) (by omega)]
    exact h.slack i h1 h2
  · by_cases hone : Function.update page p (some c) 1 = none
    · have h1p : (1 : Nat) ≠ p := by
        intro heq
        rw [heq, Function.update_self] at hone
        cases hone
      rw [Function.update_of_ne h1p] at hone
      have hzero := h.tail.resolve_right fun hne => hne hone
      obtain ⟨hgs, hle⟩ := htail.resolve_left fun hne => hne hone
      refine .inl ⟨by rw [hgs]; exact hzero.1, ?_⟩
      intro i hi
      rw [hbytes, written_other (by rw [hp.entry_eq h.mapSize]; omega) (by omega)]
      exact hzero.2 i (by omega)
    · exact .inr hone

/-- The free-slot list is as before. -/
theorem written_free {fl : FreeList} {Free : ZipvfsFile → Set (Nat × Nat) → Prop}
    (hfl : fl.Keeps Free) {z₀ : ZipvfsFile} (hz₀ : z₀.bytes = z.bytes)
    (hlist : z'.hdr.iFreeSlot = z₀.hdr.iFreeSlot ∧ z'.hdr.nFreeSlot = z₀.hdr.nFreeSlot ∧
      z'.hdr.nFreeByte = z₀.hdr.nFreeByte)
    (hfree : Free z₀ {s | s ∈ freeSlots z.bytes offs {p} ∧ s.1 ∈ offs' ∧ s.1 ≠ o}) :
    Free z' (freeSlots z'.bytes offs' ∅) := by
  rw [freeSlots_written h hp hplace hbytes hsize ho40]
  apply hfl.congr z₀ z' _ hfree hlist
  intro s hs i h1 h2
  obtain ⟨⟨_, _, hpayload⟩, hmem, hne⟩ := hs
  rw [hz₀]
  apply written_slot h hp hplace hbytes hmem hne h1
  rw [slotEnd, zipvfsSlotHdrSize, ← hpayload]
  exact h2

end

end NdsDevkit.Zipvfs
