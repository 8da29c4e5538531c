import NdsDevkit.Zipvfs.Layout
import NdsDevkit.Zipvfs.Store

namespace NdsDevkit.Zipvfs

open Framework ZipvfsFile

/-- The fields that describe the data area. -/
def ZipvfsHdr.SameArea (hdr hdr' : ZipvfsHdr) : Prop :=
  hdr'.iDataStart = hdr.iDataStart ∧ hdr'.iDataEnd = hdr.iDataEnd ∧
    hdr'.iGapStart = hdr.iGapStart ∧ hdr'.iGapEnd = hdr.iGapEnd

section

variable {D : List UInt8 → List UInt8 → Prop} {z z' : ZipvfsFile} {offs : List Nat} {ex : Set Nat}
  {page : Nat → Option (List UInt8)}

namespace Image

variable (h : Image D z offs ex page)

include h

theorem apart_map {i : Nat} (hi : i < z.hdr.iDataStart) :
    Apart (freeSlots z.bytes offs ex) i := by
  intro s hs
  have hlow := (h.slot_bounds hs.1).2.1
  exact .inl (by omega)

theorem apart_end {i : Nat} (hi : z.hdr.iDataEnd ≤ i) : Apart (freeSlots z.bytes offs ex) i := by
  intro s hs
  have hhigh := (h.slot_bounds hs.1).2.2.1
  rw [slotEnd, zipvfsSlotHdrSize, ← hs.2.2] at hhigh
  exact .inr (by omega)

/-- The header of a slot is not part of a payload. -/
theorem apart_hdr {o i : Nat} (ho : o ∈ offs) (h1 : o ≤ i) (h2 : i < o + 6) :
    Apart (freeSlots z.bytes offs ex) i := by
  intro s hs
  by_cases heq : s.1 = o
  · exact .inl (by omega)
  · have hend := lt_slotEnd z.bytes o
    have hne := h.layout.apart hs.1 ho heq
    rw [slotEnd, zipvfsSlotHdrSize, ← hs.2.2] at hne
    rcases hne with hne | hne
    · exact .inr (by omega)
    · exact .inl (by omega)

theorem apart_used {o i : Nat} (ho : o ∈ offs) (hused : Used z.bytes ex o) (h1 : o ≤ i)
    (h2 : i < slotEnd z.bytes o) : Apart (freeSlots z.bytes offs ex) i := by
  intro s hs
  have hdiff : s.1 ≠ o := by
    intro heq
    apply hs.2.1
    rw [heq]
    exact hused
  have hne := h.layout.apart hs.1 ho hdiff
  rw [slotEnd, zipvfsSlotHdrSize, ← hs.2.2] at hne
  rcases hne with hne | hne
  · exact .inr (by omega)
  · exact .inl (by omega)

section

variable (hbytes : ∀ i, 200 ≤ i → Apart (freeSlots z.bytes offs ex) i → z'.bytes i = z.bytes i)

include hbytes

theorem agree_hdr {o : Nat} (ho : o ∈ offs) :
    slotPage z'.bytes o = slotPage z.bytes o ∧ slotPayload z'.bytes o = slotPayload z.bytes o := by
  apply slotHdr_congr
  intro i h1 h2
  have hlow := (h.slot_bounds ho).1
  exact hbytes i (by omega) (h.apart_hdr ho h1 h2)

theorem agree_entry {p i : Nat} (hp : z.InMap p) (h1 : zipvfsPgmapEntry p ≤ i)
    (h2 : i < zipvfsPgmapEntry p + 8) : z'.bytes i = z.bytes i := by
  rw [hp.entry_eq h.mapSize] at h1 h2
  obtain ⟨hp1, hp2⟩ := hp
  exact hbytes i (by omega) (h.apart_map (by omega))

theorem agree_used {o : Nat} (ho : o ∈ offs) :
    Used z'.bytes ex o ↔ Used z.bytes ex o := by
  rw [Used, Used, (h.agree_hdr hbytes ho).1,
    mapEntry_congr fun i => h.agree_entry hbytes (h.slots o ho).2]

theorem agree_freeSlots : freeSlots z'.bytes offs ex = freeSlots z.bytes offs ex := by
  apply Set.ext
  intro s
  constructor
  · intro hs
    obtain ⟨h1, h2, h3⟩ := hs
    rw [(h.agree_hdr hbytes h1).2] at h3
    exact ⟨h1, fun hu => h2 ((h.agree_used hbytes h1).mpr hu), h3⟩
  · intro hs
    obtain ⟨h1, h2, h3⟩ := hs
    rw [← (h.agree_hdr hbytes h1).2] at h3
    exact ⟨h1, fun hu => h2 ((h.agree_used hbytes h1).mp hu), h3⟩

theorem agree_end {o : Nat} (ho : o ∈ offs) : slotEnd z'.bytes o = slotEnd z.bytes o := by
  rw [slotEnd, slotEnd, (h.agree_hdr hbytes ho).2]

/-- Neither the free payloads nor the first 200 bytes matter for what the file holds. -/
theorem agree (harea : z.hdr.SameArea z'.hdr) (hpaged : z'.Paged) (hgrows : z.Grows z') :
    Image D z' offs ex page := by
  obtain ⟨hstart, hend, hgs, hge⟩ := harea
  have hin : ∀ p, z'.InMap p ↔ z.InMap p := by
    intro p
    rw [InMap, InMap, hstart]
  refine ⟨hpaged, ?_, by rw [hstart]; exact h.dataStart, by rw [hstart]; exact h.mapSize,
    by rw [hend]; exact h.dataEnd, ?_, ?_, ?_, ?_, ?_⟩
  · obtain ⟨gs, ge, front, back, hoffs, hsplit, hgap⟩ := h.layout
    refine ⟨gs, ge, front, back, hoffs, ⟨?_, hsplit.gap, ?_⟩, ?_⟩
    · rw [hstart]
      exact hsplit.front.congr fun o ho =>
        h.agree_end hbytes (by rw [hoffs]; exact List.mem_append_left _ ho)
    · rw [hend]
      exact hsplit.back.congr fun o ho =>
        h.agree_end hbytes (by rw [hoffs]; exact List.mem_append_right _ ho)
    · rw [ZipvfsHdr.Gap, hgs, hge]
      exact hgap
  · intro o ho
    rw [(h.agree_hdr hbytes ho).1, (h.agree_hdr hbytes ho).2, hin]
    exact h.slots o ho
  · intro p hp hex
    have hold := h.entries p ((hin p).mp hp) hex
    have hentry : mapEntry z'.bytes p = mapEntry z.bytes p :=
      mapEntry_congr fun i => h.agree_entry hbytes ((hin p).mp hp)
    cases hpage : page p with
    | none =>
      rw [hpage, Stands] at hold
      rw [Stands, hentry, hold]
    | some c =>
      rw [hpage] at hold
      obtain ⟨o, blob, ho, hrec, hcovers, hD⟩ := hold
      have hbounds := h.slot_bounds ho
      have hused := hrec.used hbounds.2.2.2 hex
      refine ⟨o, blob, ho, hrec.congr (fun i => h.agree_entry hbytes ((hin p).mp hp)) ?_,
        hcovers.grows hgrows, hD⟩
      intro i h1 h2
      have hfits := hrec.fits
      exact hbytes i (by omega) (h.apart_used ho hused h1 (by
        rw [slotEnd, zipvfsSlotHdrSize]
        omega))
  · intro p hp
    exact (hin p).mpr (h.inMap p hp)
  · intro i h1 h2
    rw [hstart] at h1 h2
    have hlow := h.dataStart
    rw [hbytes i (by omega) (h.apart_map h2)]
    exact h.slack i h1 h2
  · rcases h.tail with ⟨hgap, hzero⟩ | hone
    · refine .inl ⟨by rw [hgs]; exact hgap, ?_⟩
      intro i hi
      rw [hend] at hi
      have hlow := h.dataStart
      have hle := h.layout.le
      rw [hbytes i (by omega) (h.apart_end hi)]
      exact hzero i hi
    · exact .inr hone

end

end Image

end

/-- What an operation on the free-slot list leaves as it is: all but the payloads of the free
slots, and the fields of the header that belong to the list. -/
structure Untouched (S : Set (Nat × Nat)) (z z' : ZipvfsFile) : Prop where
  rest : { z' with
    file := z.file
    hdr.iFreeSlot := z.hdr.iFreeSlot
    hdr.nFreeSlot := z.hdr.nFreeSlot
    hdr.nFreeByte := z.hdr.nFreeByte } = z
  bytes : ∀ i, Apart S i → z'.bytes i = z.bytes i
  size : z.file.size ≤ z'.file.size

/-- A slot that can join the free slots `S`. -/
structure Addable (z : ZipvfsFile) (S : Set (Nat × Nat)) (iOff nByte : Nat) : Prop where
  offset : 0 < iOff ∧ iOff + 6 + nByte ≤ pagerReach
  size : zipvfsMinPayload ≤ nByte
  payload : slotPayload z.bytes iOff = nByte
  apart : ∀ s ∈ S, s.1 + 6 + s.2 ≤ iOff ∨ iOff + 6 + nByte ≤ s.1

/-- The free-slot list holds the free slots `S` in their payloads and in its fields of the header,
where `Free` says so. -/
structure FreeList.Keeps (fl : FreeList) (Free : ZipvfsFile → Set (Nat × Nat) → Prop) : Prop where
  empty : ∀ z, z.hdr.iFreeSlot = 0 → z.hdr.nFreeSlot = 0 → z.hdr.nFreeByte = 0 → Free z ∅
  small : ∀ z S, Free z S →
    z.hdr.iFreeSlot < 2 ^ 63 ∧ z.hdr.nFreeSlot < 2 ^ 63 ∧ z.hdr.nFreeByte < 2 ^ 63
  congr : ∀ z z' S, Free z S →
    z'.hdr.iFreeSlot = z.hdr.iFreeSlot ∧ z'.hdr.nFreeSlot = z.hdr.nFreeSlot ∧
      z'.hdr.nFreeByte = z.hdr.nFreeByte →
    (∀ s ∈ S, ∀ i, s.1 ≤ i → i < s.1 + 6 + s.2 → z'.bytes i = z.bytes i) → Free z' S
  add_zero : ∀ z n, fl.zipvfsFreelistAdd z 0 n = .ok z
  add : ∀ z S iOff n, z.Paged → 1 < z.inWriteTrans → Free z S → Addable z S iOff n →
    ∃ z', fl.zipvfsFreelistAdd z iOff n = .ok z' ∧ Untouched (insert (iOff, n) S) z z' ∧
      Free z' (insert (iOff, n) S)
  remove : ∀ z S s, z.Paged → 1 < z.inWriteTrans → Free z S → s ∈ S →
    ∃ z', fl.zipvfsFreelistRemove z s.1 s.2 = .ok z' ∧ Untouched S z z' ∧ Free z' (S \ {s})
  bestfit : ∀ z S bExact n, z.Paged → 1 < z.inWriteTrans → Free z S →
    ∃ z' s, fl.zipvfsFreelistBestfit z bExact n = .ok (z', s) ∧ Untouched S z z' ∧
      (s.1 = 0 ∧ Free z' S ∨
        s ∈ S ∧ n ≤ s.2 ∧ (bExact = true → s.2 = n) ∧ Free z' (S \ {s}))

namespace Untouched

variable {S : Set (Nat × Nat)} {z z' : ZipvfsFile} (h : Untouched S z z')

include h

theorem paged (hz : z.Paged) : z'.Paged := by
  obtain ⟨k, h1, h2, hk⟩ := hz
  have hpgsz := congrArg ZipvfsFile.nPgsz h.rest
  exact ⟨k, h1, h2, by rw [← hk]; exact hpgsz⟩

theorem grows : z.Grows z' := by
  have hpgsz : z'.nPgsz = z.nPgsz := (congrArg ZipvfsFile.nPgsz h.rest :)
  have hversion : z'.hdr.iVersion = z.hdr.iVersion :=
    (congrArg (fun z => z.hdr.iVersion) h.rest :)
  intro i hi
  rw [place_congr hpgsz hversion]
  exact Nat.lt_of_lt_of_le hi h.size

theorem sameArea : z.hdr.SameArea z'.hdr := by
  have hstart := congrArg (fun z => z.hdr.iDataStart) h.rest
  have hend := congrArg (fun z => z.hdr.iDataEnd) h.rest
  have hgs := congrArg (fun z => z.hdr.iGapStart) h.rest
  have hge := congrArg (fun z => z.hdr.iGapEnd) h.rest
  exact ⟨hstart, hend, hgs, hge⟩

end Untouched

end NdsDevkit.Zipvfs
