import NdsDevkit.Framework.Chain
import NdsDevkit.Zipvfs.Slots
import Mathlib.Data.Set.Insert

namespace NdsDevkit.Zipvfs

open Framework ZipvfsFile

section

variable (mem : Cells UInt8)

/-- The page map entry of a page. -/
def mapEntry (p : Nat) : List UInt8 := mem.get (zipvfsPgmapEntry p) 8

/-- The page number in the header of a slot. -/
def slotPage (o : Nat) : Nat := hdrPage (mem.get o 6)

def slotPayload (o : Nat) : Nat := hdrPayload (mem.get o 6)

def slotEnd (o : Nat) : Nat := o + zipvfsSlotHdrSize + slotPayload mem o

/-- A slot is in use when the page in its header has its record there. The pages in `ex` have given
up their records. -/
def Used (ex : Set Nat) (o : Nat) : Prop :=
  slotPage mem o ∉ ex ∧ entryOffset (mapEntry mem (slotPage mem o)) = o

/-- The other slots, with their sizes. -/
def freeSlots (offs : List Nat) (ex : Set Nat) : Set (Nat × Nat) :=
  fun s => s.1 ∈ offs ∧ ¬ Used mem ex s.1 ∧ s.2 = slotPayload mem s.1

/-- The record of a page: its page map entry, and a slot with the page number and the bytes. -/
structure RecordAt (p o : Nat) (blob : List UInt8) : Prop where
  entry : mapEntry mem p = entryBytes o blob.length (slotPayload mem o - blob.length)
  page : slotPage mem o = p
  pos : 0 < blob.length
  fits : blob.length ≤ slotPayload mem o
  bytes : mem.get (o + 6) blob.length = blob

/-- Slots from `a` to `b` with a gap between `gs` and `ge`. -/
structure Split (a gs ge b : Nat) (front back : List Nat) : Prop where
  front : Chain (slotEnd mem) a gs front
  gap : gs ≤ ge
  back : Chain (slotEnd mem) ge b back

end

/-- Outside the payloads of the slots. -/
def Apart (S : Set (Nat × Nat)) (i : Nat) : Prop := ∀ s ∈ S, i < s.1 + 6 ∨ s.1 + 6 + s.2 ≤ i

/-- A gap that the header does not record is empty. -/
def ZipvfsHdr.Gap (hdr : ZipvfsHdr) (gs ge : Nat) : Prop :=
  hdr.iGapStart = 0 ∧ hdr.iGapEnd = 0 ∧ gs = ge ∨ hdr.iGapStart = gs ∧ hdr.iGapEnd = ge

namespace ZipvfsFile

/-- The page map has room for a page. -/
def InMap (z : ZipvfsFile) (p : Nat) : Prop := 1 ≤ p ∧ 200 + 8 * p ≤ z.hdr.iDataStart

/-- The data area has these slots. -/
def Layout (z : ZipvfsFile) (offs : List Nat) : Prop :=
  ∃ gs ge front back, offs = front ++ back ∧
    Split z.bytes z.hdr.iDataStart gs ge z.hdr.iDataEnd front back ∧ z.hdr.Gap gs ge

end ZipvfsFile

/-- The stored form of a page that has one. -/
def Stands (D : List UInt8 → List UInt8 → Prop) (z : ZipvfsFile) (offs : List Nat) (p : Nat) :
    Option (List UInt8) → Prop
  | none => mapEntry z.bytes p = List.replicate 8 0
  | some page => ∃ o blob, o ∈ offs ∧ RecordAt z.bytes p o blob ∧
    z.Covers o (o + 6 + blob.length) ∧ D blob page

/-- The file holds these pages; those in `ex` have given up their records. `D` relates a record to
what it decompresses to. -/
structure Image (D : List UInt8 → List UInt8 → Prop) (z : ZipvfsFile) (offs : List Nat)
    (ex : Set Nat) (page : Nat → Option (List UInt8)) : Prop where
  paged : z.Paged
  layout : z.Layout offs
  dataStart : 200 ≤ z.hdr.iDataStart
  mapSize : z.hdr.iDataStart < 2 ^ 31
  dataEnd : z.hdr.iDataEnd ≤ pagerReach
  slots : ∀ o ∈ offs, zipvfsMinPayload ≤ slotPayload z.bytes o ∧ z.InMap (slotPage z.bytes o)
  entries : ∀ p, z.InMap p → p ∉ ex → Stands D z offs p (page p)
  inMap : ∀ p, page p ≠ none → z.InMap p
  slack : ∀ i, z.hdr.iDataStart - z.hdr.iDataStart % 8 ≤ i → i < z.hdr.iDataStart → z.bytes i = 0
  tail : z.hdr.iGapStart = 0 ∧ (∀ i, z.hdr.iDataEnd ≤ i → z.bytes i = 0) ∨ page 1 ≠ none

theorem hdrPayload_lt (a : List UInt8) : hdrPayload a < 2 ^ 17 := by
  have h1 := Nat.and_le_right (n := (a.getD 3 0).toNat <<< 16) (m := 0x00010000)
  have h2 := Nat.and_le_right (n := (a.getD 4 0).toNat <<< 8) (m := 0x0000FF00)
  have h3 := Nat.and_le_right (n := (a.getD 5 0).toNat <<< 0) (m := 0x000000FF)
  rw [hdrPayload]
  omega

theorem slotPayload_lt (mem : Cells UInt8) (o : Nat) : slotPayload mem o < 2 ^ 17 :=
  hdrPayload_lt _

theorem lt_slotEnd (mem : Cells UInt8) (o : Nat) : o + 6 ≤ slotEnd mem o := by
  rw [slotEnd, zipvfsSlotHdrSize]
  omega

theorem zipvfsPgmapEntry_eq {p : Nat} (h1 : 1 ≤ p) (h2 : 192 + 8 * p < 2 ^ 32) :
    zipvfsPgmapEntry p = 192 + 8 * p := by
  rw [zipvfsPgmapEntry]
  omega

section

variable {mem : Cells UInt8} {a gs ge b : Nat} {front back : List Nat}

theorem Split.bounds (h : Split mem a gs ge b front back) {o : Nat} (ho : o ∈ front ++ back) :
    a ≤ o ∧ slotEnd mem o ≤ b := by
  have hgap := h.gap
  have hfront := h.front.le
  have hback := h.back.le
  rcases List.mem_append.mp ho with hf | hb
  · obtain ⟨h1, _, h3⟩ := h.front.bounds hf
    exact ⟨h1, by omega⟩
  · obtain ⟨h1, _, h3⟩ := h.back.bounds hb
    exact ⟨by omega, h3⟩

theorem Split.apart (h : Split mem a gs ge b front back) {o p : Nat} (ho : o ∈ front ++ back)
    (hp : p ∈ front ++ back) (hne : o ≠ p) : slotEnd mem o ≤ p ∨ slotEnd mem p ≤ o := by
  have hgap := h.gap
  rcases List.mem_append.mp ho with hf | hb
  · rcases List.mem_append.mp hp with hf' | hb'
    · exact h.front.apart hf hf' hne
    · have h1 := (h.front.bounds hf).2.2
      have h2 := (h.back.bounds hb').1
      exact .inl (by omega)
  · rcases List.mem_append.mp hp with hf' | hb'
    · have h1 := (h.front.bounds hf').2.2
      have h2 := (h.back.bounds hb).1
      exact .inr (by omega)
    · exact h.back.apart hb hb' hne

end

section

variable {z : ZipvfsFile} {offs : List Nat} (h : z.Layout offs)

include h

theorem ZipvfsFile.Layout.bounds {o : Nat} (ho : o ∈ offs) :
    z.hdr.iDataStart ≤ o ∧ slotEnd z.bytes o ≤ z.hdr.iDataEnd := by
  obtain ⟨gs, ge, front, back, rfl, hsplit, _⟩ := h
  exact hsplit.bounds ho

theorem ZipvfsFile.Layout.apart {o p : Nat} (ho : o ∈ offs) (hp : p ∈ offs) (hne : o ≠ p) :
    slotEnd z.bytes o ≤ p ∨ slotEnd z.bytes p ≤ o := by
  obtain ⟨gs, ge, front, back, rfl, hsplit, _⟩ := h
  exact hsplit.apart ho hp hne

theorem ZipvfsFile.Layout.le : z.hdr.iDataStart ≤ z.hdr.iDataEnd := by
  obtain ⟨gs, ge, front, back, _, hsplit, _⟩ := h
  have hfront := hsplit.front.le
  have hgap := hsplit.gap
  have hback := hsplit.back.le
  omega

end

section

variable {D : List UInt8 → List UInt8 → Prop} {z z' : ZipvfsFile} {offs : List Nat} {ex : Set Nat}
  {page : Nat → Option (List UInt8)}

/-- The entry of a page lies in the page map. -/
theorem ZipvfsFile.InMap.entry_eq {p : Nat} (h : z.InMap p) (hmap : z.hdr.iDataStart < 2 ^ 31) :
    zipvfsPgmapEntry p = 192 + 8 * p :=
  zipvfsPgmapEntry_eq h.1 (by have h2 := h.2; omega)

theorem ZipvfsFile.InMap.lt {p : Nat} (h : z.InMap p) (hmap : z.hdr.iDataStart < 2 ^ 31) :
    p < 2 ^ 31 := by
  have h2 := h.2
  omega

theorem mapEntry_congr {mem mem' : Cells UInt8} {p : Nat}
    (h : ∀ i, zipvfsPgmapEntry p ≤ i → i < zipvfsPgmapEntry p + 8 → mem' i = mem i) :
    mapEntry mem' p = mapEntry mem p :=
  Cells.get_congr h

theorem slotHdr_congr {mem mem' : Cells UInt8} {o : Nat}
    (h : ∀ i, o ≤ i → i < o + 6 → mem' i = mem i) :
    slotPage mem' o = slotPage mem o ∧ slotPayload mem' o = slotPayload mem o := by
  have hget : mem'.get o 6 = mem.get o 6 := Cells.get_congr h
  rw [slotPage, slotPayload, hget]
  exact ⟨rfl, rfl⟩

/-- A record stays where its bytes stay. -/
theorem RecordAt.congr {mem mem' : Cells UInt8} {p o : Nat} {blob : List UInt8}
    (h : RecordAt mem p o blob)
    (hentry : ∀ i, zipvfsPgmapEntry p ≤ i → i < zipvfsPgmapEntry p + 8 → mem' i = mem i)
    (hslot : ∀ i, o ≤ i → i < o + 6 + blob.length → mem' i = mem i) : RecordAt mem' p o blob := by
  obtain ⟨hpage, hpayload⟩ :
      slotPage mem' o = slotPage mem o ∧ slotPayload mem' o = slotPayload mem o :=
    slotHdr_congr fun i h1 h2 => hslot i h1 (by omega)
  refine ⟨?_, ?_, h.pos, ?_, ?_⟩
  · rw [mapEntry_congr hentry, hpayload, h.entry]
  · rw [hpage, h.page]
  · rw [hpayload]
    exact h.fits
  · have hget : mem'.get (o + 6) blob.length = mem.get (o + 6) blob.length :=
      Cells.get_congr fun i h1 h2 => hslot i (by omega) h2
    rw [hget, h.bytes]

theorem RecordAt.offset {mem : Cells UInt8} {p o : Nat} {blob : List UInt8}
    (h : RecordAt mem p o blob) (ho : o < 2 ^ 40) : entryOffset (mapEntry mem p) = o := by
  rw [h.entry, entryOffset_entryBytes ho]

theorem RecordAt.used {mem : Cells UInt8} {p o : Nat} {blob : List UInt8}
    (h : RecordAt mem p o blob) (ho : o < 2 ^ 40) (hp : p ∉ ex) : Used mem ex o := by
  rw [Used, h.page]
  exact ⟨hp, h.offset ho⟩

theorem entryOffset_zero : entryOffset (List.replicate 8 0) = 0 := by decide

namespace Image

variable (h : Image D z offs ex page)

include h

theorem slot_bounds {o : Nat} (ho : o ∈ offs) :
    200 ≤ o ∧ z.hdr.iDataStart ≤ o ∧ slotEnd z.bytes o ≤ z.hdr.iDataEnd ∧ o < 2 ^ 40 := by
  obtain ⟨h1, h2⟩ := h.layout.bounds ho
  have h3 := lt_slotEnd z.bytes o
  have h4 := h.dataStart
  have h5 := h.dataEnd
  rw [pagerReach] at h5
  exact ⟨by omega, h1, h2, by omega⟩

/-- A slot in use holds the record of its page. -/
theorem record_of_used {o : Nat} (ho : o ∈ offs) (hused : Used z.bytes ex o) :
    ∃ blob c, page (slotPage z.bytes o) = some c ∧ RecordAt z.bytes (slotPage z.bytes o) o blob ∧
      z.Covers o (o + 6 + blob.length) ∧ D blob c := by
  obtain ⟨hex, hoff⟩ := hused
  have hentry := h.entries _ (h.slots o ho).2 hex
  cases hp : page (slotPage z.bytes o) with
  | none =>
    rw [hp, Stands] at hentry
    rw [hentry, entryOffset_zero] at hoff
    have hpos := (h.slot_bounds ho).1
    omega
  | some c =>
    rw [hp] at hentry
    obtain ⟨o', blob, ho', hrec, hcovers, hD⟩ := hentry
    have heq := hrec.offset (h.slot_bounds ho').2.2.2
    rw [hoff] at heq
    subst heq
    exact ⟨blob, c, rfl, hrec, hcovers, hD⟩

/-- More pages may be left out. -/
theorem drop {ex' : Set Nat} (hsub : ∀ p, p ∈ ex → p ∈ ex') : Image D z offs ex' page :=
  { h with entries := fun p hp hex => h.entries p hp fun hmem => hex (hsub p hmem) }

end Image

end

end NdsDevkit.Zipvfs
