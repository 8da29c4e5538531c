import NdsDevkit.Zipvfs.Writing

namespace NdsDevkit.Zipvfs

open Framework ZipvfsFile

/-- The pages behind `a` up to `b`. -/
def pagesBetween (a b : Nat) : Set Nat := fun q => a < q ∧ q ≤ b

/-- The pages without those behind `k`. -/
def keepPages (k : Nat) (page : Nat → Option (List UInt8)) (q : Nat) : Option (List UInt8) :=
  if k < q then none else page q

section

variable {D : List UInt8 → List UInt8 → Prop} {z z' : ZipvfsFile} {offs : List Nat}
  {page : Nat → Option (List UInt8)} {a b : Nat} (h : Image D z offs (pagesBetween a b) page)
  (hbytes : z'.bytes = z.bytes.put (200 + 8 * a) (List.replicate (8 * (b - a)) 0))

include h hbytes

omit h in
theorem cleared_other {i : Nat} (hab : a ≤ b) (hi : i < 200 + 8 * a ∨ 200 + 8 * b ≤ i) :
    z'.bytes i = z.bytes i := by
  rw [hbytes]
  apply Cells.put_of_not_mem
  rw [List.length_replicate]
  omega

theorem cleared_entry_other {p : Nat} (hin : z.InMap p) (hab : a ≤ b) (hp : ¬ (a < p ∧ p ≤ b)) :
    ∀ i, zipvfsPgmapEntry p ≤ i → i < zipvfsPgmapEntry p + 8 → z'.bytes i = z.bytes i := by
  intro i h1 h2
  rw [hin.entry_eq h.mapSize] at h1 h2
  have hp1 := hin.1
  exact cleared_other hbytes hab (by omega)

variable (hmap : 200 + 8 * b ≤ z.hdr.iDataStart)

include hmap

/-- An entry in the cleared range is zero. -/
theorem cleared_entry {p : Nat} (h1 : a < p) (h2 : p ≤ b) :
    mapEntry z'.bytes p = List.replicate 8 0 := by
  have hin : z.InMap p := ⟨by omega, by omega⟩
  rw [mapEntry, hin.entry_eq h.mapSize, hbytes, List.eq_replicate_iff]
  refine ⟨Cells.length_get _ _ _, ?_⟩
  intro x hx
  simp only [Cells.get, List.mem_map, List.mem_range] at hx
  obtain ⟨k, hk, rfl⟩ := hx
  rw [Cells.put_of_mem _ (by omega) (by rw [List.length_replicate]; omega)]
  exact List.getElem_replicate _

theorem cleared_slot (hab : a ≤ b) {o i : Nat} (ho : o ∈ offs) (hi : o ≤ i) :
    z'.bytes i = z.bytes i := by
  have hlow := (h.slot_bounds ho).2.1
  exact cleared_other hbytes hab (.inr (by omega))

theorem cleared_hdr (hab : a ≤ b) {o : Nat} (ho : o ∈ offs) :
    slotPage z'.bytes o = slotPage z.bytes o ∧ slotPayload z'.bytes o = slotPayload z.bytes o :=
  slotHdr_congr fun _ h1 _ => cleared_slot h hbytes hmap hab ho h1

theorem cleared_used (hab : a ≤ b) {o : Nat} (ho : o ∈ offs) :
    Used z'.bytes ∅ o ↔ Used z.bytes (pagesBetween a b) o := by
  have hlow := (h.slot_bounds ho).1
  rw [Used, Used, (cleared_hdr h hbytes hmap hab ho).1]
  by_cases hin : a < slotPage z.bytes o ∧ slotPage z.bytes o ≤ b
  · rw [cleared_entry h hbytes hmap hin.1 hin.2, entryOffset_zero]
    constructor
    · intro hu
      omega
    · intro hu
      exact absurd hin hu.1
  · rw [mapEntry_congr (cleared_entry_other h hbytes (h.slots o ho).2 hab hin)]
    exact ⟨fun hu => ⟨hin, hu.2⟩, fun hu => ⟨Set.notMem_empty _, hu.2⟩⟩

theorem cleared_freeSlots (hab : a ≤ b) :
    freeSlots z'.bytes offs ∅ = freeSlots z.bytes offs (pagesBetween a b) := by
  apply Set.ext
  intro s
  constructor
  · intro hs
    obtain ⟨h1, h2, h3⟩ := hs
    rw [(cleared_hdr h hbytes hmap hab h1).2] at h3
    exact ⟨h1, fun hu => h2 ((cleared_used h hbytes hmap hab h1).mpr hu), h3⟩
  · intro hs
    obtain ⟨h1, h2, h3⟩ := hs
    rw [← (cleared_hdr h hbytes hmap hab h1).2] at h3
    exact ⟨h1, fun hu => h2 ((cleared_used h hbytes hmap hab h1).mp hu), h3⟩

/-- The pages whose entries were cleared are gone. The first page is not one of them. -/
theorem Image.cleared (hone : 1 ≤ a) (hab : a ≤ b) (harea : z.hdr.SameArea z'.hdr)
    (hpaged : z'.Paged) (hgrows : z.Grows z') {page' : Nat → Option (List UInt8)}
    (hgone : ∀ q, a < q → q ≤ b → page' q = none)
    (hkept : ∀ q, ¬ (a < q ∧ q ≤ b) → page' q = page q) : Image D z' offs ∅ page' := by
  have hsame := harea
  obtain ⟨hstart, hend, hgs, hge⟩ := harea
  have hin : ∀ p, z'.InMap p ↔ z.InMap p := by
    intro p
    rw [InMap, InMap, hstart]
  refine ⟨hpaged, ?_, by rw [hstart]; exact h.dataStart, by rw [hstart]; exact h.mapSize,
    by rw [hend]; exact h.dataEnd, ?_, ?_, ?_, ?_, ?_⟩
  · exact h.layout.congr hsame fun o ho => (cleared_hdr h hbytes hmap hab ho).2
  · intro o ho
    obtain ⟨hp, hs⟩ := cleared_hdr h hbytes hmap hab ho
    rw [hp, hs, hin]
    exact h.slots o ho
  · intro q hq _
    rw [hin] at hq
    by_cases hc : a < q ∧ q ≤ b
    · rw [hgone q hc.1 hc.2]
      exact cleared_entry h hbytes hmap hc.1 hc.2
    · have hold := h.entries q hq hc
      have hentry := cleared_entry_other h hbytes hq hab hc
      rw [hkept q hc]
      cases hpage : page q with
      | none =>
        rw [hpage, Stands] at hold
        rw [Stands, mapEntry_congr hentry, hold]
      | some c =>
        rw [hpage] at hold
        obtain ⟨o, blob, ho, hrec, hcovers, hD⟩ := hold
        exact ⟨o, blob, ho, hrec.congr hentry fun i h1 _ =>
          cleared_slot h hbytes hmap hab ho h1, hcovers.grows hgrows, hD⟩
  · intro q hq
    rw [hin]
    by_cases hc : a < q ∧ q ≤ b
    · exact absurd (hgone q hc.1 hc.2) hq
    · rw [hkept q hc] at hq
      exact h.inMap q hq
  · intro i h1 h2
    rw [hstart] at h1 h2
    rw [cleared_other hbytes hab (.inr (by omega))]
    exact h.slack i h1 h2
  · rcases h.tail with ⟨hgap, hzero⟩ | hpage
    · refine .inl ⟨by rw [hgs]; exact hgap, ?_⟩
      intro i hi
      have hle := h.layout.le
      rw [hend] at hi
      rw [cleared_other hbytes hab (.inr (by omega))]
      exact hzero i hi
    · refine .inr ?_
      rw [hkept 1 (by omega)]
      exact hpage

end

/-- The user's database has `n` pages. -/
structure Sized (z : ZipvfsFile) (n : Nat) (page : Nat → Option (List UInt8)) : Prop where
  iSize : z.hdr.iSize = n * z.hdr.pgsz
  inMap : 200 + 8 * n ≤ z.hdr.iDataStart
  beyond : ∀ p, n < p → page p = none

section

variable {D : List UInt8 → List UInt8 → Prop} {fl : FreeList}
  {Free : ZipvfsFile → Set (Nat × Nat) → Prop} (hfl : fl.Keeps Free) {z : ZipvfsFile}
  {offs : List Nat} {page : Nat → Option (List UInt8)}

include hfl

theorem truncateLoop_spec (hwrite : 1 < z.inWriteTrans) {a b : Nat} (n : Nat)
    (h : Image D z offs (pagesBetween a b) page)
    (hfree : Free z (freeSlots z.bytes offs (pagesBetween a b))) (hab : a ≤ b)
    (hmap : 200 + 8 * (b + n) ≤ z.hdr.iDataStart) :
    ∃ z', truncateLoop fl n (b + 1) z = .ok z' ∧ Image D z' offs (pagesBetween a (b + n)) page ∧
      Free z' (freeSlots z'.bytes offs (pagesBetween a (b + n))) ∧ z.hdr.SameArea z'.hdr ∧
      Inner z z' := by
  induction n generalizing z b with
  | zero => exact ⟨z, rfl, h, hfree, ⟨rfl, rfl, rfl, rfl⟩, Inner.refl z⟩
  | succ n ih =>
    have hin : z.InMap (b + 1) := ⟨by omega, by omega⟩
    have hset : insert (b + 1) (pagesBetween a b) = pagesBetween a (b + 1) := by
      apply Set.ext
      intro q
      constructor
      · intro hq
        rcases hq with rfl | hq
        · exact ⟨by omega, Nat.le_refl _⟩
        · exact ⟨hq.1, by have hle := hq.2; omega⟩
      · intro hq
        obtain ⟨h1, h2⟩ := hq
        by_cases heq : q = b + 1
        · exact .inl heq
        · exact .inr ⟨h1, by omega⟩
    obtain ⟨iOff, nByte, nPadding, z1, hfind, hpad, hadd, h1, hfree1, harea, hslots⟩ :=
      zipvfsFreelistAdd_spec hfl hwrite h hfree hin fun hmem => absurd hmem.2 (by omega)
    rw [hset] at h1 hfree1
    obtain ⟨z2, hloop, h2, hfree2, harea2, hinner⟩ := ih (hslots.inner.write hwrite) h1
      hfree1 (by omega) (by rw [harea.1]; omega)
    rw [show b + 1 + n = b + (n + 1) by omega] at h2 hfree2
    refine ⟨z2, ?_, h2, hfree2, harea.trans harea2, hslots.inner.trans hinner⟩
    simp only [truncateLoop, hfind, hpad, hadd, bind, Except.bind]
    exact hloop

theorem clearEntries_spec {a b : Nat} (h : Image D z offs (pagesBetween a b) page)
    (hfree : Free z (freeSlots z.bytes offs (pagesBetween a b))) (hone : 1 ≤ a) (hab : a ≤ b)
    (hmap : 200 + 8 * b ≤ z.hdr.iDataStart) {page' : Nat → Option (List UInt8)}
    (hgone : ∀ q, a < q → q ≤ b → page' q = none)
    (hkept : ∀ q, ¬ (a < q ∧ q ≤ b) → page' q = page q) :
    ∃ z', z.zipvfsStoreData (200 + 8 * a) (List.replicate (8 * (b - a)) 0) = .ok z' ∧
      Wrote D Free z z' offs page' ∧ z'.hdr.iDataEnd = z.hdr.iDataEnd := by
  have hmapSize := h.mapSize
  obtain ⟨z', hrun, hstored⟩ := h.paged.zipvfsStoreData_spec (200 + 8 * a)
    (List.replicate (8 * (b - a)) 0) (by rw [List.length_replicate, pagerReach]; omega)
  have hbytes := hstored.bytes
  have hhdr := hstored.hdr_eq
  have hinner := hstored.inner (by omega)
  have harea : z.hdr.SameArea z'.hdr := by
    rw [hhdr]
    exact ⟨rfl, rfl, rfl, rfl⟩
  have hslots := cleared_freeSlots h hbytes hmap hab
  refine ⟨z', hrun, ⟨h.cleared hbytes hmap hone hab harea (hinner.paged h.paged) hinner.grows
    hgone hkept, ?_, hinner, harea.1, harea.2.2.1, harea.2.2.2⟩, harea.2.1⟩
  rw [hslots]
  apply hfl.congr z z' _ hfree
  · rw [hhdr]
    exact ⟨rfl, rfl, rfl⟩
  · intro s hs i h1 _
    exact cleared_slot h hbytes hmap hab hs.1 h1

omit hfl in
/-- The number of bytes is an int, and large enough. -/
theorem nClear_eq {n k : Nat} (hk : k ≤ n) (hn : 200 + 8 * n < 2 ^ 31) :
    nClear n (k + 1) = 8 * (n - k) := by
  have hdiff : ((zipvfsPgmapEntry (n + 1) : Int) - zipvfsPgmapEntry (k + 1)) =
      (8 * (n - k) : Nat) := by
    rw [zipvfsPgmapEntry_eq (by omega) (by omega), zipvfsPgmapEntry_eq (by omega) (by omega)]
    omega
  rw [nClear, hdiff, Int.bmod_eq_of_le (by omega) (by omega)]
  exact Int.toNat_natCast _

/-- The pages behind the first `k` are cut off. -/
theorem zipvfsTruncateUserdb_spec (hwrite : 1 < z.inWriteTrans) (h : Image D z offs ∅ page)
    (hfree : Free z (freeSlots z.bytes offs ∅)) {n k : Nat} (hsized : Sized z n page)
    (hpgsz : 0 < z.hdr.pgsz) (hone : 1 ≤ k) (hk : k ≤ n) :
    ∃ z1, zipvfsTruncateUserdb fl z k = .ok { z1 with hdr.iSize := k * z.hdr.pgsz } ∧
      Wrote D Free z z1 offs (keepPages k page) ∧ z1.hdr.iDataEnd = z.hdr.iDataEnd := by
  have hnone : pagesBetween k k = ∅ := by
    apply Set.eq_empty_of_forall_notMem
    intro q hq
    have hlt := hq.1
    have hle := hq.2
    omega
  have hmap := hsized.inMap
  have hmapSize := h.mapSize
  have hpages : z.hdr.iSize / z.hdr.pgsz % 2 ^ 32 = n := by
    rw [hsized.iSize, Nat.mul_div_cancel _ hpgsz, Nat.mod_eq_of_lt (by omega)]
  have hfirst : (k + 1) % 2 ^ 32 = k + 1 := Nat.mod_eq_of_lt (by omega)
  rw [← hnone] at h hfree
  obtain ⟨z1, hloop, h1, hfree1, harea, hinner⟩ := truncateLoop_spec hfl hwrite (n - k) h hfree
    (Nat.le_refl k) (by omega)
  rw [show k + (n - k) = n by omega] at h1 hfree1
  obtain ⟨z2, hstore, hwrote, hend⟩ := clearEntries_spec hfl h1 hfree1 hone hk
    (by rw [harea.1]; exact hmap)
    (show ∀ q, k < q → q ≤ n → keepPages k page q = none from fun q h1 _ => if_pos h1)
    (fun q hq => by
      rw [keepPages]
      split
      · exact (hsized.beyond q (by omega)).symm
      · rfl)
  have hentry : zipvfsPgmapEntry (k + 1) = 200 + 8 * k := by
    rw [zipvfsPgmapEntry_eq (by omega) (by omega)]
    omega
  refine ⟨z2, ?_, ⟨hwrote.image, hwrote.free, hinner.trans hwrote.inner,
    hwrote.dataStart.trans harea.1, hwrote.gap.1.trans harea.2.2.1,
    hwrote.gap.2.trans harea.2.2.2⟩, hend.trans harea.2.1⟩
  have hpgsz2 : z2.hdr.pgsz = z.hdr.pgsz := (hinner.trans hwrote.inner).pgsz
  simp only [zipvfsTruncateUserdb, hpages, hfirst, show n + 1 - (k + 1) = n - k by omega, hloop,
    hentry, nClear_eq hk (by omega), hstore, hpgsz2, bind, Except.bind]
  rfl

end

end NdsDevkit.Zipvfs
