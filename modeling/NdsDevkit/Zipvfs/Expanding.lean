import NdsDevkit.Zipvfs.Writing

namespace NdsDevkit.Zipvfs

open Framework ZipvfsFile

/-- The start of the data area moves to `a`, over zeros, and drops slots that are not in use. -/
structure Advance (z z' : ZipvfsFile) (offs offs' : List Nat) (a : Nat) : Prop where
  le : z.hdr.iDataStart ≤ a
  small : a < 2 ^ 31
  bytes : z'.bytes = z.bytes.put z.hdr.iDataStart (List.replicate (a - z.hdr.iDataStart) 0)
  dataStart : z'.hdr.iDataStart = a
  layout : z'.Layout offs'
  dataEnd : z'.hdr.iDataEnd ≤ pagerReach
  sub : ∀ o ∈ offs', o ∈ offs
  low : ∀ o ∈ offs', a ≤ o
  keep : ∀ o ∈ offs, Used z.bytes ∅ o → o ∈ offs'

section

variable {D : List UInt8 → List UInt8 → Prop} {z z' : ZipvfsFile} {offs offs' : List Nat}
  {page : Nat → Option (List UInt8)} {a : Nat} (hadv : Advance z z' offs offs' a)

include hadv

theorem Advance.other {i : Nat} (hi : i < z.hdr.iDataStart ∨ a ≤ i) : z'.bytes i = z.bytes i := by
  have hle := hadv.le
  rw [hadv.bytes]
  apply Cells.put_of_not_mem
  rw [List.length_replicate]
  omega

theorem Advance.zero {i : Nat} (h1 : z.hdr.iDataStart ≤ i) (h2 : i < a) : z'.bytes i = 0 := by
  rw [hadv.bytes, Cells.put_of_mem _ h1 (by rw [List.length_replicate]; omega)]
  exact List.getElem_replicate _

theorem Advance.hdr {o : Nat} (ho : o ∈ offs') :
    slotPage z'.bytes o = slotPage z.bytes o ∧ slotPayload z'.bytes o = slotPayload z.bytes o := by
  have hlow := hadv.low o ho
  exact slotHdr_congr fun i h1 _ => hadv.other (.inr (by omega))

theorem Advance.inMap {p : Nat} (hp : z.InMap p) : z'.InMap p := by
  have hle := hadv.le
  have hmap := hp.2
  exact ⟨hp.1, by rw [hadv.dataStart]; omega⟩

variable (h : Image D z offs ∅ page)

include h

theorem Advance.entry {p : Nat} (hp : z.InMap p) :
    mapEntry z'.bytes p = mapEntry z.bytes p := by
  apply mapEntry_congr
  intro i h1 h2
  rw [hp.entry_eq h.mapSize] at h1 h2
  have hmap := hp.2
  exact hadv.other (.inl (by omega))

/-- The entries that join the page map are zero. -/
theorem Advance.new_entry {p : Nat} (hp : z'.InMap p) (hnew : ¬ z.InMap p) :
    mapEntry z'.bytes p = List.replicate 8 0 := by
  have hstart := h.dataStart
  have hsmall := hadv.small
  have hmap : 200 + 8 * p ≤ a := by
    rw [← hadv.dataStart]
    exact hp.2
  have hbeyond : z.hdr.iDataStart < 200 + 8 * p := by
    by_contra hle
    exact hnew ⟨hp.1, by omega⟩
  rw [mapEntry, zipvfsPgmapEntry_eq hp.1 (by omega), List.eq_replicate_iff]
  refine ⟨Cells.length_get _ _ _, ?_⟩
  intro x hx
  simp only [Cells.get, List.mem_map, List.mem_range] at hx
  obtain ⟨k, hk, rfl⟩ := hx
  by_cases hold : 192 + 8 * p + k < z.hdr.iDataStart
  · rw [hadv.other (.inl hold)]
    exact h.slack _ (by omega) hold
  · exact hadv.zero (by omega) (by omega)

theorem Advance.used {o : Nat} (ho : o ∈ offs') : Used z'.bytes ∅ o ↔ Used z.bytes ∅ o := by
  have hin := (h.slots o (hadv.sub o ho)).2
  rw [Used, Used, (hadv.hdr ho).1, hadv.entry h hin]

theorem Advance.freeSlots_eq :
    freeSlots z'.bytes offs' ∅ = {s | s ∈ freeSlots z.bytes offs ∅ ∧ s.1 ∈ offs'} := by
  apply Set.ext
  intro s
  constructor
  · intro hs
    obtain ⟨h1, h2, h3⟩ := hs
    rw [(hadv.hdr h1).2] at h3
    exact ⟨⟨hadv.sub _ h1, fun hu => h2 ((hadv.used h h1).mpr hu), h3⟩, h1⟩
  · intro hs
    obtain ⟨⟨_, h2, h3⟩, h1⟩ := hs
    rw [← (hadv.hdr h1).2] at h3
    exact ⟨h1, fun hu => h2 ((hadv.used h h1).mp hu), h3⟩

/-- The pages stay when the data area starts later. -/
theorem Advance.image (hpaged : z'.Paged) (hgrows : z.Grows z')
    (htail : page 1 ≠ none ∨
      z'.hdr.iGapStart = z.hdr.iGapStart ∧ z.hdr.iDataEnd ≤ z'.hdr.iDataEnd) :
    Image D z' offs' ∅ page := by
  have hlow := h.dataStart
  have hle := hadv.le
  refine ⟨hpaged, hadv.layout, by rw [hadv.dataStart]; omega,
    by rw [hadv.dataStart]; exact hadv.small, hadv.dataEnd, ?_, ?_, ?_, ?_, ?_⟩
  · intro o ho
    obtain ⟨hmin, hin⟩ := h.slots o (hadv.sub o ho)
    rw [(hadv.hdr ho).1, (hadv.hdr ho).2]
    exact ⟨hmin, hadv.inMap hin⟩
  · intro p hp hex
    by_cases hin : z.InMap p
    · have hold := h.entries p hin hex
      have hentry := hadv.entry h hin
      cases hpage : page p with
      | none =>
        rw [hpage, Stands] at hold
        rw [Stands, hentry, hold]
      | some c =>
        rw [hpage] at hold
        obtain ⟨o, blob, ho, hrec, hcovers, hD⟩ := hold
        have ho' := hadv.keep o ho (hrec.used (h.slot_bounds ho).2.2.2 hex)
        have hlow' := hadv.low o ho'
        have hmap := hin.2
        refine ⟨o, blob, ho', hrec.congr ?_ ?_, hcovers.grows hgrows, hD⟩
        · intro i h1 h2
          rw [hin.entry_eq h.mapSize] at h1 h2
          exact hadv.other (.inl (by omega))
        · intro i h1 _
          exact hadv.other (.inr (by omega))
    · have hnone : page p = none := by
        by_contra hne
        exact hin (h.inMap p hne)
      rw [hnone]
      exact hadv.new_entry h hp hin
  · intro p hp
    exact hadv.inMap (h.inMap p hp)
  · intro i h1 h2
    rw [hadv.dataStart] at h1 h2
    by_cases hold : i < z.hdr.iDataStart
    · rw [hadv.other (.inl hold)]
      exact h.slack i (by omega) hold
    · exact hadv.zero (by omega) h2
  · by_cases hone : page 1 = none
    · have hzero := h.tail.resolve_right fun hne => hne hone
      obtain ⟨hgs, hend⟩ := htail.resolve_left fun hne => hne hone
      have hinside := hadv.layout.le
      rw [hadv.dataStart] at hinside
      refine .inl ⟨by rw [hgs]; exact hzero.1, ?_⟩
      intro i hi
      rw [hadv.other (.inr (by omega))]
      exact hzero.2 i (by omega)
    · exact .inr hone

theorem Advance.free {fl : FreeList} {Free : ZipvfsFile → Set (Nat × Nat) → Prop}
    (hfl : fl.Keeps Free)
    (hlist : z'.hdr.iFreeSlot = z.hdr.iFreeSlot ∧ z'.hdr.nFreeSlot = z.hdr.nFreeSlot ∧
      z'.hdr.nFreeByte = z.hdr.nFreeByte)
    (hfree : Free z {s | s ∈ freeSlots z.bytes offs ∅ ∧ s.1 ∈ offs'}) :
    Free z' (freeSlots z'.bytes offs' ∅) := by
  rw [hadv.freeSlots_eq h]
  apply hfl.congr z z' _ hfree hlist
  intro s hs i h1 _
  have hlow := hadv.low s.1 hs.2
  exact hadv.other (.inr (by omega))

end

/-- The first slot of the data area. -/
theorem ZipvfsFile.Layout.uncons {z : ZipvfsFile} {offs : List Nat} (h : z.Layout offs)
    (hlt : z.hdr.iDataStart < z.hdr.iDataEnd) (hgap : z.hdr.iDataStart ≠ z.hdr.iGapStart) :
    ∃ rest, offs = z.hdr.iDataStart :: rest ∧
      (∀ o ∈ rest, slotEnd z.bytes z.hdr.iDataStart ≤ o) ∧
      ∀ z' : ZipvfsFile, z.hdr.SameArea { z'.hdr with iDataStart := z.hdr.iDataStart } →
        z'.hdr.iDataStart = slotEnd z.bytes z.hdr.iDataStart →
        (∀ o ∈ rest, slotPayload z'.bytes o = slotPayload z.bytes o) → z'.Layout rest := by
  obtain ⟨gs, ge, front, back, rfl, hsplit, hhdr⟩ := h
  have hslot : ∀ (z' : ZipvfsFile) (os : List Nat),
      (∀ o ∈ os, slotPayload z'.bytes o = slotPayload z.bytes o) →
      ∀ o ∈ os, slotEnd z'.bytes o = slotEnd z.bytes o := by
    intro z' os hpayload o ho
    rw [slotEnd, slotEnd, hpayload o ho]
  cases front with
  | nil =>
    have hgs : gs = z.hdr.iDataStart := by
      cases hsplit.front
      rfl
    rcases hhdr with ⟨hg0, hg1, hge⟩ | ⟨hg, _⟩
    · have hback := hsplit.back
      rw [← hge, hgs] at hback
      obtain ⟨rest, rfl, _, hrest⟩ := hback.exists_cons hlt
      refine ⟨rest, rfl, fun o ho => (hrest.bounds ho).1, ?_⟩
      intro z' harea hstart hpayload
      obtain ⟨_, hend, hgs', hge'⟩ := harea
      refine ⟨z'.hdr.iDataStart, z'.hdr.iDataStart, [], rest, rfl, ⟨.nil _, Nat.le_refl _, ?_⟩, ?_⟩
      · rw [hstart, show z'.hdr.iDataEnd = z.hdr.iDataEnd from hend]
        exact hrest.congr (hslot z' rest hpayload)
      · exact .inl ⟨hgs'.trans hg0, hge'.trans hg1, rfl⟩
    · exact absurd (hgs.symm.trans hg.symm) hgap
  | cons x front =>
    obtain ⟨hfront, hgapLe, hback⟩ := hsplit
    cases hfront with
    | cons hx hrest =>
      have hbound := hrest.le
      refine ⟨front ++ back, rfl, ?_, ?_⟩
      · intro o ho
        rcases List.mem_append.mp ho with hf | hb
        · exact (hrest.bounds hf).1
        · have hlow := (hback.bounds hb).1
          omega
      · intro z' harea hstart hpayload
        obtain ⟨_, hend, hgs', hge'⟩ := harea
        have hsame := hslot z' _ hpayload
        refine ⟨gs, ge, front, back, rfl, ⟨?_, hgapLe, ?_⟩, ?_⟩
        · rw [hstart]
          exact hrest.congr fun o ho => hsame o (List.mem_append_left _ ho)
        · rw [show z'.hdr.iDataEnd = z.hdr.iDataEnd from hend]
          exact hback.congr fun o ho => hsame o (List.mem_append_right _ ho)
        · rw [ZipvfsHdr.Gap]
          rw [show z'.hdr.iGapStart = z.hdr.iGapStart from hgs',
            show z'.hdr.iGapEnd = z.hdr.iGapEnd from hge']
          exact hhdr

theorem clearStart_spec {z : ZipvfsFile} (hz : z.Paged) (hlow : 200 ≤ z.hdr.iDataStart) {n : Nat}
    (hreach : z.hdr.iDataStart + n ≤ pagerReach) :
    ∃ z', clearStart z n = .ok z' ∧ Inner z z' ∧
      z'.bytes = z.bytes.put z.hdr.iDataStart (List.replicate n 0) ∧
      z'.hdr = { z.hdr with iDataStart := z.hdr.iDataStart + n } := by
  obtain ⟨z1, hrun, hstored⟩ := hz.zipvfsStoreData_spec z.hdr.iDataStart
    (List.replicate n 0) (by rw [List.length_replicate]; exact hreach)
  have hhdr := hstored.hdr_eq
  refine ⟨{ z1 with hdr.iDataStart := z1.hdr.iDataStart + n }, ?_, ?_, hstored.bytes,
    by simp only [hhdr]⟩
  · simp only [clearStart, hrun, bind, Except.bind]
    rfl
  · exact (hstored.inner hlow).trans
      ⟨rfl, rfl, rfl, rfl, rfl, rfl, rfl, rfl, Nat.le_refl _, fun _ _ => rfl⟩

/-- A pass of the loop: the data area starts later, and does not grow at its end by more than it
loses at its start. -/
structure Expanded (D : List UInt8 → List UInt8 → Prop)
    (Free : ZipvfsFile → Set (Nat × Nat) → Prop) (page : Nat → Option (List UInt8))
    (z z' : ZipvfsFile) : Prop where
  holds : ∃ offs, Image D z' offs ∅ page ∧ Free z' (freeSlots z'.bytes offs ∅)
  inner : Inner z z'
  start : z.hdr.iDataStart ≤ z'.hdr.iDataStart
  grows : z'.hdr.iDataEnd + z.hdr.iDataStart ≤ z.hdr.iDataEnd + z'.hdr.iDataStart

section

variable {D : List UInt8 → List UInt8 → Prop} {fl : FreeList}
  {Free : ZipvfsFile → Set (Nat × Nat) → Prop} (hfl : fl.Keeps Free) {z : ZipvfsFile}
  {offs : List Nat} {page : Nat → Option (List UInt8)} (h : Image D z offs ∅ page)
  (hfree : Free z (freeSlots z.bytes offs ∅))

include h

/-- A data area without bytes has no slots, and the file is zero behind it. -/
theorem Image.emptyArea (hempty : z.hdr.iDataStart = z.hdr.iDataEnd) :
    offs = [] ∧ z.hdr.iGapStart = 0 ∧ ∀ i, z.hdr.iDataEnd ≤ i → z.bytes i = 0 := by
  have hnil : offs = [] := by
    rw [List.eq_nil_iff_forall_not_mem]
    intro o ho
    have hbounds := h.slot_bounds ho
    have hlt := lt_slotEnd z.bytes o
    omega
  refine ⟨hnil, h.tail.resolve_right ?_⟩
  intro hone
  obtain ⟨c, hc⟩ := Option.ne_none_iff_exists'.mp hone
  obtain ⟨o, _, ho, _⟩ := h.entry_some (h.inMap 1 hone) (Set.notMem_empty 1) hc
  rw [hnil] at ho
  cases ho

include hfl hfree

theorem expandStep_empty (nBuf : Nat) {iPg : Nat} (hempty : z.hdr.iDataStart = z.hdr.iDataEnd)
    (hmap : 200 + 8 * iPg < 2 ^ 31) (hlt : z.hdr.iDataStart < 200 + 8 * iPg) :
    ∃ z', expandStep fl nBuf iPg z = .ok z' ∧ Expanded D Free page z z' ∧
      z'.hdr.iDataStart = 200 + 8 * iPg := by
  obtain ⟨hnil, hgap, hzero⟩ := h.emptyArea hempty
  have hlow := h.dataStart
  have htarget : zipvfsPgmapEntry (iPg + 1) = 200 + 8 * iPg := by
    rw [zipvfsPgmapEntry_eq (by omega) (by omega)]
    omega
  obtain ⟨z1, hz1⟩ : ∃ z1, { z with
    hdr.iDataStart := 200 + 8 * iPg
    hdr.iDataEnd := 200 + 8 * iPg } = z1 := ⟨_, rfl⟩
  have hpaged1 : z1.Paged := by
    rw [← hz1]
    exact h.paged
  have hstart1 : z1.hdr.iDataStart = 200 + 8 * iPg := by rw [← hz1]
  have hbytes1 : z1.bytes = z.bytes := by
    rw [← hz1]
    rfl
  have hreach : 200 + 8 * iPg ≤ pagerReach := by
    rw [pagerReach]
    omega
  obtain ⟨z', hz', hinner, hbytes, hhdr⟩ :=
    clearStart_spec (n := 0) hpaged1 (by omega) (by omega)
  rw [List.replicate_zero, Cells.put_nil, hbytes1] at hbytes
  rw [← hz1] at hhdr
  have hend : z'.hdr.iDataEnd = 200 + 8 * iPg := by rw [hhdr]
  have hstart : z'.hdr.iDataStart = 200 + 8 * iPg := by
    rw [hhdr]
    rfl
  have hgs : z'.hdr.iGapStart = 0 := by
    rw [hhdr]
    exact hgap
  have hge : z'.hdr.iGapEnd = 0 := by
    obtain ⟨gs, ge, front, back, _, hsplit, hhgap⟩ := h.layout
    have hle := hsplit.front.le
    rw [hhdr]
    rcases hhgap with ⟨_, hg, _⟩ | ⟨hg, _⟩
    · exact hg
    · omega
  have hadv : Advance z z' offs [] (200 + 8 * iPg) := by
    refine ⟨by omega, hmap, ?_, hstart, ?_, by omega, ?_, ?_, ?_⟩
    · rw [hbytes]
      funext i
      by_cases hi : z.hdr.iDataStart ≤ i ∧ i < 200 + 8 * iPg
      · rw [Cells.put_of_mem _ hi.1 (by rw [List.length_replicate]; omega),
          List.getElem_replicate]
        exact hzero i (by omega)
      · rw [Cells.put_of_not_mem _ (by rw [List.length_replicate]; omega)]
    · refine ⟨_, _, [], [], rfl, ⟨.nil _, Nat.le_refl _, ?_⟩, .inl ⟨hgs, hge, rfl⟩⟩
      rw [hstart, hend]
      exact .nil _
    · intro o ho
      cases ho
    · intro o ho
      cases ho
    · intro o ho
      rw [hnil] at ho
      cases ho
  have hinner' : Inner z z' := by
    have h1 : Inner z z1 := by
      rw [← hz1]
      exact ⟨rfl, rfl, rfl, rfl, rfl, rfl, rfl, rfl, Nat.le_refl _, fun _ _ => rfl⟩
    exact h1.trans hinner
  refine ⟨z', ?_, ⟨⟨[], hadv.image h (hinner'.paged h.paged) hinner'.grows
    (.inr ⟨hgs.trans hgap.symm, by omega⟩), hadv.free h hfl ?_ ?_⟩, hinner', by omega, by omega⟩,
    hstart⟩
  · simp only [expandStep, if_pos hempty, htarget, bind, Except.bind, pure, Except.pure]
    rw [hz1, hz']
  · rw [hhdr]
    exact ⟨rfl, rfl, rfl⟩
  · rw [hnil] at hfree
    have hset : freeSlots z.bytes [] ∅ = {s | s ∈ freeSlots z.bytes offs ∅ ∧ s.1 ∈ []} := by
      apply Set.ext
      intro s
      constructor
      · intro hs
        cases hs.1
      · intro hs
        cases hs.2
    rw [hset] at hfree
    exact hfree

omit hfl hfree in
/-- A gap at the start of the data area. -/
theorem Image.startGap (hgap : z.hdr.iDataStart = z.hdr.iGapStart) :
    Chain (slotEnd z.bytes) z.hdr.iGapEnd z.hdr.iDataEnd offs ∧
      z.hdr.iGapStart ≤ z.hdr.iGapEnd ∧ page 1 ≠ none := by
  have hlow := h.dataStart
  obtain ⟨gs, ge, front, back, hoffs, ⟨hfront, hle, hback⟩, hhdr⟩ := h.layout
  rcases hhdr with ⟨hg0, _, _⟩ | ⟨hgs, hge⟩
  · omega
  · rw [hgap, hgs] at hfront
    rw [hfront.eq_nil, List.nil_append] at hoffs
    rw [hge, hgs, hoffs]
    refine ⟨hback, hle, ?_⟩
    rcases h.tail with ⟨hg0, _⟩ | hone
    · omega
    · exact hone

theorem expandStep_gap (nBuf iPg : Nat) (hne : z.hdr.iDataStart ≠ z.hdr.iDataEnd)
    (hgap : z.hdr.iDataStart = z.hdr.iGapStart) (hmap : z.hdr.iDataStart + 128 < 2 ^ 31) :
    ∃ z', expandStep fl nBuf iPg z = .ok z' ∧ Expanded D Free page z z' ∧
      z'.hdr.iDataStart ≤ z.hdr.iDataStart + 128 ∧
      (z'.hdr.iDataStart = z.hdr.iDataStart → z.hdr.iGapStart ≠ 0 ∧ z'.hdr.iGapStart = 0) := by
  obtain ⟨hback, hle, hone⟩ := h.startGap hgap
  have hlow := h.dataStart
  -- the gap that is left, and how much of it is cleared
  obtain ⟨gs, ge, n, hn, hrun, hrest⟩ : ∃ gs ge n, n ≤ 128 ∧
      expandStep fl nBuf iPg z = clearStart { z with
        hdr.iGapStart := gs
        hdr.iGapEnd := ge } n ∧
      (z.hdr.iGapEnd - z.hdr.iGapStart > 128 ∧ n = 128 ∧ gs = z.hdr.iGapStart + 128 ∧
          ge = z.hdr.iGapEnd ∨
        n = z.hdr.iGapEnd - z.hdr.iGapStart ∧ gs = 0 ∧ ge = 0) := by
    by_cases hbig : z.hdr.iGapEnd - z.hdr.iGapStart > 128
    · refine ⟨z.hdr.iGapStart + 128, z.hdr.iGapEnd, 128, Nat.le_refl _, ?_,
        .inl ⟨hbig, rfl, rfl, rfl⟩⟩
      simp only [expandStep, if_neg hne, if_pos hgap, if_pos hbig, bind, Except.bind, pure,
        Except.pure]
    · refine ⟨0, 0, z.hdr.iGapEnd - z.hdr.iGapStart, by omega, ?_, .inr ⟨rfl, rfl, rfl⟩⟩
      simp only [expandStep, if_neg hne, if_pos hgap, if_neg hbig, bind, Except.bind, pure,
        Except.pure]
  obtain ⟨z1, hz1⟩ : ∃ z1, { z with
    hdr.iGapStart := gs
    hdr.iGapEnd := ge } = z1 := ⟨_, rfl⟩
  have hinner1 : Inner z z1 := by
    rw [← hz1]
    exact ⟨rfl, rfl, rfl, rfl, rfl, rfl, rfl, rfl, Nat.le_refl _, fun _ _ => rfl⟩
  have hhdr1 : z1.hdr = { z.hdr with iGapStart := gs, iGapEnd := ge } := by rw [← hz1]
  have hbytes1 : z1.bytes = z.bytes := by
    rw [← hz1]
    rfl
  rw [hz1] at hrun
  have hstart1 : z1.hdr.iDataStart = z.hdr.iDataStart := by rw [hhdr1]
  have hreach : z.hdr.iDataStart + 128 ≤ pagerReach := by
    rw [pagerReach]
    omega
  obtain ⟨z', hz', hinner, hbytes, hhdr⟩ :=
    clearStart_spec (n := n) (hinner1.paged h.paged) (by omega) (by omega)
  rw [hbytes1, hstart1] at hbytes
  rw [hhdr1] at hhdr
  have hstart : z'.hdr.iDataStart = z.hdr.iDataStart + n := by rw [hhdr]
  have hend : z'.hdr.iDataEnd = z.hdr.iDataEnd := by rw [hhdr]
  have hgs : z'.hdr.iGapStart = gs := by rw [hhdr]
  have hge : z'.hdr.iGapEnd = ge := by rw [hhdr]
  have hroom : n ≤ z.hdr.iGapEnd - z.hdr.iGapStart := by omega
  have hslot : ∀ o ∈ offs, z.hdr.iGapEnd ≤ o := fun o ho => (hback.bounds ho).1
  have hother : ∀ i, z.hdr.iGapEnd ≤ i → z'.bytes i = z.bytes i := by
    intro i hi
    rw [hbytes]
    exact Cells.put_of_not_mem _ (.inr (by rw [List.length_replicate]; omega))
  have hback' : Chain (slotEnd z'.bytes) z.hdr.iGapEnd z'.hdr.iDataEnd offs := by
    rw [hend]
    apply hback.congr
    intro o ho
    have hlowo := hslot o ho
    rw [slotEnd, slotEnd, (slotHdr_congr fun i h1 _ => hother i (by omega)).2]
  have hadv : Advance z z' offs offs (z.hdr.iDataStart + n) := by
    refine ⟨by omega, by omega, ?_, hstart, ?_, by rw [hend]; exact h.dataEnd, fun o ho => ho, ?_,
      fun o ho _ => ho⟩
    · rw [hbytes, Nat.add_sub_cancel_left]
    · rcases hrest with ⟨hbig, rfl, hgs0, hge0⟩ | ⟨hn0, hgs0, hge0⟩
      · refine ⟨z.hdr.iDataStart + 128, z.hdr.iGapEnd, [], offs, rfl,
          ⟨by rw [hstart]; exact .nil _, by omega, hback'⟩, .inr ⟨by omega, by omega⟩⟩
      · refine ⟨z.hdr.iGapEnd, z.hdr.iGapEnd, [], offs, rfl, ⟨?_, Nat.le_refl _, hback'⟩,
          .inl ⟨by omega, by omega, rfl⟩⟩
        rw [hstart, show z.hdr.iDataStart + n = z.hdr.iGapEnd by omega]
        exact .nil _
    · intro o ho
      have hlowo := hslot o ho
      omega
  have hinner' := hinner1.trans hinner
  refine ⟨z', hrun.trans hz', ⟨⟨offs, hadv.image h (hinner'.paged h.paged) hinner'.grows
    (.inl hone), hadv.free h hfl ?_ ?_⟩, hinner', by omega, by omega⟩, by omega, by omega⟩
  · rw [hhdr]
    exact ⟨rfl, rfl, rfl⟩
  · have hset : freeSlots z.bytes offs ∅ = {s | s ∈ freeSlots z.bytes offs ∅ ∧ s.1 ∈ offs} := by
      apply Set.ext
      intro s
      exact ⟨fun hs => ⟨hs, hs.1⟩, fun hs => hs.1⟩
    rw [← hset]
    exact hfree

/-- The first slot of the data area goes, when it is free. -/
theorem removeFirst_spec (hwrite : 1 < z.inWriteTrans) (hlt : z.hdr.iDataStart < z.hdr.iDataEnd)
    (hgap : z.hdr.iDataStart ≠ z.hdr.iGapStart) {n : Nat}
    (hs : (z.hdr.iDataStart, n) ∈ freeSlots z.bytes offs ∅)
    (hmap : z.hdr.iDataStart + 6 + n < 2 ^ 31) :
    ∃ z1 z', fl.zipvfsFreelistRemove z z.hdr.iDataStart n = .ok z1 ∧
      clearStart z1 (n + 6) = .ok z' ∧ Expanded D Free page z z' ∧
      z'.hdr.iDataStart = z.hdr.iDataStart + 6 + n ∧ z'.hdr.iDataEnd = z.hdr.iDataEnd ∧
      z'.hdr.iGapStart = z.hdr.iGapStart := by
  obtain ⟨z1, hrun, hrest, hfree1⟩ := hfl.remove z _ _ h.paged hwrite hfree hs
  obtain ⟨h1, hset, hslots⟩ := h.untouched hrest
  obtain ⟨hstart1, hend1, hgs1, hge1⟩ := hrest.sameArea
  have hn := hs.2.2
  simp only at hn
  have hend : slotEnd z1.bytes z1.hdr.iDataStart = z.hdr.iDataStart + 6 + n := by
    rw [slotEnd, zipvfsSlotHdrSize, hstart1, hslots.payload _ hs.1, ← hn]
  obtain ⟨rest, hoffs, hlow, hlayout⟩ := h1.layout.uncons (by omega) (by omega)
  rw [hend] at hlow hlayout
  rw [hstart1] at hoffs
  have hlow1 := h1.dataStart
  obtain ⟨z', hz', hinner, hbytes, hhdr⟩ := clearStart_spec (n := n + 6) h1.paged hlow1
    (by rw [pagerReach]; omega)
  have hstart : z'.hdr.iDataStart = z.hdr.iDataStart + 6 + n := by
    rw [hhdr]
    simp only
    omega
  have hdataEnd : z'.hdr.iDataEnd = z1.hdr.iDataEnd := by rw [hhdr]
  have hother : ∀ i, z.hdr.iDataStart + 6 + n ≤ i → z'.bytes i = z1.bytes i := by
    intro i hi
    rw [hbytes]
    exact Cells.put_of_not_mem _ (.inr (by rw [List.length_replicate]; omega))
  have hfreeFirst : ¬ Used z1.bytes ∅ z.hdr.iDataStart := by
    have hmem := hs
    rw [← hset] at hmem
    exact hmem.2.1
  have hadv : Advance z1 z' offs rest (z.hdr.iDataStart + 6 + n) := by
    refine ⟨by omega, hmap, ?_, hstart, ?_, by rw [hdataEnd]; exact h1.dataEnd, ?_, hlow, ?_⟩
    · rw [hbytes, show z.hdr.iDataStart + 6 + n - z1.hdr.iDataStart = n + 6 by omega]
    · refine hlayout z' ?_ hstart ?_
      · rw [hhdr]
        exact ⟨rfl, rfl, rfl, rfl⟩
      · intro o ho
        have hlowo := hlow o ho
        exact (slotHdr_congr fun i h1 _ => hother i (by omega)).2
    · intro o ho
      rw [hoffs]
      exact List.mem_cons_of_mem _ ho
    · intro o ho hused
      rw [hoffs] at ho
      rcases List.mem_cons.mp ho with rfl | hmem
      · exact absurd hused hfreeFirst
      · exact hmem
  have hinner' := hslots.inner.trans hinner
  refine ⟨z1, z', hrun, hz', ⟨⟨rest, hadv.image h1 (hinner'.paged h.paged) hinner.grows (.inr ?_),
    hadv.free h1 hfl ?_ ?_⟩, hinner', by omega, by omega⟩, hstart, by omega,
    by rw [hhdr]; exact hgs1⟩
  · rw [hhdr]
    exact ⟨rfl, Nat.le_refl _⟩
  · rw [hhdr]
    exact ⟨rfl, rfl, rfl⟩
  · have hsplit : freeSlots z.bytes offs ∅ \ {(z.hdr.iDataStart, n)} =
        {s | s ∈ freeSlots z1.bytes offs ∅ ∧ s.1 ∈ rest} := by
      rw [hset]
      apply Set.ext
      intro s
      constructor
      · intro hmem
        refine ⟨hmem.1, ?_⟩
        have hin := hmem.1.1
        rw [hoffs] at hin
        rcases List.mem_cons.mp hin with heq | hin
        · refine absurd (Prod.ext heq ?_) hmem.2
          rw [hmem.1.2.2, heq]
          exact hn.symm
        · exact hin
      · intro hmem
        refine ⟨hmem.1, ?_⟩
        intro heq
        have hlows := hlow s.1 hmem.2
        have hfst := congrArg Prod.fst heq
        simp only at hfst
        omega
    rw [← hsplit]
    exact hfree1

/-- The first slot goes: its record is moved to the end, if it has one. -/
theorem expandStep_slot (hwrite : 1 < z.inWriteTrans) {nBuf : Nat}
    (hbuf : ∀ q blob c, page q = some c → D blob c → blob.length ≤ nBuf) (iPg : Nat)
    (hne : z.hdr.iDataStart ≠ z.hdr.iDataEnd)
    (hgap : z.hdr.iDataStart ≠ z.hdr.iGapStart)
    (hstored : ∀ q, page q ≠ none → (q - 1) * z.hdr.pgsz % 2 ^ 32 < z.hdr.iSize)
    (hmap : z.hdr.iDataStart + 6 + 2 ^ 17 < 2 ^ 31)
    (hroom : z.hdr.iDataEnd + 2 ^ 18 ≤ pagerReach) :
    ∃ z', expandStep fl nBuf iPg z = .ok z' ∧ Expanded D Free page z z' ∧
      z.hdr.iDataStart + 6 ≤ z'.hdr.iDataStart ∧
      z'.hdr.iDataStart ≤ z.hdr.iDataStart + 6 + 2 ^ 17 ∧
      z'.hdr.iGapStart = z.hdr.iGapStart := by
  have hlt : z.hdr.iDataStart < z.hdr.iDataEnd := Nat.lt_of_le_of_ne h.layout.le hne
  obtain ⟨rest, hoffs, _⟩ := h.layout.uncons hlt hgap
  have ho : z.hdr.iDataStart ∈ offs := by
    rw [hoffs]
    exact List.mem_cons_self
  have hread := h.readSlotHdr hwrite ho
  have hfind := zipvfsFindPage_eq h.paged (slotPage z.bytes z.hdr.iDataStart)
  have hsize := slotPayload_lt z.bytes z.hdr.iDataStart
  by_cases hused : Used z.bytes ∅ z.hdr.iDataStart
  · obtain ⟨blob, c, hc, hrec, _, hD⟩ := h.record_of_used ho hused
    have hp := (h.slots _ ho).2
    have hfound := h.findPage_record ho hrec
    have hfits := hrec.fits
    have hmin := (h.slots _ ho).1
    have hnew : newSlot blob ≤ slotPayload z.bytes z.hdr.iDataStart := Nat.max_le.mpr ⟨hfits, hmin⟩
    have hload := h.loadRecord hwrite ho hrec (hbuf _ _ _ hc hD)
    obtain ⟨z1, hrun, hwrote, hend, hold⟩ := zipvfsWritePage_append hfl hwrite h hfree hp
      (hstored _) hD hrec.pos (by rw [zipvfsMaxPayload]; omega) (by omega)
    have hsame : Function.update page (slotPage z.bytes z.hdr.iDataStart) (some c) = page := by
      rw [← hc, Function.update_eq_self]
    rw [hsame] at hwrote
    have hstart := hwrote.dataStart
    have hgs := hwrote.gap.1
    have hs := hold _ ho rfl
    rw [← hstart] at hs
    obtain ⟨z2, z', hremove, hclear, hexp, hstart', hend', hgs'⟩ := removeFirst_spec hfl
      hwrote.image hwrote.free (hwrote.inner.write hwrite) (by omega) (by omega) hs
      (by rw [hstart]; omega)
    rw [hstart] at hremove hclear hstart'
    refine ⟨z', ?_, ⟨hexp.holds, hwrote.inner.trans hexp.inner, by omega, by omega⟩, by omega,
      by omega, by omega⟩
    simp only [expandStep, if_neg hne, if_neg hgap, hread, hfound, hload, hrun, hstart, hremove,
      hclear, if_true, bind, Except.bind, pure, Except.pure]
  · have hs : (z.hdr.iDataStart, slotPayload z.bytes z.hdr.iDataStart) ∈
        freeSlots z.bytes offs ∅ := ⟨ho, hused, rfl⟩
    have hother : ¬ entryOffset (mapEntry z.bytes (slotPage z.bytes z.hdr.iDataStart)) =
        z.hdr.iDataStart := fun heq => hused ⟨Set.notMem_empty _, heq⟩
    obtain ⟨z1, z', hremove, hclear, hexp, hstart', hend', hgs'⟩ := removeFirst_spec hfl h hfree
      hwrite hlt hgap hs (by omega)
    refine ⟨z', ?_, hexp, by omega, by omega, hgs'⟩
    simp only [expandStep, if_neg hne, if_neg hgap, hread, hfind, if_neg hother, hremove, hclear,
      bind, Except.bind, pure, Except.pure]

/-- The map has room for a page when the loop ends, and the loop ends. -/
theorem expandPgmap_spec (hwrite : 1 < z.inWriteTrans) {nBuf : Nat}
    (hbuf : ∀ q blob c, page q = some c → D blob c → blob.length ≤ nBuf) (iPg : Nat)
    (hstored : ∀ q, page q ≠ none → (q - 1) * z.hdr.pgsz % 2 ^ 32 < z.hdr.iSize)
    (hmap : 200 + 8 * iPg + 2 ^ 18 ≤ 2 ^ 31) (hroom : z.hdr.iDataEnd + 2 ^ 33 ≤ pagerReach) :
    ∃ z', expandPgmap fl nBuf iPg z = .ok z' ∧ Expanded D Free page z z' ∧
      200 + 8 * iPg ≤ z'.hdr.iDataStart := by
  have htarget : zipvfsPgmapEntry (iPg + 1) = 200 + 8 * iPg := by
    rw [zipvfsPgmapEntry_eq (by omega) (by omega)]
    omega
  have hloop := Ends.whileDo
    (fun z : ZipvfsFile => decide (zipvfsPgmapEntry (iPg + 1) > z.hdr.iDataStart))
    (expandStep fl nBuf iPg) ErrorCode.outOfFuel (Expanded D Free page z)
    (fun z => 2 * (200 + 8 * iPg - z.hdr.iDataStart) + min z.hdr.iGapStart 1) (fun _ => False)
    (fun z1 hexp hc => by
      obtain ⟨⟨offs1, h1, hfree1⟩, hinner, hstart, hgrows⟩ := hexp
      have hlt : z1.hdr.iDataStart < 200 + 8 * iPg := by
        rw [htarget] at hc
        exact of_decide_eq_true hc
      have hnext : ∀ z', expandStep fl nBuf iPg z1 = .ok z' → Expanded D Free page z1 z' →
          2 * (200 + 8 * iPg - z'.hdr.iDataStart) + min z'.hdr.iGapStart 1 <
            2 * (200 + 8 * iPg - z1.hdr.iDataStart) + min z1.hdr.iGapStart 1 →
          Ends (expandStep fl nBuf iPg z1) (fun z' => Expanded D Free page z z' ∧
            2 * (200 + 8 * iPg - z'.hdr.iDataStart) + min z'.hdr.iGapStart 1 <
              2 * (200 + 8 * iPg - z1.hdr.iDataStart) + min z1.hdr.iGapStart 1)
            fun _ => False := by
        intro z' hrun hexp' hless
        rw [hrun]
        have h1 := hexp'.start
        have h2 := hexp'.grows
        exact ⟨⟨hexp'.holds, hinner.trans hexp'.inner, by omega, by omega⟩, hless⟩
      by_cases hempty : z1.hdr.iDataStart = z1.hdr.iDataEnd
      · obtain ⟨z', hrun, hexp', hstart'⟩ := expandStep_empty hfl h1 hfree1 nBuf hempty
          (by omega) hlt
        exact hnext z' hrun hexp' (by omega)
      · by_cases hgap : z1.hdr.iDataStart = z1.hdr.iGapStart
        · obtain ⟨z', hrun, hexp', _, hsame⟩ :=
            expandStep_gap hfl h1 hfree1 nBuf iPg hempty hgap (by omega)
          have hle := hexp'.start
          exact hnext z' hrun hexp' (by omega)
        · obtain ⟨z', hrun, hexp', hmore, _, hsame⟩ :=
            expandStep_slot hfl h1 hfree1 (hinner.write hwrite) hbuf iPg hempty hgap
            (by rw [hinner.pgsz, hinner.iSize]; exact hstored) (by omega)
            (by have hsize := h1.mapSize; omega)
          exact hnext z' hrun hexp' (by omega))
    (2 * zipvfsPgmapEntry (iPg + 1) + 2) z
    ⟨⟨offs, h, hfree⟩, Inner.refl z, Nat.le_refl _, Nat.le_refl _⟩ (by omega)
  obtain ⟨z', hrun, hexp, hc⟩ := hloop.ok_of_not fun e he => he
  refine ⟨z', hrun, hexp, ?_⟩
  rw [htarget] at hc
  have hnot := of_decide_eq_false hc
  omega

end

end NdsDevkit.Zipvfs
