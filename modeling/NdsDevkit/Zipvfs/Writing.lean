import NdsDevkit.Zipvfs.Placing

namespace NdsDevkit.Zipvfs

open Framework ZipvfsFile

section

variable {D : List UInt8 → List UInt8 → Prop} {z z' : ZipvfsFile} {offs : List Nat}
  {page : Nat → Option (List UInt8)} {p o n : Nat} {blob c : List UInt8}

theorem place_free (h : Image D z offs {p} page) (hs : (o, n) ∈ freeSlots z.bytes offs {p}) :
    Place z p offs offs o n := by
  obtain ⟨ho, hfree, hn⟩ := hs
  refine ⟨(h.slot_bounds ho).2.1, ho, ?_, ?_⟩
  · intro o' ho' hne
    refine ⟨ho', ?_⟩
    have hapart := h.layout.apart ho' ho hne
    rw [slotEnd.eq_def z.bytes o, zipvfsSlotHdrSize, ← hn] at hapart
    exact hapart
  · intro o' ho' hused
    refine ⟨ho', ?_⟩
    intro heq
    rw [heq] at hused
    exact hfree hused

theorem place_append (h : Image D z offs {p} page) (n : Nat) :
    Place z p offs (offs ++ [z.hdr.iDataEnd]) z.hdr.iDataEnd n := by
  have hbelow : ∀ o' ∈ offs, o' ≠ z.hdr.iDataEnd ∧ slotEnd z.bytes o' ≤ z.hdr.iDataEnd := by
    intro o' ho'
    have hend := (h.slot_bounds ho').2.2.1
    have hlt := lt_slotEnd z.bytes o'
    exact ⟨by omega, hend⟩
  refine ⟨h.layout.le, by simp, ?_, ?_⟩
  · intro o' ho' hne
    have hmem : o' ∈ offs := by simpa [hne] using ho'
    exact ⟨hmem, .inl (hbelow o' hmem).2⟩
  · intro o' ho' _
    exact ⟨List.mem_append_left _ ho', (hbelow o' ho').1⟩

/-- The layout stays when the sizes of the slots do. -/
theorem ZipvfsFile.Layout.congr (h : z.Layout offs) (harea : z.hdr.SameArea z'.hdr)
    (hpayload : ∀ o ∈ offs, slotPayload z'.bytes o = slotPayload z.bytes o) : z'.Layout offs := by
  obtain ⟨hstart, hend, hgs, hge⟩ := harea
  obtain ⟨gs, ge, front, back, hoffs, hsplit, hgap⟩ := h
  have hslot : ∀ o ∈ offs, slotEnd z'.bytes o = slotEnd z.bytes o := by
    intro o ho
    rw [slotEnd, slotEnd, hpayload o ho]
  refine ⟨gs, ge, front, back, hoffs, ⟨?_, hsplit.gap, ?_⟩, ?_⟩
  · rw [hstart]
    exact hsplit.front.congr fun o ho => hslot o (by rw [hoffs]; exact List.mem_append_left _ ho)
  · rw [hend]
    exact hsplit.back.congr fun o ho => hslot o (by rw [hoffs]; exact List.mem_append_right _ ho)
  · rw [ZipvfsHdr.Gap, hgs, hge]
    exact hgap

/-- One more slot at the end of the data area. -/
theorem ZipvfsFile.Layout.append (h : z.Layout offs) (hstart : z'.hdr.iDataStart = z.hdr.iDataStart)
    (hgap : z'.hdr.iGapStart = z.hdr.iGapStart ∧ z'.hdr.iGapEnd = z.hdr.iGapEnd)
    (hpayload : ∀ o ∈ offs, slotPayload z'.bytes o = slotPayload z.bytes o)
    (hend : z'.hdr.iDataEnd = slotEnd z'.bytes z.hdr.iDataEnd) :
    z'.Layout (offs ++ [z.hdr.iDataEnd]) := by
  obtain ⟨gs, ge, front, back, hoffs, hsplit, hhdr⟩ := h
  have hslot : ∀ o ∈ offs, slotEnd z'.bytes o = slotEnd z.bytes o := by
    intro o ho
    rw [slotEnd, slotEnd, hpayload o ho]
  have hlt := lt_slotEnd z'.bytes z.hdr.iDataEnd
  have hback := hsplit.back.congr fun o ho =>
    hslot o (by rw [hoffs]; exact List.mem_append_right _ ho)
  refine ⟨gs, ge, front, back ++ [z.hdr.iDataEnd], by rw [hoffs, List.append_assoc],
    ⟨?_, hsplit.gap, ?_⟩, ?_⟩
  · rw [hstart]
    exact hsplit.front.congr fun o ho => hslot o (by rw [hoffs]; exact List.mem_append_left _ ho)
  · rw [hend]
    exact hback.snoc (by omega)
  · rw [ZipvfsHdr.Gap, hgap.1, hgap.2]
    exact hhdr

variable (h : Image D z offs {p} page) (hp : z.InMap p) (hD : D blob c) (hpos : 0 < blob.length)
  (hlen : blob.length ≤ n) {fl : FreeList} {Free : ZipvfsFile → Set (Nat × Nat) → Prop}
  (hfl : fl.Keeps Free) (hpaged : z'.Paged) (hgrows : z.Grows z')
  (hlist : z'.hdr.iFreeSlot = z.hdr.iFreeSlot ∧ z'.hdr.nFreeSlot = z.hdr.nFreeSlot ∧
    z'.hdr.nFreeByte = z.hdr.nFreeByte)

include h hp hD hpos hlen hfl hpaged hgrows hlist

/-- A record in a free slot. -/
theorem written_to_free (hs : (o, n) ∈ freeSlots z.bytes offs {p})
    (hfree : Free z (freeSlots z.bytes offs {p} \ {(o, n)})) (harea : z.hdr.SameArea z'.hdr)
    (hbytes : z'.bytes = written z.bytes p o blob (n - blob.length))
    (hcovers : z'.Covers o (o + 6 + blob.length)) :
    Image D z' offs ∅ (Function.update page p (some c)) ∧
      Free z' (freeSlots z'.bytes offs ∅) := by
  have hsum : blob.length + (n - blob.length) = n := by omega
  have hplace := place_free h hs
  rw [← hsum] at hplace
  obtain ⟨ho, _, hn⟩ := hs
  simp only at ho hn
  have hsize : blob.length + (n - blob.length) < 2 ^ 17 := by
    rw [hsum, hn]
    exact slotPayload_lt _ _
  obtain ⟨_, hlow, hhigh, ho40⟩ := h.slot_bounds ho
  have hmin := (h.slots o ho).1
  obtain ⟨hstart, hend, hgs, hge⟩ := harea
  rw [slotEnd, zipvfsSlotHdrSize] at hhigh
  refine ⟨h.written hp hplace hbytes hsize hD hpos (by omega) hpaged hgrows hcovers hstart ?_
    (by rw [hend]; exact h.dataEnd) (by rw [hend]; omega) (.inr ⟨hgs, by rw [hend]⟩), ?_⟩
  · apply h.layout.congr ⟨hstart, hend, hgs, hge⟩
    intro o' ho'
    by_cases heq : o' = o
    · rw [heq, hbytes, (slotHdr_written _ _ (hp.lt h.mapSize) hsize).2, hsum]
      exact hn
    · exact (written_hdr h hp hplace hbytes ho' heq).2
  · apply written_free h hp hplace hbytes hsize ho40 hfl (rfl : z.bytes = z.bytes) hlist
    have hset : freeSlots z.bytes offs {p} \ {(o, n)} =
        {s | s ∈ freeSlots z.bytes offs {p} ∧ s.1 ∈ offs ∧ s.1 ≠ o} := by
      apply Set.ext
      intro s
      constructor
      · intro hs
        refine ⟨hs.1, hs.1.1, ?_⟩
        intro heq
        apply hs.2
        have hs2 := hs.1.2.2
        rw [heq, ← hn] at hs2
        exact Prod.ext heq hs2
      · intro hs
        refine ⟨hs.1, ?_⟩
        intro heq
        exact hs.2.2 (congrArg Prod.fst heq)
    rw [hset] at hfree
    exact hfree

/-- A record behind the data area. -/
theorem written_to_end (hmin : zipvfsMinPayload ≤ n) (hsize : n < 2 ^ 17)
    (hfree : Free z (freeSlots z.bytes offs {p}))
    (harea : z.hdr.SameArea { z'.hdr with iDataEnd := z.hdr.iDataEnd })
    (hend : z'.hdr.iDataEnd = z.hdr.iDataEnd + 6 + n)
    (hroom : z.hdr.iDataEnd + 6 + n ≤ pagerReach)
    (hbytes : z'.bytes = written z.bytes p z.hdr.iDataEnd blob (n - blob.length))
    (hcovers : z'.Covers z.hdr.iDataEnd (z.hdr.iDataEnd + 6 + blob.length)) :
    Image D z' (offs ++ [z.hdr.iDataEnd]) ∅ (Function.update page p (some c)) ∧
      Free z' (freeSlots z'.bytes (offs ++ [z.hdr.iDataEnd]) ∅) ∧
      freeSlots z'.bytes (offs ++ [z.hdr.iDataEnd]) ∅ = freeSlots z.bytes offs {p} ∧
      ∀ o ∈ offs, slotPage z'.bytes o = slotPage z.bytes o ∧
        slotPayload z'.bytes o = slotPayload z.bytes o := by
  have hsum : blob.length + (n - blob.length) = n := by omega
  have hplace := place_append h n
  rw [← hsum] at hplace
  have hsize' : blob.length + (n - blob.length) < 2 ^ 17 := by
    rw [hsum]
    exact hsize
  have ho40 : z.hdr.iDataEnd < 2 ^ 40 := by
    rw [pagerReach] at hroom
    omega
  obtain ⟨hstart, _, hgs, hge⟩ := harea
  have hold : ∀ o' ∈ offs, o' ≠ z.hdr.iDataEnd := by
    intro o' ho'
    have hhigh := (h.slot_bounds ho').2.2.1
    have hlt := lt_slotEnd z.bytes o'
    omega
  have hhdr : ∀ o' ∈ offs, slotPage z'.bytes o' = slotPage z.bytes o' ∧
      slotPayload z'.bytes o' = slotPayload z.bytes o' := fun o' ho' =>
    written_hdr h hp hplace hbytes (List.mem_append_left _ ho') (hold o' ho')
  have hset : freeSlots z.bytes offs {p} = {s | s ∈ freeSlots z.bytes offs {p} ∧
      s.1 ∈ offs ++ [z.hdr.iDataEnd] ∧ s.1 ≠ z.hdr.iDataEnd} := by
    apply Set.ext
    intro s
    constructor
    · intro hs
      exact ⟨hs, List.mem_append_left _ hs.1, hold s.1 hs.1⟩
    · intro hs
      exact hs.1
  have hslots := freeSlots_written h hp hplace hbytes hsize' ho40
  rw [← hset] at hslots
  refine ⟨h.written hp hplace hbytes hsize' hD hpos (by omega) hpaged hgrows hcovers hstart ?_
    (by rw [hend]; exact hroom) (by rw [hend]; omega) (.inr ⟨hgs, by rw [hend]; omega⟩), ?_,
    hslots, hhdr⟩
  · apply h.layout.append hstart ⟨hgs, hge⟩ fun o ho => (hhdr o ho).2
    rw [slotEnd, zipvfsSlotHdrSize, hbytes, (slotHdr_written _ _ (hp.lt h.mapSize) hsize').2, hsum]
    exact hend
  · apply written_free h hp hplace hbytes hsize' ho40 hfl (rfl : z.bytes = z.bytes) hlist
    rw [← hset]
    exact hfree

end

section

variable {D : List UInt8 → List UInt8 → Prop} {fl : FreeList}
  {Free : ZipvfsFile → Set (Nat × Nat) → Prop} (hfl : fl.Keeps Free) {z : ZipvfsFile}
  {offs : List Nat} {page : Nat → Option (List UInt8)} {p : Nat} {blob c : List UInt8}

/-- What the file holds after a page has been written. -/
structure Wrote (D : List UInt8 → List UInt8 → Prop) (Free : ZipvfsFile → Set (Nat × Nat) → Prop)
    (z z' : ZipvfsFile) (offs : List Nat) (page : Nat → Option (List UInt8)) : Prop where
  image : Image D z' offs ∅ page
  free : Free z' (freeSlots z'.bytes offs ∅)
  inner : Inner z z'
  dataStart : z'.hdr.iDataStart = z.hdr.iDataStart
  gap : z'.hdr.iGapStart = z.hdr.iGapStart ∧ z'.hdr.iGapEnd = z.hdr.iGapEnd

/-- The size of a new slot for a record. -/
def newSlot (blob : List UInt8) : Nat := max blob.length zipvfsMinPayload

/-- The first 200 bytes stay. -/
theorem written_head (h : Image D z offs {p} page) (hp : z.InMap p) {o pad i : Nat}
    (ho : z.hdr.iDataStart ≤ o) (hi : i < 200) : written z.bytes p o blob pad i = z.bytes i := by
  have hlow := h.dataStart
  obtain ⟨hp1, hmap⟩ := hp
  apply written_other
  · rw [ZipvfsFile.InMap.entry_eq ⟨hp1, hmap⟩ h.mapSize]
    omega
  · omega

/-- A slot is filled: the record is written, and the end of the data area follows. -/
theorem fillSlot_spec (h : Image D z offs {p} page) (hp : z.InMap p) {o n : Nat}
    (ho : z.hdr.iDataStart ≤ o) (hn : blob.length ≤ n)
    (hreach : o + 6 + blob.length ≤ pagerReach) :
    ∃ z', fillSlot z p o n blob = .ok z' ∧ Inner z z' ∧
      (z'.hdr.iFreeSlot = z.hdr.iFreeSlot ∧ z'.hdr.nFreeSlot = z.hdr.nFreeSlot ∧
        z'.hdr.nFreeByte = z.hdr.nFreeByte) ∧
      z.hdr.SameArea { z'.hdr with iDataEnd := z.hdr.iDataEnd } ∧
      z'.hdr.iDataEnd = max (o + 6 + n) z.hdr.iDataEnd ∧
      z'.bytes = written z.bytes p o blob (n - blob.length) ∧
      z'.Covers o (o + 6 + blob.length) := by
  obtain ⟨z1, hrun, hto⟩ := zipvfsWritePageTo_spec h.paged p (n - blob.length) hreach
  have hhdr : z1.hdr = z.hdr := (congrArg ZipvfsFile.hdr hto.rest :)
  have hn1 := congrArg ZipvfsFile.nPgsz hto.rest
  have ht := congrArg ZipvfsFile.inWriteTrans hto.rest
  have hu := congrArg ZipvfsFile.nUsrPage hto.rest
  have hm := congrArg ZipvfsFile.nMaxFree hto.rest
  have hb := congrArg ZipvfsFile.nCompressionBuffer hto.rest
  refine ⟨{ z1 with
    hdr.iDataEnd := max (o + 6 + n) z.hdr.iDataEnd
    hdr.nFreeFragment := z1.hdr.nFreeFragment + (n - blob.length) }, ?_, ?_, ?_, ?_, rfl,
    hto.bytes, hto.covers⟩
  · simp only [fillSlot, hrun, bind, Except.bind]
    rw [show o + 6 + blob.length + (n - blob.length) = o + 6 + n by omega, hhdr]
    rfl
  · refine ⟨hn1, ht, hu, hm, hb, by simp only [hhdr], by simp only [hhdr], by simp only [hhdr],
      hto.size, ?_⟩
    intro i hi
    change z1.bytes i = z.bytes i
    rw [hto.bytes]
    exact written_head h hp ho hi
  · simp only [hhdr, and_self]
  · simp only [hhdr, ZipvfsHdr.SameArea, and_self]

include hfl

/-- A new slot behind the data area is filled. -/
theorem fillSlot_end (h : Image D z offs {p} page) (hfree : Free z (freeSlots z.bytes offs {p}))
    (hp : z.InMap p) (hD : D blob c) (hpos : 0 < blob.length)
    (hmax : blob.length ≤ zipvfsMaxPayload)
    (hroom : z.hdr.iDataEnd + 6 + newSlot blob ≤ pagerReach) :
    ∃ z', fillSlot z p z.hdr.iDataEnd (newSlot blob) blob = .ok z' ∧
      Wrote D Free z z' (offs ++ [z.hdr.iDataEnd]) (Function.update page p (some c)) ∧
      SameSlots offs z z' ∧ z'.hdr.iDataEnd = z.hdr.iDataEnd + 6 + newSlot blob ∧
      freeSlots z'.bytes (offs ++ [z.hdr.iDataEnd]) ∅ = freeSlots z.bytes offs {p} := by
  have hn : blob.length ≤ newSlot blob := Nat.le_max_left _ _
  have hmin : zipvfsMinPayload ≤ newSlot blob := Nat.le_max_right _ _
  have hsize : newSlot blob < 2 ^ 17 := by
    rw [newSlot, zipvfsMinPayload]
    rw [zipvfsMaxPayload] at hmax
    omega
  obtain ⟨z', hz', hinner, hlist, harea, hend, hbytes, hcovers⟩ :=
    fillSlot_spec h hp h.layout.le hn (by omega)
  have hdataEnd : z'.hdr.iDataEnd = z.hdr.iDataEnd + 6 + newSlot blob := by omega
  obtain ⟨himage, hfree', hset, hhdr⟩ := written_to_end h hp hD hpos hn hfl
    (hinner.paged h.paged) hinner.grows hlist hmin hsize hfree harea hdataEnd hroom hbytes hcovers
  obtain ⟨hstart, _, hgs, hge⟩ := harea
  exact ⟨z', hz', ⟨himage, hfree', hinner, hstart, hgs, hge⟩,
    ⟨fun o ho => (hhdr o ho).1, fun o ho => (hhdr o ho).2, hinner⟩, hdataEnd, hset⟩

/-- A free slot is filled. -/
theorem fillSlot_free {o n : Nat} (h : Image D z offs {p} page)
    (hs : (o, n) ∈ freeSlots z.bytes offs {p})
    (hfree : Free z (freeSlots z.bytes offs {p} \ {(o, n)})) (hp : z.InMap p) (hD : D blob c)
    (hpos : 0 < blob.length) (hn : blob.length ≤ n) :
    ∃ z', fillSlot z p o n blob = .ok z' ∧
      Wrote D Free z z' offs (Function.update page p (some c)) ∧
      z'.hdr.iDataEnd = z.hdr.iDataEnd := by
  obtain ⟨_, hlow, hhigh, _⟩ := h.slot_bounds hs.1
  have hreach := h.dataEnd
  rw [slotEnd, zipvfsSlotHdrSize, ← hs.2.2] at hhigh
  obtain ⟨z', hz', hinner, hlist, harea, hend, hbytes, hcovers⟩ :=
    fillSlot_spec h hp hlow hn (by omega)
  have hdataEnd : z'.hdr.iDataEnd = z.hdr.iDataEnd := by omega
  obtain ⟨hstart, _, hgs, hge⟩ := harea
  obtain ⟨himage, hfree'⟩ := written_to_free h hp hD hpos hn hfl (hinner.paged h.paged)
    hinner.grows hlist hs hfree ⟨hstart, hdataEnd, hgs, hge⟩ hbytes hcovers
  exact ⟨z', hz', ⟨himage, hfree', hinner, hstart, hgs, hge⟩, hdataEnd⟩

/-- A record that is moved to the end: its old slot becomes free. -/
theorem zipvfsWritePage_append (hwrite : 1 < z.inWriteTrans) (h : Image D z offs ∅ page)
    (hfree : Free z (freeSlots z.bytes offs ∅)) (hp : z.InMap p)
    (hsize : page p ≠ none → (p - 1) * z.hdr.pgsz % 2 ^ 32 < z.hdr.iSize) (hD : D blob c)
    (hpos : 0 < blob.length) (hmax : blob.length ≤ zipvfsMaxPayload)
    (hroom : z.hdr.iDataEnd + 6 + newSlot blob ≤ pagerReach) :
    ∃ z', zipvfsWritePage fl z true p blob = .ok z' ∧
      Wrote D Free z z' (offs ++ [z.hdr.iDataEnd]) (Function.update page p (some c)) ∧
      z'.hdr.iDataEnd = z.hdr.iDataEnd + 6 + newSlot blob ∧
      ∀ o ∈ offs, slotPage z.bytes o = p →
        (o, slotPayload z.bytes o) ∈ freeSlots z'.bytes (offs ++ [z.hdr.iDataEnd]) ∅ := by
  obtain ⟨z1, hrun, h1, hfree1, harea, hslots⟩ := zipvfsFreeOldSlot_spec hfl hwrite h hfree hp hsize
  obtain ⟨hstart, hend, hgs, hge⟩ := harea
  have hp1 : z1.InMap p := by
    rw [InMap, hstart]
    exact hp
  rw [← hend] at hroom
  obtain ⟨z', hfill, hwrote, _, hend', hset⟩ := fillSlot_end hfl h1 hfree1 hp1 hD hpos hmax hroom
  rw [hend] at hfill hwrote hend' hset
  have hinner := hslots.inner.trans hwrote.inner
  refine ⟨z', ?_, ⟨hwrote.image, hwrote.free, hinner, hwrote.dataStart.trans hstart,
    hwrote.gap.1.trans hgs, hwrote.gap.2.trans hge⟩, hend', ?_⟩
  · simp only [zipvfsWritePage, hrun, bind, Except.bind, if_true, pure, Except.pure]
    rw [hend]
    exact hfill
  · intro o ho hpage
    rw [hset]
    refine ⟨ho, ?_, (hslots.payload o ho).symm⟩
    intro hu
    rw [← hslots.page o ho] at hpage
    exact hu.1 hpage

/-- A record is written to a free slot or to the end. -/
theorem zipvfsWritePage_spec (hwrite : 1 < z.inWriteTrans) (h : Image D z offs ∅ page)
    (hfree : Free z (freeSlots z.bytes offs ∅)) (hp : z.InMap p)
    (hsize : page p ≠ none → (p - 1) * z.hdr.pgsz % 2 ^ 32 < z.hdr.iSize) (hD : D blob c)
    (hpos : 0 < blob.length) (hmax : blob.length ≤ zipvfsMaxPayload)
    (hroom : z.hdr.iDataEnd + 6 + newSlot blob ≤ pagerReach) :
    ∃ z' offs', zipvfsWritePage fl z false p blob = .ok z' ∧
      Wrote D Free z z' offs' (Function.update page p (some c)) ∧
      z'.hdr.iDataEnd ≤ z.hdr.iDataEnd + 6 + newSlot blob := by
  obtain ⟨z1, hrun, h1, hfree1, harea, hslots⟩ := zipvfsFreeOldSlot_spec hfl hwrite h hfree hp hsize
  obtain ⟨z2, s, hbest, hrest, hfound⟩ := hfl.bestfit z1 _
    (decide (z1.hdr.nFreeSlot < z1.nMaxFree)) blob.length h1.paged (hslots.inner.write hwrite)
    hfree1
  obtain ⟨h2, hset, hslots2⟩ := h1.untouched hrest
  obtain ⟨hstart, hend, hgs, hge⟩ := harea.trans hrest.sameArea
  have hinner := hslots.inner.trans hslots2.inner
  have hp2 : z2.InMap p := by
    rw [InMap, hstart]
    exact hp
  rw [← hset] at hfound
  obtain ⟨o, n⟩ := s
  rcases hfound with ⟨ho, hfree2⟩ | ⟨hs, hn, _, hfree2⟩
  · simp only at ho
    rw [← hend] at hroom
    obtain ⟨z', hfill, hwrote, _, hend', _⟩ := fillSlot_end hfl h2 hfree2 hp2 hD hpos hmax hroom
    rw [hend] at hfill hwrote hend'
    refine ⟨z', _, ?_, ⟨hwrote.image, hwrote.free, hinner.trans hwrote.inner,
      hwrote.dataStart.trans hstart, hwrote.gap.1.trans hgs, hwrote.gap.2.trans hge⟩, by omega⟩
    simp only [zipvfsWritePage, hrun, hbest, ho, bind, Except.bind, Bool.false_eq_true, if_false,
      if_true, pure, Except.pure]
    rw [hend]
    exact hfill
  · obtain ⟨z', hfill, hwrote, hend'⟩ := fillSlot_free hfl h2 hs hfree2 hp2 hD hpos hn
    have hpos' := (h2.slot_bounds hs.1).1
    simp only at hpos'
    refine ⟨z', offs, ?_, ⟨hwrote.image, hwrote.free, hinner.trans hwrote.inner,
      hwrote.dataStart.trans hstart, hwrote.gap.1.trans hgs, hwrote.gap.2.trans hge⟩, by omega⟩
    simp only [zipvfsWritePage, hrun, hbest, bind, Except.bind, Bool.false_eq_true, if_false,
      pure, Except.pure]
    rw [if_neg (by omega)]
    exact hfill

end

end NdsDevkit.Zipvfs
