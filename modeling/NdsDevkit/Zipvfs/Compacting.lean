import NdsDevkit.Zipvfs.Committing

namespace NdsDevkit.Zipvfs

open Framework ZipvfsFile

/-- The state of the loop that moves the slots towards the start of the file. -/
structure Compaction where
  z : ZipvfsFile
  iRead : Nat
  iWrite : Nat

/-- A page is moved to the write offset, through a buffer of `nBuf` bytes; a free slot goes. -/
def compactStep (fl : FreeList) (nBuf : Nat) (s : Compaction) : Except ErrorCode Compaction := do
  let (iPg, nPayload) ← s.z.zipvfsReadSlotHdr s.iRead
  let (iOff, nByte) ← s.z.zipvfsFindPage iPg
  let (z, iWrite) ←
    if iOff = s.iRead then do
      let nPad := zipvfsMinPayload - nByte
      let zData ← loadBuffer s.z nBuf (iOff + zipvfsSlotHdrSize) nByte
      let (z, iWrite) ← s.z.zipvfsWritePageTo iPg s.iWrite zData nPad
      pure ({ z with hdr.nFreeFragment := z.hdr.nFreeFragment - (nPayload - nByte - nPad : Int) },
        iWrite)
    else do
      let z ← fl.zipvfsFreelistRemove s.z s.iRead nPayload
      pure (z, s.iWrite)
  let iRead := s.iRead + (zipvfsSlotHdrSize + nPayload)
  return ⟨{ z with hdr.iGapStart := iWrite, hdr.iGapEnd := iRead }, iRead, iWrite⟩

/-- The end of a pass that has reached the end of the data area. -/
def compactEnd (s : Compaction) : Except ErrorCode ZipvfsFile :=
  let z := { s.z with hdr.iDataEnd := s.iWrite, hdr.iGapStart := 0, hdr.iGapEnd := 0 }
  if z.hdr.iFreeSlot ≠ 0 ∨ z.hdr.nFreeByte ≠ 0 ∨ z.hdr.nFreeSlot ≠ 0 ∨ z.hdr.nFreeFragment < 0 then
    throw .ZIPVFS_CORRUPT
  else return z.zipvfsPagerTruncateImage (s.iWrite / z.nPgsz + 1)

/-- Compacts the data area, or about `nMax` bytes of it. -/
def compactArea (fl : FreeList) (nBuf : Nat) (nMax : Int) (z : ZipvfsFile) :
    Except ErrorCode ZipvfsFile := do
  let s : Compaction := if z.hdr.iGapStart = 0 then ⟨z, z.hdr.iDataStart, z.hdr.iDataStart⟩
    else ⟨z, z.hdr.iGapEnd, z.hdr.iGapStart⟩
  let iEnd := if nMax ≤ 0 ∨ s.iRead + nMax > z.hdr.iDataEnd then z.hdr.iDataEnd
    else s.iRead + nMax.toNat
  let s ← whileDo (fun s : Compaction => decide (s.iRead < iEnd)) (compactStep fl nBuf) .outOfFuel
    (iEnd - s.iRead + 1) s
  if iEnd = s.z.hdr.iDataEnd then compactEnd s else return s.z

/-- What a compaction leaves: the file, the callbacks and the buffer of the connection, and the
error that ended it. -/
structure Compacted (ρ σ : Type) where
  storage : ρ
  methods : σ
  nCompressionBuffer : Option Nat
  rc : Option ErrorCode

/-- Compacts the file, under the exclusive lock. After an error the transaction is rolled back. -/
def zipvfsCompactFile {ρ κ σ : Type} (P : Pager ρ κ) (fl : FreeList) (m : ZipvfsMethods σ)
    (xGetMethods : Option (List UInt8) → Except ErrorCode (Option σ)) (storage : ρ)
    (methods : Option σ) (nPgsz nMaxFree : Nat) (nCompressionBuffer : Option Nat) (nMax : Int) :
    Except ErrorCode (Compacted ρ σ) := do
  let (storage, s, z) ← zipvfsLockFile P xGetMethods storage methods nPgsz nMaxFree
    nCompressionBuffer
  if z.hdr.nFreeByte > 0 ∨ z.hdr.nFreeFragment > 0 ∨ z.hdr.iGapStart ≠ 0 then
    let (z, nBuf) := zipvfsCompressionBuffer m s { z with inWriteTrans := 2 }
    match compactArea fl nBuf nMax z >>= zipvfsCommitTransaction P fl storage with
    | .ok (storage, _) =>
      return ⟨P.sqlite3PagerRollback storage, s, z.nCompressionBuffer, none⟩
    | .error e => return ⟨P.sqlite3PagerRollback storage, s, z.nCompressionBuffer, some e⟩
  else return ⟨P.sqlite3PagerRollback storage, s, z.nCompressionBuffer, none⟩

/-- What a compaction relies on: the buffer of the connection has the right size, and the first
page of the user's database is there. -/
def Compactable {σ : Type} (m : ZipvfsMethods σ) (s : σ) (z : ZipvfsFile) : Prop :=
  BufferFits m s z z.hdr.pgsz ∧ 0 < z.hdr.iSize ∧
    ∃ e ∈ (z.zipvfsFindPage 1).toOption, e.1 ≠ 0

instance {σ : Type} (m : ZipvfsMethods σ) (s : σ) (z : ZipvfsFile) :
    Decidable (Compactable m s z) :=
  inferInstanceAs (Decidable (_ ∧ _ ∧ ∃ e ∈ (z.zipvfsFindPage 1).toOption, e.1 ≠ 0))

section

variable {D : List UInt8 → List UInt8 → Prop} {z z' : ZipvfsFile} {offs offs' : List Nat}
  {ex : Set Nat} {page : Nat → Option (List UInt8)} (h : Image D z offs ex page)
  (hbytes : ∀ i, i < z'.hdr.iDataEnd → z'.bytes i = z.bytes i)
  (hstart : z'.hdr.iDataStart = z.hdr.iDataStart) (hlayout : z'.Layout offs')
  (hsub : ∀ o ∈ offs', o ∈ offs)

include h hbytes hstart hlayout hsub

omit h hstart hsub in
theorem shrink_hdr {o : Nat} (ho : o ∈ offs') :
    slotPage z'.bytes o = slotPage z.bytes o ∧ slotPayload z'.bytes o = slotPayload z.bytes o := by
  have hend := (hlayout.bounds ho).2
  have hlt := lt_slotEnd z'.bytes o
  exact slotHdr_congr fun i _ h2 => hbytes i (by omega)

omit hsub in
theorem shrink_entry {p : Nat} (hp : z.InMap p) : mapEntry z'.bytes p = mapEntry z.bytes p := by
  have hle := hlayout.le
  have hmap := hp.2
  apply mapEntry_congr
  intro i _ h2
  rw [hp.entry_eq h.mapSize] at h2
  exact hbytes i (by omega)

theorem freeSlots_shrink : freeSlots z'.bytes offs' ex =
    {s | s ∈ freeSlots z.bytes offs ex ∧ s.1 ∈ offs'} := by
  have hused : ∀ o ∈ offs', Used z'.bytes ex o ↔ Used z.bytes ex o := by
    intro o ho
    rw [Used, Used, (shrink_hdr hbytes hlayout ho).1,
      shrink_entry h hbytes hstart hlayout (h.slots o (hsub o ho)).2]
  apply Set.ext
  intro s
  constructor
  · intro hs
    obtain ⟨h1, h2, h3⟩ := hs
    rw [(shrink_hdr hbytes hlayout h1).2] at h3
    exact ⟨⟨hsub _ h1, fun hu => h2 ((hused _ h1).mpr hu), h3⟩, h1⟩
  · intro hs
    obtain ⟨⟨_, h2, h3⟩, h1⟩ := hs
    rw [← (shrink_hdr hbytes hlayout h1).2] at h3
    exact ⟨h1, fun hu => h2 ((hused _ h1).mp hu), h3⟩

/-- Slots that are not in use may go, and what lies behind the slots as well. -/
theorem Image.shrink (hpaged : z'.Paged)
    (hsize : ∀ i, i < z'.hdr.iDataEnd → z.place i < z.file.size → z'.place i < z'.file.size)
    (hend : z'.hdr.iDataEnd ≤ pagerReach) (hkeep : ∀ o ∈ offs, Used z.bytes ex o → o ∈ offs')
    (hone : page 1 ≠ none) :
    Image D z' offs' ex page := by
  have hle := hlayout.le
  have hin : ∀ q, z'.InMap q ↔ z.InMap q := by
    intro q
    rw [InMap, InMap, hstart]
  refine ⟨hpaged, hlayout, by rw [hstart]; exact h.dataStart, by rw [hstart]; exact h.mapSize, hend,
    ?_, ?_, ?_, ?_, .inr hone⟩
  · intro o ho
    obtain ⟨hp, hs⟩ := shrink_hdr hbytes hlayout ho
    rw [hp, hs, hin]
    exact h.slots o (hsub o ho)
  · intro p hp hex
    rw [hin] at hp
    have hold := h.entries p hp hex
    have hentry := shrink_entry h hbytes hstart hlayout hp
    cases hpage : page p with
    | none =>
      rw [hpage, Stands] at hold
      rw [Stands, hentry, hold]
    | some c =>
      rw [hpage] at hold
      obtain ⟨o, blob, ho, hrec, hcovers, hD⟩ := hold
      have ho' := hkeep o ho (hrec.used (h.slot_bounds ho).2.2.2 hex)
      have hhigh := (hlayout.bounds ho').2
      rw [slotEnd, zipvfsSlotHdrSize, (shrink_hdr hbytes hlayout ho').2] at hhigh
      have hfits := hrec.fits
      have hmap := hp.2
      refine ⟨o, blob, ho', hrec.congr ?_ fun i _ h2 => hbytes i (by omega),
        fun i h1 h2 => hsize i (by omega) (hcovers i h1 h2), hD⟩
      intro i _ h2
      rw [hp.entry_eq h.mapSize] at h2
      exact hbytes i (by omega)
  · intro p hp
    exact (hin p).mpr (h.inMap p hp)
  · intro i h1 h2
    rw [hstart] at h1 h2
    rw [hbytes i (by omega)]
    exact h.slack i h1 h2

end

theorem mem_append_cons {o ge : Nat} {front rest : List Nat} :
    o ∈ front ++ ge :: rest ↔ o = ge ∨ o ∈ front ++ rest := by
  rw [List.mem_append, List.mem_append, List.mem_cons]
  tauto

/-- The slot at the read offset, with the slots before and behind it. -/
theorem Split.uncons {mem : Cells UInt8} {a gs ge b : Nat} {front rest : List Nat}
    (h : Split mem a gs ge b front (ge :: rest)) :
    Chain (slotEnd mem) (slotEnd mem ge) b rest ∧ (∀ o ∈ front, o < gs ∧ slotEnd mem o ≤ gs) ∧
      ∀ o ∈ rest, slotEnd mem ge ≤ o := by
  obtain ⟨ps, heq, _, hrest⟩ := h.back.exists_cons (by
    have hlt := lt_slotEnd mem ge
    have hend := (h.back.bounds List.mem_cons_self).2.2
    omega)
  cases heq
  refine ⟨hrest, ?_, fun o ho => (hrest.bounds ho).1⟩
  intro o ho
  obtain ⟨_, h1, h2⟩ := h.front.bounds ho
  exact ⟨by omega, h2⟩

theorem Split.not_mem {mem : Cells UInt8} {a gs ge b : Nat} {front rest : List Nat}
    (h : Split mem a gs ge b front (ge :: rest)) : ge ∉ front ++ rest := by
  obtain ⟨_, hfront, hrest⟩ := h.uncons
  have hgap := h.gap
  have hlt := lt_slotEnd mem ge
  intro hmem
  rcases List.mem_append.mp hmem with hf | hr
  · have hlow := (hfront ge hf).1
    omega
  · have hhigh := hrest ge hr
    omega

/-- What the loop keeps: the slots before the write offset and those from the read offset on. -/
structure Compacting (D : List UInt8 → List UInt8 → Prop)
    (Free : ZipvfsFile → Set (Nat × Nat) → Prop) (page : Nat → Option (List UInt8))
    (z : ZipvfsFile) (s : Compaction) : Prop where
  holds : ∃ front back, Image D s.z (front ++ back) ∅ page ∧
    Free s.z (freeSlots s.z.bytes (front ++ back) ∅) ∧
    Split s.z.bytes s.z.hdr.iDataStart s.iWrite s.iRead s.z.hdr.iDataEnd front back
  inner : Inner z s.z
  dataStart : s.z.hdr.iDataStart = z.hdr.iDataStart
  dataEnd : s.z.hdr.iDataEnd = z.hdr.iDataEnd

/-- What a compaction leaves as it is. The file may get shorter. -/
structure SameUserdb (z z' : ZipvfsFile) : Prop where
  inWriteTrans : z'.inWriteTrans = z.inWriteTrans
  nUsrPage : z'.nUsrPage = z.nUsrPage
  dataStart : z'.hdr.iDataStart = z.hdr.iDataStart
  iSize : z'.hdr.iSize = z.hdr.iSize
  pgsz : z'.hdr.pgsz = z.hdr.pgsz
  iVersion : z'.hdr.iVersion = z.hdr.iVersion
  head : ∀ i, i < 200 → z'.bytes i = z.bytes i

theorem Inner.sameUserdb {z z' : ZipvfsFile} (h : Inner z z')
    (hstart : z'.hdr.iDataStart = z.hdr.iDataStart) : SameUserdb z z' :=
  ⟨h.inWriteTrans, h.nUsrPage, hstart, h.iSize, h.pgsz, h.iVersion, h.head⟩

theorem SameUserdb.trans {z z' z'' : ZipvfsFile} (h : SameUserdb z z') (h' : SameUserdb z' z'') :
    SameUserdb z z'' where
  inWriteTrans := h'.inWriteTrans.trans h.inWriteTrans
  nUsrPage := h'.nUsrPage.trans h.nUsrPage
  dataStart := h'.dataStart.trans h.dataStart
  iSize := h'.iSize.trans h.iSize
  pgsz := h'.pgsz.trans h.pgsz
  iVersion := h'.iVersion.trans h.iVersion
  head := fun i hi => (h'.head i hi).trans (h.head i hi)

/-- Where the loop starts. -/
theorem ZipvfsFile.Layout.start {z : ZipvfsFile} {offs : List Nat} (h : z.Layout offs)
    (hlow : 0 < z.hdr.iDataStart) : ∃ s : Compaction,
      (if z.hdr.iGapStart = 0 then ⟨z, z.hdr.iDataStart, z.hdr.iDataStart⟩
        else ⟨z, z.hdr.iGapEnd, z.hdr.iGapStart⟩) = s ∧ s.z = z ∧
      ∃ front back, offs = front ++ back ∧
        Split z.bytes z.hdr.iDataStart s.iWrite s.iRead z.hdr.iDataEnd front back := by
  obtain ⟨gs, ge, front, back, rfl, hsplit, hgap⟩ := h
  have hle := hsplit.front.le
  rcases hgap with ⟨hgs, _, rfl⟩ | ⟨hgs, hge⟩
  · rw [if_pos hgs]
    exact ⟨_, rfl, rfl, [], front ++ back, rfl, .nil _, Nat.le_refl _,
      hsplit.front.append hsplit.back⟩
  · rw [if_neg (by omega), hgs, hge]
    exact ⟨_, rfl, rfl, front, back, rfl, hsplit⟩

/-- A record at its new place, with the gap behind it. -/
theorem moveRecord_spec {D : List UInt8 → List UInt8 → Prop} {z : ZipvfsFile} {offs : List Nat}
    {page : Nat → Option (List UInt8)} {p o : Nat} (h : Image D z offs {p} page) (hp : z.InMap p)
    (ho : z.hdr.iDataStart ≤ o) {blob : List UInt8} (hreach : o + 6 + blob.length ≤ pagerReach)
    (pad iGapEnd : Nat) (nLess : Int) :
    ∃ z1 z', z.zipvfsWritePageTo p o blob pad = .ok (z1, o + 6 + blob.length + pad) ∧
      { z1 with
        hdr.nFreeFragment := z1.hdr.nFreeFragment - nLess
        hdr.iGapStart := o + 6 + blob.length + pad
        hdr.iGapEnd := iGapEnd } = z' ∧ Inner z z' ∧
      (z'.hdr.iFreeSlot = z.hdr.iFreeSlot ∧ z'.hdr.nFreeSlot = z.hdr.nFreeSlot ∧
        z'.hdr.nFreeByte = z.hdr.nFreeByte) ∧
      z.hdr.SameArea { z'.hdr with iGapStart := z.hdr.iGapStart, iGapEnd := z.hdr.iGapEnd } ∧
      z'.hdr.iGapStart = o + 6 + blob.length + pad ∧ z'.hdr.iGapEnd = iGapEnd ∧
      z'.bytes = written z.bytes p o blob pad ∧ z'.Covers o (o + 6 + blob.length) := by
  obtain ⟨z1, hrun, hto⟩ := zipvfsWritePageTo_spec h.paged p pad hreach
  have hhdr : z1.hdr = z.hdr := (congrArg ZipvfsFile.hdr hto.rest :)
  have hn := congrArg ZipvfsFile.nPgsz hto.rest
  have ht := congrArg ZipvfsFile.inWriteTrans hto.rest
  have hu := congrArg ZipvfsFile.nUsrPage hto.rest
  have hm := congrArg ZipvfsFile.nMaxFree hto.rest
  have hb := congrArg ZipvfsFile.nCompressionBuffer hto.rest
  refine ⟨z1, _, hrun, rfl, ?_, ?_, ?_, rfl, rfl, hto.bytes, hto.covers⟩
  · refine ⟨hn, ht, hu, hm, hb, by simp only [hhdr], by simp only [hhdr], by simp only [hhdr],
      hto.size, ?_⟩
    intro i hi
    change z1.bytes i = z.bytes i
    rw [hto.bytes]
    exact written_head h hp ho hi
  · simp only [hhdr, and_self]
  · simp only [hhdr, ZipvfsHdr.SameArea, and_self]

section

variable {D : List UInt8 → List UInt8 → Prop} {fl : FreeList}
  {Free : ZipvfsFile → Set (Nat × Nat) → Prop} (hfl : fl.Keeps Free) {z z₀ : ZipvfsFile}
  {front rest : List Nat} {page : Nat → Option (List UInt8)} {gs ge : Nat}
  (h : Image D z (front ++ ge :: rest) ∅ page)
  (hfree : Free z (freeSlots z.bytes (front ++ ge :: rest) ∅))
  (hsplit : Split z.bytes z.hdr.iDataStart gs ge z.hdr.iDataEnd front (ge :: rest))
  (hone : page 1 ≠ none) (hwrite : 1 < z.inWriteTrans)

include hfl h hfree hsplit hone hwrite

/-- A free slot goes. -/
theorem compactStep_free (nBuf : Nat) (hused : ¬ Used z.bytes ∅ ge) :
    ∃ z', compactStep fl nBuf ⟨z, ge, gs⟩ = .ok ⟨z', slotEnd z.bytes ge, gs⟩ ∧
      Compacting D Free page z ⟨z', slotEnd z.bytes ge, gs⟩ := by
  have ho : ge ∈ front ++ ge :: rest := List.mem_append_right _ List.mem_cons_self
  have hs : (ge, slotPayload z.bytes ge) ∈ freeSlots z.bytes (front ++ ge :: rest) ∅ :=
    ⟨ho, hused, rfl⟩
  have hread := h.readSlotHdr hwrite ho
  have hfind := zipvfsFindPage_eq h.paged (slotPage z.bytes ge)
  have hother : ¬ entryOffset (mapEntry z.bytes (slotPage z.bytes ge)) = ge :=
    fun heq => hused ⟨Set.notMem_empty _, heq⟩
  obtain ⟨z1, hremove, hrest, hfree1⟩ := hfl.remove z _ _ h.paged hwrite hfree hs
  obtain ⟨h1, hset, hslots⟩ := h.untouched hrest
  obtain ⟨hstart, hend, _⟩ := hrest.sameArea
  obtain ⟨hchain, hbelow, habove⟩ := hsplit.uncons
  have hend1 : ∀ o ∈ front ++ rest, slotEnd z1.bytes o = slotEnd z.bytes o := by
    intro o hmem
    rw [slotEnd, slotEnd, hslots.payload o (mem_append_cons.mpr (.inr hmem))]
  generalize hz2 : { z1 with
    hdr.iGapStart := gs
    hdr.iGapEnd := ge + (zipvfsSlotHdrSize + slotPayload z.bytes ge) } = z2
  have hbytes2 : z2.bytes = z1.bytes := by rw [← hz2]; rfl
  have hstart2 : z2.hdr.iDataStart = z1.hdr.iDataStart := by rw [← hz2]
  have hdataEnd2 : z2.hdr.iDataEnd = z1.hdr.iDataEnd := by rw [← hz2]
  have hlt := lt_slotEnd z.bytes ge
  have hgap := hsplit.gap
  have hsplit2 : Split z2.bytes z2.hdr.iDataStart gs (slotEnd z.bytes ge) z2.hdr.iDataEnd front
      rest := by
    refine ⟨?_, by omega, ?_⟩
    · rw [hbytes2, hstart2, hstart]
      exact hsplit.front.congr fun o hmem => hend1 o (List.mem_append_left _ hmem)
    · rw [hbytes2, hdataEnd2, hend]
      exact hchain.congr fun o hmem => hend1 o (List.mem_append_right _ hmem)
  have hlayout2 : z2.Layout (front ++ rest) := by
    refine ⟨gs, slotEnd z.bytes ge, front, rest, rfl, hsplit2, .inr ?_⟩
    rw [← hz2]
    exact ⟨rfl, (Nat.add_assoc _ _ _).symm⟩
  have hsub : ∀ o ∈ front ++ rest, o ∈ front ++ ge :: rest :=
    fun o hmem => mem_append_cons.mpr (.inr hmem)
  have hsame : ∀ i, i < z2.hdr.iDataEnd → z2.bytes i = z1.bytes i := fun i _ => by rw [hbytes2]
  have hset2 := freeSlots_shrink h1 hsame hstart2 hlayout2 hsub
  have hfree2 : Free z2 (freeSlots z2.bytes (front ++ rest) ∅) := by
    have heq : {s | s ∈ freeSlots z1.bytes (front ++ ge :: rest) ∅ ∧ s.1 ∈ front ++ rest} =
        freeSlots z.bytes (front ++ ge :: rest) ∅ \ {(ge, slotPayload z.bytes ge)} := by
      rw [hset]
      apply Set.ext
      intro s
      constructor
      · intro hmem
        refine ⟨hmem.1, ?_⟩
        intro hone
        have hfst : s.1 = ge := congrArg Prod.fst hone
        have hin := hmem.2
        rw [hfst] at hin
        exact hsplit.not_mem hin
      · intro hmem
        refine ⟨hmem.1, ?_⟩
        rcases mem_append_cons.mp hmem.1.1 with hfst | hin
        · have hsnd := hmem.1.2.2
          rw [hfst] at hsnd
          exact absurd (Prod.ext hfst hsnd) hmem.2
        · exact hin
    rw [hset2, heq]
    apply hfl.congr z1 z2 _ hfree1 (by rw [← hz2]; exact ⟨rfl, rfl, rfl⟩)
    intro s _ i _ _
    rw [hbytes2]
  have hkeep : ∀ o ∈ front ++ ge :: rest, Used z1.bytes ∅ o → o ∈ front ++ rest := by
    intro o hmem hu
    rcases mem_append_cons.mp hmem with rfl | hin
    · rw [← hset] at hs
      exact absurd hu hs.2.1
    · exact hin
  have hpaged2 : z2.Paged := by
    rw [← hz2]
    exact h1.paged
  have hgrows2 : ∀ i, i < z2.hdr.iDataEnd → z1.place i < z1.file.size →
      z2.place i < z2.file.size := by
    rw [← hz2]
    exact fun i _ hi => hi
  have himage2 := h1.shrink hsame hstart2 hlayout2 hsub hpaged2 hgrows2
    (by rw [hdataEnd2]; exact h1.dataEnd) hkeep hone
  have hinner2 : Inner z1 z2 := by
    rw [← hz2]
    exact ⟨rfl, rfl, rfl, rfl, rfl, rfl, rfl, rfl, Nat.le_refl _, fun _ _ => rfl⟩
  refine ⟨z2, ?_, ⟨front, rest, himage2, hfree2, hsplit2⟩, hslots.inner.trans hinner2,
    hstart2.trans hstart, hdataEnd2.trans hend⟩
  simp only [compactStep, hread, hfind, if_neg hother, hremove, bind, Except.bind, pure,
    Except.pure]
  rw [hz2, slotEnd, Nat.add_assoc]

/-- A page moves to the write offset. -/
theorem compactStep_page {nBuf : Nat}
    (hbuf : ∀ q blob c, page q = some c → D blob c → blob.length ≤ nBuf)
    (hused : Used z.bytes ∅ ge) :
    ∃ s', compactStep fl nBuf ⟨z, ge, gs⟩ = .ok s' ∧ s'.iRead = slotEnd z.bytes ge ∧
      Compacting D Free page z s' := by
  have ho : ge ∈ front ++ ge :: rest := List.mem_append_right _ List.mem_cons_self
  obtain ⟨blob, c, hc, hrec, _, hD⟩ := h.record_of_used ho hused
  obtain ⟨hmin, hp⟩ := h.slots _ ho
  have hload := h.loadRecord hwrite ho hrec (hbuf _ _ _ hc hD)
  have hread := h.readSlotHdr hwrite ho
  have hfind := h.findPage_record ho hrec
  generalize hpg : slotPage z.bytes ge = p at hc hrec hp hread hfind
  obtain ⟨hchain, hbelow, habove⟩ := hsplit.uncons
  have hgap := hsplit.gap
  have hfront := hsplit.front.le
  have hfits := hrec.fits
  have hpayload := slotPayload_lt z.bytes ge
  obtain ⟨_, _, hhigh, hge40⟩ := h.slot_bounds ho
  have hslotEnd : slotEnd z.bytes ge = ge + 6 + slotPayload z.bytes ge := rfl
  have hdrop : Image D z (front ++ ge :: rest) {p} page :=
    h.drop fun q hq => absurd hq (Set.notMem_empty q)
  have hsize : blob.length + (zipvfsMinPayload - blob.length) ≤ slotPayload z.bytes ge := by omega
  have hleast : zipvfsMinPayload ≤ blob.length + (zipvfsMinPayload - blob.length) := by omega
  have hreach : gs + 6 + blob.length ≤ pagerReach := by
    have hend := h.dataEnd
    omega
  obtain ⟨z1, z2, hto, hz2, hinner2, hlist2, ⟨hstart2, hdataEnd2, _, _⟩, hgs2, hge2, hbytes2,
    hcovers2⟩ := moveRecord_spec hdrop hp hfront hreach (zipvfsMinPayload - blob.length)
    (ge + (zipvfsSlotHdrSize + slotPayload z.bytes ge))
    ((slotPayload z.bytes ge : Int) - blob.length - (zipvfsMinPayload - blob.length : Nat))
  simp only at hstart2 hdataEnd2
  generalize hpad : zipvfsMinPayload - blob.length = nPad at *
  have hcases : ∀ o ∈ front ++ [gs] ++ rest, o ≠ gs → o ∈ front ++ rest := by
    intro o hmem hne
    simp only [List.mem_append, List.mem_singleton] at hmem ⊢
    tauto
  have hmove : ∀ o ∈ front ++ rest, o ∈ front ++ [gs] ++ rest ∧ o ≠ gs := by
    intro o hmem
    rcases List.mem_append.mp hmem with hf | hr
    · have hlow := (hbelow o hf).1
      exact ⟨by simp [hf], by omega⟩
    · have hlow := habove o hr
      exact ⟨by simp [hr], by omega⟩
  have hplace :
      Place z p (front ++ ge :: rest) (front ++ [gs] ++ rest) gs (blob.length + nPad) := by
    refine ⟨hfront, by simp, ?_, ?_⟩
    · intro o' ho' hne
      have hmem := hcases o' ho' hne
      refine ⟨mem_append_cons.mpr (.inr hmem), ?_⟩
      rcases List.mem_append.mp hmem with hf | hr
      · exact .inl (hbelow o' hf).2
      · have hlow := habove o' hr
        exact .inr (by omega)
    · intro o' ho' hu
      rcases mem_append_cons.mp ho' with rfl | hmem
      · exact absurd hpg hu.1
      · exact hmove o' hmem
  have hhdr2 : ∀ o' ∈ front ++ rest, slotEnd z2.bytes o' = slotEnd z.bytes o' := by
    intro o' hmem
    obtain ⟨hin, hne⟩ := hmove o' hmem
    rw [slotEnd, slotEnd, (written_hdr hdrop hp hplace hbytes2 hin hne).2]
  have hnew : slotEnd z2.bytes gs = gs + 6 + blob.length + nPad := by
    rw [slotEnd, hbytes2, (slotHdr_written _ _ (hp.lt h.mapSize) (by omega)).2, zipvfsSlotHdrSize]
    omega
  have hsplit2 : Split z2.bytes z2.hdr.iDataStart (gs + 6 + blob.length + nPad)
      (slotEnd z.bytes ge) z2.hdr.iDataEnd (front ++ [gs]) rest := by
    refine ⟨?_, by omega, ?_⟩
    · rw [hstart2, ← hnew]
      have hold := hsplit.front.congr fun o hmem => hhdr2 o (List.mem_append_left _ hmem)
      exact hold.snoc (by omega)
    · rw [hdataEnd2]
      exact hchain.congr fun o hmem => hhdr2 o (List.mem_append_right _ hmem)
  have hlayout2 : z2.Layout (front ++ [gs] ++ rest) :=
    ⟨_, _, _, _, rfl, hsplit2,
      .inr ⟨hgs2, by rw [hge2, hslotEnd, zipvfsSlotHdrSize, Nat.add_assoc]⟩⟩
  have hsame : Function.update page p (some c) = page := by rw [← hc, Function.update_eq_self]
  have himage2 := hdrop.written hp hplace hbytes2 (by omega) hD hrec.pos hleast
    (hinner2.paged h.paged) hinner2.grows hcovers2 hstart2 hlayout2
    (by rw [hdataEnd2]; exact h.dataEnd)
    (by rw [hdataEnd2]; omega) (.inl hone)
  rw [hsame] at himage2
  have hset : freeSlots z.bytes (front ++ ge :: rest) ∅ =
      {s | s ∈ freeSlots z.bytes (front ++ ge :: rest) {p} ∧ s.1 ∈ front ++ [gs] ++ rest ∧
        s.1 ≠ gs} := by
    have hrecord := freeSlots_of_record h ho hrec
    rw [insert_empty_eq] at hrecord
    rw [hrecord]
    apply Set.ext
    intro s
    constructor
    · intro hs
      have hin : s.1 ∈ front ++ rest := by
        rcases mem_append_cons.mp hs.1 with heq | hmem
        · have hnot := hs.2.1
          rw [heq] at hnot
          exact absurd hused hnot
        · exact hmem
      exact ⟨.inr hs, hmove s.1 hin⟩
    · intro hs
      obtain ⟨hmem, hin, hne⟩ := hs
      rcases hmem with rfl | hs
      · exact absurd (hcases ge hin hne) hsplit.not_mem
      · exact hs
  have hfree2 := written_free hdrop hp hplace hbytes2 (by omega) (by omega) hfl
    (rfl : z.bytes = z.bytes) hlist2 (by rw [← hset]; exact hfree)
  refine ⟨⟨z2, slotEnd z.bytes ge, gs + 6 + blob.length + nPad⟩, ?_, rfl,
    ⟨front ++ [gs], rest, himage2, hfree2, hsplit2⟩, hinner2, hstart2, hdataEnd2⟩
  rw [show ge + 6 = ge + zipvfsSlotHdrSize from rfl] at hload
  simp only [compactStep, hread, hfind, if_true, hload, hpad, hto, bind, Except.bind, pure,
    Except.pure]
  rw [hz2, hslotEnd, zipvfsSlotHdrSize, ← Nat.add_assoc ge]

end

section

variable {D : List UInt8 → List UInt8 → Prop} {fl : FreeList}
  {Free : ZipvfsFile → Set (Nat × Nat) → Prop} (hfl : fl.Keeps Free) {z : ZipvfsFile}
  {page : Nat → Option (List UInt8)}

include hfl

theorem compactStep_spec {s : Compaction} (h : Compacting D Free page z s) (hone : page 1 ≠ none)
    (hwrite : 1 < z.inWriteTrans) {nBuf : Nat}
    (hbuf : ∀ q blob c, page q = some c → D blob c → blob.length ≤ nBuf)
    (hlt : s.iRead < z.hdr.iDataEnd) :
    ∃ s', compactStep fl nBuf s = .ok s' ∧ Compacting D Free page z s' ∧ s.iRead < s'.iRead := by
  obtain ⟨⟨front, back, himage, hfree, hsplit⟩, hinner, hstart, hend⟩ := h
  obtain ⟨rest, rfl, hgrow, _⟩ := hsplit.back.exists_cons (by rw [hend]; exact hlt)
  have hstep : ∀ s', Compacting D Free page s.z s' → Compacting D Free page z s' := by
    intro s' h'
    exact ⟨h'.holds, hinner.trans h'.inner, h'.dataStart.trans hstart, h'.dataEnd.trans hend⟩
  by_cases hused : Used s.z.bytes ∅ s.iRead
  · obtain ⟨s', hrun, hread, h'⟩ := compactStep_page hfl himage hfree hsplit hone
      (hinner.write hwrite) hbuf hused
    exact ⟨s', hrun, hstep s' h', by rw [hread]; exact hgrow⟩
  · obtain ⟨z', hrun, h'⟩ := compactStep_free hfl himage hfree hsplit hone
      (hinner.write hwrite) nBuf hused
    exact ⟨_, hrun, hstep _ h', hgrow⟩

/-- The end of the data area moves to the write offset. What the pager cuts off lies behind it. -/
theorem compactEnd_spec {s : Compaction} (h : Compacting D Free page z s) (hone : page 1 ≠ none)
    (hread : z.hdr.iDataEnd ≤ s.iRead) :
    Ends (compactEnd s) (fun z' => (∃ offs, Image D z' offs ∅ page ∧
        Free z' (freeSlots z'.bytes offs ∅)) ∧ SameUserdb z z')
      fun e => e = .ZIPVFS_CORRUPT := by
  obtain ⟨⟨front, back, himage, hfree, hsplit⟩, hinner, hstart, hend⟩ := h
  have hback := hsplit.back.le
  have hnil : back = [] := by
    have heq : s.iRead = s.z.hdr.iDataEnd := by omega
    have hchain := hsplit.back
    rw [heq] at hchain
    exact hchain.eq_nil
  subst hnil
  rw [List.append_nil] at himage hfree
  have hgap := hsplit.gap
  have hfront := hsplit.front.le
  have hlow := himage.dataStart
  have hpos := himage.paged.pos
  rw [compactEnd]
  generalize hz1 : { s.z with hdr.iDataEnd := s.iWrite, hdr.iGapStart := 0, hdr.iGapEnd := 0 } = z1
  have hpaged1 : z1.Paged := by
    rw [← hz1]
    exact himage.paged
  split
  · exact rfl
  · have hcut : ∀ i, i < s.iWrite → _ := fun i hi =>
      hpaged1.truncateImage_spec (show s.iWrite ≤ pagerReach by have hd := himage.dataEnd; omega)
        (Nat.le_of_lt hi)
    generalize hz2 : z1.zipvfsPagerTruncateImage (s.iWrite / z1.nPgsz + 1) = z2 at hcut
    have hrest2 : { z2 with file := z1.file } = z1 := by
      rw [← hz2, zipvfsPagerTruncateImage]
      split <;> rfl
    have hhdr2 : z2.hdr = z1.hdr := (congrArg ZipvfsFile.hdr hrest2 :)
    have hbytes2 : ∀ i, i < s.iWrite → z2.bytes i = s.z.bytes i := by
      intro i hi
      rw [(hcut i hi).1, ← hz1]
      rfl
    have hend2 : z2.hdr.iDataEnd = s.iWrite := by rw [hhdr2, ← hz1]
    have hstart2 : z2.hdr.iDataStart = s.z.hdr.iDataStart := by rw [hhdr2, ← hz1]
    have hn2 : z2.nPgsz = s.z.nPgsz := by
      have hn := congrArg ZipvfsFile.nPgsz hrest2
      rw [← hz1] at hn
      exact hn
    have hplace2 : z2.place = s.z.place := place_congr hn2 (by rw [hhdr2, ← hz1])
    have hpaged2 : z2.Paged := by
      rw [Paged, hn2]
      exact himage.paged
    have hlayout2 : z2.Layout front := by
      refine ⟨s.iWrite, s.iWrite, front, [], (List.append_nil _).symm, ⟨?_, Nat.le_refl _, ?_⟩,
        .inl ⟨by rw [hhdr2, ← hz1], by rw [hhdr2, ← hz1], rfl⟩⟩
      · rw [hstart2]
        apply hsplit.front.congr
        intro o ho
        have hin := (hsplit.front.bounds ho).2.2
        have hlt := lt_slotEnd s.z.bytes o
        rw [slotEnd, slotEnd, (slotHdr_congr fun i _ h2 => hbytes2 i (by omega)).2]
      · rw [hend2]
        exact .nil _
    have hsame : ∀ i, i < z2.hdr.iDataEnd → z2.bytes i = s.z.bytes i := by
      intro i hi
      exact hbytes2 i (by omega)
    have hgrows2 : ∀ i, i < z2.hdr.iDataEnd → s.z.place i < s.z.file.size →
        z2.place i < z2.file.size := by
      intro i hi hin
      have hstays := (hcut i (by omega)).2
      rw [← hz1] at hstays
      rw [hplace2]
      exact hstays hin
    have himage2 := himage.shrink hsame hstart2 hlayout2 (fun o ho => ho) hpaged2 hgrows2
      (by rw [hend2]; have hd := himage.dataEnd; omega) (fun o ho _ => ho) hone
    refine ⟨⟨front, himage2, ?_⟩, ?_⟩
    · rw [freeSlots_shrink himage hsame hstart2 hlayout2 fun o ho => ho]
      have heq : {t | t ∈ freeSlots s.z.bytes front ∅ ∧ t.1 ∈ front} =
          freeSlots s.z.bytes front ∅ := Set.ext fun t => ⟨fun ht => ht.1, fun ht => ⟨ht, ht.1⟩⟩
      rw [heq]
      apply hfl.congr s.z z2 _ hfree (by rw [hhdr2, ← hz1]; exact ⟨rfl, rfl, rfl⟩)
      intro t ht i _ h2
      have hin := (hsplit.front.bounds ht.1).2.2
      rw [slotEnd, zipvfsSlotHdrSize, ← ht.2.2] at hin
      exact hbytes2 i (by omega)
    · have ht := congrArg ZipvfsFile.inWriteTrans hrest2
      have hu := congrArg ZipvfsFile.nUsrPage hrest2
      rw [← hz1] at ht hu
      have hsame2 : SameUserdb s.z z2 := ⟨ht, hu, hstart2, by rw [hhdr2, ← hz1],
        by rw [hhdr2, ← hz1], by rw [hhdr2, ← hz1], fun i hi => hbytes2 i (by omega)⟩
      exact (hinner.sameUserdb hstart).trans hsame2

/-- The records move, and the pages stay as they are. The header may turn out to be corrupt. -/
theorem compactArea_spec {offs : List Nat} (h : Image D z offs ∅ page)
    (hfree : Free z (freeSlots z.bytes offs ∅)) (hone : page 1 ≠ none)
    (hwrite : 1 < z.inWriteTrans) {nBuf : Nat}
    (hbuf : ∀ q blob c, page q = some c → D blob c → blob.length ≤ nBuf) (nMax : Int) :
    Ends (compactArea fl nBuf nMax z) (fun z' => (∃ offs, Image D z' offs ∅ page ∧
        Free z' (freeSlots z'.bytes offs ∅)) ∧ SameUserdb z z')
      fun e => e = .ZIPVFS_CORRUPT := by
  have hlow := h.dataStart
  obtain ⟨s, hs, hz, front, back, hoffs, hsplit⟩ := h.layout.start (by omega)
  have hinit : Compacting D Free page z s := by
    rw [hoffs] at h hfree
    rw [← hz] at h hfree hsplit
    exact ⟨⟨front, back, h, hfree, hsplit⟩, by rw [hz]; exact Inner.refl z, by rw [hz], by rw [hz]⟩
  rw [compactArea]
  simp only [hs]
  generalize hiEnd : (if nMax ≤ 0 ∨ (s.iRead : Int) + nMax > z.hdr.iDataEnd then z.hdr.iDataEnd
    else s.iRead + nMax.toNat) = iEnd
  have hle : iEnd ≤ z.hdr.iDataEnd := by
    rw [← hiEnd]
    split
    · exact Nat.le_refl _
    · omega
  have hloop := Ends.whileDo (fun s : Compaction => decide (s.iRead < iEnd)) (compactStep fl nBuf)
    ErrorCode.outOfFuel (Compacting D Free page z) (fun s => iEnd - s.iRead) (fun _ => False)
    (fun s h hc => by
      have hlt : s.iRead < iEnd := of_decide_eq_true hc
      obtain ⟨s', hrun, h', hgrow⟩ := compactStep_spec hfl h hone hwrite hbuf (by omega)
      rw [hrun]
      exact ⟨h', by omega⟩)
    (iEnd - s.iRead + 1) s hinit (Nat.lt_succ_self _)
  obtain ⟨s', hrun, h', hc⟩ := hloop.ok_of_not fun e he => he
  have hdone : ¬ s'.iRead < iEnd := of_decide_eq_false hc
  simp only [hrun, bind, Except.bind]
  split
  next hreach =>
    rw [h'.dataEnd] at hreach
    exact compactEnd_spec hfl h' hone (by omega)
  next =>
    obtain ⟨front', back', himage', hfree', _⟩ := h'.holds
    exact ⟨⟨front' ++ back', himage', hfree'⟩, h'.inner.sameUserdb h'.dataStart⟩

omit hfl in
theorem Holds.first_ne {offs : List Nat} {n : Nat} {e : Nat × Nat} {f : PlainFile}
    (h : Holds D Free z offs n page f) (hsize : 0 < z.hdr.iSize)
    (hfind : z.zipvfsFindPage 1 = .ok e) (hfirst : e.1 ≠ 0) : page 1 ≠ none := by
  intro hnone
  have hn : n ≠ 0 := by
    intro hn
    rw [h.sized.iSize, hn, Nat.zero_mul] at hsize
    omega
  have hmap := h.sized.inMap
  have hzero := (h.image.findPage_none ⟨Nat.le_refl 1, by omega⟩ (Set.notMem_empty 1) hnone).1
  rw [hfind] at hzero
  cases hzero
  exact hfirst rfl

omit hfl in
/-- A compaction keeps the user's database. -/
theorem Ready.compacted {zName : List UInt8} {f : PlainFile} {z' : ZipvfsFile}
    {offs offs' : List Nat} {n : Nat} (h : Ready D Free zName z f)
    (hh : Holds D Free z offs n page f) (himage : Image D z' offs' ∅ page)
    (hfree : Free z' (freeSlots z'.bytes offs' ∅)) (hsame : SameUserdb z z') :
    Ready D Free zName z' f := by
  have hhead : z'.bytes.get 0 16 = z.bytes.get 0 16 :=
    Cells.get_congr fun i _ hi => hsame.head i (by omega)
  refine ⟨⟨offs', n, page, ⟨himage, hfree, ⟨?_, ?_, hh.sized.beyond⟩, ?_, ?_, ?_, ?_⟩⟩, ?_, ?_, ?_⟩
  · rw [hsame.iSize, hsame.pgsz]
    exact hh.sized.iSize
  · rw [hsame.dataStart]
    exact hh.sized.inMap
  · rw [hsame.pgsz]
    exact hh.pgsz
  · rw [hsame.pgsz]
    exact hh.length
  · rw [hsame.iSize]
    exact hh.size
  · rw [hsame.pgsz]
    exact hh.bytes
  · rw [hsame.iVersion]
    exact h.version
  · rw [hsame.pgsz]
    exact h.pgsz
  · rw [hhead]
    exact h.name

/-- The pass with its commit. -/
theorem compactArea_commit {ρ κ : Type} {P : Pager ρ κ} {State : ρ → Durable → Prop}
    (hP : P.Atomic State) {zName : List UInt8} {f : PlainFile} {offs : List Nat} {n : Nat}
    (h : Ready D Free zName z f) (hh : Holds D Free z offs n page f) (hone : page 1 ≠ none)
    (hwrite : 1 < z.inWriteTrans) {nBuf : Nat}
    (hbuf : ∀ q blob c, page q = some c → D blob c → blob.length ≤ nBuf) (husr : z.nUsrPage = 0)
    {storage : ρ} {disk : PlainFile} (hstorage : State storage (.dirty disk)) (nMax : Int) :
    Ends (compactArea fl nBuf nMax z >>= zipvfsCommitTransaction P fl storage)
      (fun r => ∃ disk', State r.1 (.idle disk') ∧ OnDisk D Free zName disk' f)
      fun e => e = .ZIPVFS_CORRUPT := by
  have harea := compactArea_spec hfl hh.image hh.free hone hwrite hbuf nMax
  cases hrun : compactArea fl nBuf nMax z with
  | error e =>
    rw [hrun] at harea
    exact harea
  | ok z1 =>
    rw [hrun] at harea
    obtain ⟨⟨offs1, h1, hfree1⟩, hsame⟩ := harea
    have hready := h.compacted hh h1 hfree1 hsame
    have husr1 : z1.nUsrPage = 0 := by rw [hsame.nUsrPage, husr]
    obtain ⟨r, z2, hcommit, hidle, hready2, hheader, _⟩ := zipvfsCommitTransaction_spec hfl hP
      hready (by rw [hsame.inWriteTrans]; exact hwrite) (by rw [husr1]; exact Nat.zero_le _)
      hstorage
    rw [if_pos husr1] at hready2
    change Ends (zipvfsCommitTransaction P fl storage z1) _ _
    rw [hcommit]
    exact ⟨z2.file, hidle, hready2.onDisk hfl hheader⟩

/-- A compaction leaves the user's database as it is, also when it fails. -/
theorem zipvfsCompactFile_spec {ρ κ σ : Type} {P : Pager ρ κ} {State : ρ → Durable → Prop}
    (hP : P.Atomic State) {m : ZipvfsMethods σ} {Ok : σ → Prop}
    (hm : ∀ k, PageSize k → m.Lossless Ok D k) {zName : List UInt8} {storage : ρ}
    {disk f : PlainFile} (hlock : State (P.sqlite3PagerSharedLock storage) (.idle disk))
    (h : OnDisk D Free zName disk f)
    {xGetMethods : Option (List UInt8) → Except ErrorCode (Option σ)}
    (hget : Finds Ok zName xGetMethods) {methods : Option σ}
    (hctx : ∀ s, methods = some s → Ok s) {nPgsz : Nat} (hpgsz : PageSize nPgsz) {nMaxFree : Nat}
    {nBuf : Option Nat} (hfirst :
      ∀ l ∈ (zipvfsLockFile P xGetMethods storage methods nPgsz nMaxFree nBuf).toOption,
        Compactable m l.2.1 l.2.2) (nMax : Int) :
    ∃ c disk',
      zipvfsCompactFile P fl m xGetMethods storage methods nPgsz nMaxFree nBuf nMax = .ok c ∧
      Ok c.methods ∧ State c.storage (.idle disk') ∧ OnDisk D Free zName disk' f := by
  obtain ⟨s, hdr, hrun, hok, hsnap⟩ := zipvfsLockFile_spec hP hlock h hget hctx hpgsz nMaxFree nBuf
  obtain ⟨hbufs, hsize, e, hfind, hpage⟩ := hfirst _ (by rw [hrun]; rfl)
  rw [zipvfsFindPage_eq hsnap.paged] at hfind
  obtain rfl := Option.some.inj hfind
  simp only [zipvfsCompactFile, hrun, bind, Except.bind]
  split
  · generalize hw : ({ (⟨disk, disk, hdr, nPgsz, 0, 0, nMaxFree, nBuf⟩ : ZipvfsFile) with
      inWriteTrans := 2 } : ZipvfsFile) = w
    have hfits : BufferFits m s w w.hdr.pgsz := by
      rw [← hw]
      exact hbufs
    rw [hfits.buffer_eq]
    generalize hz : { w with nCompressionBuffer := some (m.xCompressBound s w.hdr.pgsz) } = z
    have hpgsz : w.hdr.pgsz = z.hdr.pgsz := by rw [← hz]
    rw [← hw] at hz
    have hready : Ready D Free zName z f :=
      h.ready z (by rw [← hz]; exact ⟨rfl, hsnap.header, rfl, hsnap.paged⟩)
    obtain ⟨offs, n, page, hh⟩ := hready.holds
    have hfindz := zipvfsFindPage_eq hh.image.paged 1
    have hone := hh.first_ne (by rw [← hz]; exact hsize) hfindz (by rw [← hz]; exact hpage)
    have hpg : PageSize z.hdr.pgsz := by
      apply hh.pgsz.resolve_left
      intro hn
      have hzero := hh.sized.iSize
      rw [hn, Nat.zero_mul, ← hz] at hzero
      simp only at hzero hsize
      omega
    have hcommit := compactArea_commit hfl hP hready hh hone
      (by rw [← hz]; exact Nat.one_lt_two) (fun q blob c hq hD => (hm _ hpg).bound s blob c hok
        (hh.length q c hq) hD) (by rw [← hz]) (hP.begins _ _ hlock) nMax
    simp only [hpgsz]
    cases hresult : compactArea fl (m.xCompressBound s z.hdr.pgsz) nMax z >>=
        zipvfsCommitTransaction P fl (P.sqlite3PagerSharedLock storage) with
    | error e =>
      obtain ⟨disk', hext, hidle⟩ := hP.rollback _ _ (hP.begins _ _ hlock)
      simp only [bind, Except.bind] at hresult
      simp only [hresult]
      exact ⟨_, disk', rfl, hok, hidle, h.extends hfl hext⟩
    | ok r =>
      rw [hresult] at hcommit
      obtain ⟨disk', hidle, hdisk⟩ := hcommit
      simp only [bind, Except.bind] at hresult
      simp only [hresult]
      exact ⟨_, disk', rfl, hok, hP.rollback_idle _ _ hidle, hdisk⟩
  · exact ⟨_, disk, rfl, hok, hP.rollback_idle _ _ hlock, h⟩

end

end NdsDevkit.Zipvfs
