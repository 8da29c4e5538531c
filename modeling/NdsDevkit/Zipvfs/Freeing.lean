import NdsDevkit.Zipvfs.Lookup

namespace NdsDevkit.Zipvfs

open Framework ZipvfsFile

section

variable {D : List UInt8 → List UInt8 → Prop} {z z' : ZipvfsFile} {offs : List Nat} {ex : Set Nat}
  {page : Nat → Option (List UInt8)} {p : Nat}

theorem freeSlots_of_none (h : Image D z offs ex page) (hp : z.InMap p) (hex : p ∉ ex)
    (hpage : page p = none) : freeSlots z.bytes offs (insert p ex) = freeSlots z.bytes offs ex := by
  have hentry := h.entry_none hp hex hpage
  have hused : ∀ o ∈ offs, Used z.bytes (insert p ex) o ↔ Used z.bytes ex o := by
    intro o ho
    constructor
    · intro hu
      exact ⟨fun hmem => hu.1 (.inr hmem), hu.2⟩
    · intro hu
      refine ⟨?_, hu.2⟩
      intro hmem
      rcases hmem with heq | hmem
      · have hoff := hu.2
        rw [heq, hentry, entryOffset_zero] at hoff
        have hlow := (h.slot_bounds ho).1
        omega
      · exact hu.1 hmem
  apply Set.ext
  intro s
  constructor
  · intro hs
    exact ⟨hs.1, fun hu => hs.2.1 ((hused _ hs.1).mpr hu), hs.2.2⟩
  · intro hs
    exact ⟨hs.1, fun hu => hs.2.1 ((hused _ hs.1).mp hu), hs.2.2⟩

/-- The slot of a page that gives up its record becomes free. -/
theorem freeSlots_of_record (h : Image D z offs ex page) {o : Nat} {blob : List UInt8}
    (ho : o ∈ offs) (hrec : RecordAt z.bytes p o blob) :
    freeSlots z.bytes offs (insert p ex) =
      insert (o, slotPayload z.bytes o) (freeSlots z.bytes offs ex) := by
  have hoff := hrec.offset (h.slot_bounds ho).2.2.2
  apply Set.ext
  intro s
  constructor
  · intro hs
    obtain ⟨h1, h2, h3⟩ := hs
    by_cases heq : s.1 = o
    · refine .inl (Prod.ext heq ?_)
      rw [h3, heq]
    · refine .inr ⟨h1, ?_, h3⟩
      intro hu
      apply h2
      refine ⟨?_, hu.2⟩
      intro hmem
      rcases hmem with hpage | hmem
      · have huoff := hu.2
        rw [hpage, hoff] at huoff
        exact heq huoff.symm
      · exact hu.1 hmem
  · intro hs
    rcases hs with rfl | hs
    · refine ⟨ho, ?_, rfl⟩
      intro hu
      exact hu.1 (.inl hrec.page)
    · exact ⟨hs.1, fun hu => hs.2.1 ⟨fun hmem => hu.1 (.inr hmem), hu.2⟩, hs.2.2⟩

theorem freeSlots_ge (h : Image D z offs ex page) {s : Nat × Nat}
    (hs : s ∈ freeSlots z.bytes offs ex) : 200 ≤ s.1 :=
  (h.slot_bounds hs.1).1

/-- A slot in use can be added. -/
theorem addable_of_used (h : Image D z offs ex page) {o : Nat} (ho : o ∈ offs)
    (hused : Used z.bytes ex o) :
    Addable z (freeSlots z.bytes offs ex) o (slotPayload z.bytes o) := by
  obtain ⟨hlow, _, hhigh, _⟩ := h.slot_bounds ho
  have hend := h.dataEnd
  rw [slotEnd, zipvfsSlotHdrSize] at hhigh
  refine ⟨⟨by omega, by omega⟩, (h.slots o ho).1, rfl, ?_⟩
  intro s hs
  have hne : s.1 ≠ o := by
    intro heq
    apply hs.2.1
    rw [heq]
    exact hused
  have hapart := h.layout.apart hs.1 ho hne
  rw [slotEnd, slotEnd, zipvfsSlotHdrSize, ← hs.2.2] at hapart
  exact hapart

end

/-- What an operation on the data area leaves as it is, apart from the records: the headers of the
slots, and what lies outside the area. -/
structure SameSlots (offs : List Nat) (z z' : ZipvfsFile) : Prop where
  page : ∀ o ∈ offs, slotPage z'.bytes o = slotPage z.bytes o
  payload : ∀ o ∈ offs, slotPayload z'.bytes o = slotPayload z.bytes o
  inner : Inner z z'

section

variable {D : List UInt8 → List UInt8 → Prop} {fl : FreeList}
  {Free : ZipvfsFile → Set (Nat × Nat) → Prop} (hfl : fl.Keeps Free) {z : ZipvfsFile}
  {offs : List Nat} {page : Nat → Option (List UInt8)} {p : Nat}

/-- An operation of the free-slot list does not matter for what the file holds. -/
theorem Image.untouched {z' : ZipvfsFile} {ex : Set Nat} (h : Image D z offs ex page)
    (hrest : Untouched (freeSlots z.bytes offs ex) z z') :
    Image D z' offs ex page ∧ freeSlots z'.bytes offs ex = freeSlots z.bytes offs ex ∧
      SameSlots offs z z' := by
  have hagree : ∀ i, 200 ≤ i → Apart (freeSlots z.bytes offs ex) i → z'.bytes i = z.bytes i :=
    fun i _ => hrest.bytes i
  exact ⟨h.agree hagree hrest.sameArea (hrest.paged h.paged) hrest.grows,
    h.agree_freeSlots hagree,
    fun o ho => (h.agree_hdr hagree ho).1, fun o ho => (h.agree_hdr hagree ho).2,
    hrest.inner fun s => freeSlots_ge h⟩

variable (hwrite : 1 < z.inWriteTrans)

include hfl hwrite

/-- The slot of a page is added to the free slots, if it has one. -/
theorem zipvfsFreelistAdd_spec {ex : Set Nat} (h : Image D z offs ex page)
    (hfree : Free z (freeSlots z.bytes offs ex)) (hp : z.InMap p) (hex : p ∉ ex) :
    ∃ iOff nByte nPadding z', z.zipvfsFindPage p = .ok (iOff, nByte) ∧
      z.findPadding p = .ok nPadding ∧
      fl.zipvfsFreelistAdd z iOff (nByte + nPadding).toNat = .ok z' ∧
      Image D z' offs (insert p ex) page ∧ Free z' (freeSlots z'.bytes offs (insert p ex)) ∧
      z.hdr.SameArea z'.hdr ∧ SameSlots offs z z' := by
  have hdrop : Image D z offs (insert p ex) page := h.drop fun q hq => .inr hq
  cases hpage : page p with
  | none =>
    obtain ⟨hfind, hpad⟩ := h.findPage_none hp hex hpage
    refine ⟨0, 0, 0, z, hfind, hpad, hfl.add_zero _ _, hdrop, ?_, ⟨rfl, rfl, rfl, rfl⟩,
      fun _ _ => rfl, fun _ _ => rfl, Inner.refl z⟩
    rw [freeSlots_of_none h hp hex hpage]
    exact hfree
  | some c =>
    obtain ⟨o, blob, ho, hrec, _⟩ := h.entry_some hp hex hpage
    have hfind := h.findPage_record ho hrec
    have hpad := h.padding_record hwrite ho hrec
    have hused := hrec.used (h.slot_bounds ho).2.2.2 hex
    obtain ⟨z1, hadd, hrest, hfree1⟩ :=
      hfl.add z _ o _ h.paged hwrite hfree (addable_of_used h ho hused)
    rw [← freeSlots_of_record h ho hrec] at hrest hfree1
    obtain ⟨himage, hset, hslots⟩ := hdrop.untouched hrest
    have hsum : ((blob.length : Int) + (slotPayload z.bytes o - blob.length)).toNat =
        slotPayload z.bytes o := by omega
    refine ⟨o, blob.length, _, z1, hfind, hpad, ?_, himage, ?_, hrest.sameArea, hslots⟩
    · rw [hsum, hadd]
    · rw [hset]
      exact hfree1

/-- The record of a page is given up. -/
theorem zipvfsFreeOldSlot_spec (h : Image D z offs ∅ page)
    (hfree : Free z (freeSlots z.bytes offs ∅)) (hp : z.InMap p)
    (hsize : page p ≠ none → (p - 1) * z.hdr.pgsz % 2 ^ 32 < z.hdr.iSize) :
    ∃ z', zipvfsFreeOldSlot fl z p = .ok z' ∧ Image D z' offs {p} page ∧
      Free z' (freeSlots z'.bytes offs {p}) ∧ z.hdr.SameArea z'.hdr ∧ SameSlots offs z z' := by
  have hone : insert p ∅ = ({p} : Set Nat) := insert_empty_eq p
  rw [zipvfsFreeOldSlot]
  by_cases hbelow : (p - 1) * z.hdr.pgsz % 2 ^ 32 < z.hdr.iSize
  · obtain ⟨iOff, nByte, nPadding, z1, hfind, hpad, hadd, himage, hfree1, harea, hslots⟩ :=
      zipvfsFreelistAdd_spec hfl hwrite h hfree hp (Set.notMem_empty p)
    rw [hone] at himage hfree1
    refine ⟨{ z1 with hdr.nFreeFragment := z1.hdr.nFreeFragment - nPadding }, ?_, ?_, ?_, harea,
      hslots.page, hslots.payload, hslots.inner.trans ?_⟩
    · rw [if_pos hbelow]
      simp only [hfind, hpad, hadd, bind, Except.bind]
      rfl
    · exact himage.agree (fun _ _ _ => rfl) ⟨rfl, rfl, rfl, rfl⟩ himage.paged (Grows.refl z1)
    · exact hfl.congr z1 _ _ hfree1 ⟨rfl, rfl, rfl⟩ fun _ _ _ _ _ => rfl
    · exact ⟨rfl, rfl, rfl, rfl, rfl, rfl, rfl, rfl, Nat.le_refl _, fun _ _ => rfl⟩
  · have hpage : page p = none := by
      by_contra hne
      exact hbelow (hsize hne)
    have hset := freeSlots_of_none h hp (Set.notMem_empty p) hpage
    rw [hone] at hset
    refine ⟨z, by rw [if_neg hbelow]; rfl, h.drop fun q hq => absurd hq (Set.notMem_empty q),
      by rw [hset]; exact hfree, ⟨rfl, rfl, rfl, rfl⟩, fun _ _ => rfl, fun _ _ => rfl,
      Inner.refl z⟩

end

end NdsDevkit.Zipvfs
