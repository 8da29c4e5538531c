import NdsDevkit.Zipvfs.Transactions

namespace NdsDevkit.Zipvfs

open Framework ZipvfsFile

/-- The key of a slot in the tree of the free slots: its size above the 40 bits of its offset and
the flag of a slot that has a node in it. -/
def zipvfsFlEncodeKey (nPayload iOffset : Nat) : Nat := nPayload <<< 41 + iOffset <<< 1

/-- The node with the only key, which is the key of its own slot. -/
def rootNode (iOff nByte : Nat) : List UInt8 :=
  putBytes 2 1 ++ (putBytes 2 1 ++ putBytes 8 (zipvfsFlEncodeKey nByte iOff + 1))

theorem length_rootNode (iOff nByte : Nat) : (rootNode iOff nByte).length = 12 := by
  simp [rootNode]

/-- The list without its slot. -/
def forget (z : ZipvfsFile) : ZipvfsFile :=
  { z with hdr.iFreeSlot := 0, hdr.nFreeSlot := 0, hdr.nFreeByte := 0 }

/-- A free-slot list that has one slot at most: where the tree would get its second key, the slot
is lost. A slot is reused with a fragment of 200 bytes at most. -/
def oneSlot : FreeList where
  zipvfsFreelistAdd := fun z iOff nByte =>
    if iOff = 0 ∨ z.hdr.iFreeSlot ≠ 0 then return z
    else do
      let z ← z.zipvfsStoreData (iOff + 6) (rootNode iOff nByte)
      return { z with hdr.iFreeSlot := iOff, hdr.nFreeSlot := 1, hdr.nFreeByte := nByte }
  zipvfsFreelistRemove := fun z iOff _ =>
    if z.hdr.iFreeSlot = iOff then return forget z else return z
  zipvfsFreelistBestfit := fun z bExact nByte =>
    let nSize := z.hdr.nFreeByte
    if z.hdr.iFreeSlot = 0 ∨ nSize < nByte ∨ nSize > nByte + 200 ∨ bExact ∧ nSize ≠ nByte then
      return (z, 0, 0)
    else return (forget z, z.hdr.iFreeSlot, nSize)

/-- The list has no slot, or one of the free slots. -/
def KeepsOne (z : ZipvfsFile) (S : Set (Nat × Nat)) : Prop :=
  z.hdr.iFreeSlot = 0 ∧ z.hdr.nFreeSlot = 0 ∧ z.hdr.nFreeByte = 0 ∨
    (z.hdr.iFreeSlot, z.hdr.nFreeByte) ∈ S ∧ z.hdr.iFreeSlot ≠ 0 ∧ z.hdr.nFreeSlot = 1 ∧
      z.hdr.iFreeSlot + z.hdr.nFreeByte ≤ pagerReach

section

variable {z : ZipvfsFile} {S : Set (Nat × Nat)}

theorem forget_untouched (z : ZipvfsFile) (S : Set (Nat × Nat)) : Untouched S z (forget z) :=
  ⟨rfl, fun _ _ => rfl, Nat.le_refl _⟩

theorem untouched_refl (z : ZipvfsFile) (S : Set (Nat × Nat)) : Untouched S z z :=
  ⟨rfl, fun _ _ => rfl, Nat.le_refl _⟩

theorem forget_keepsOne (z : ZipvfsFile) (S : Set (Nat × Nat)) : KeepsOne (forget z) S :=
  .inl ⟨rfl, rfl, rfl⟩

/-- The first slot of the list has the root node. -/
theorem oneSlot_add (hpaged : z.Paged) (h : KeepsOne z S) {iOff n : Nat}
    (hadd : Addable z S iOff n) :
    ∃ z', oneSlot.zipvfsFreelistAdd z iOff n = .ok z' ∧ Untouched (insert (iOff, n) S) z z' ∧
      KeepsOne z' (insert (iOff, n) S) := by
  obtain ⟨hpos, hreach⟩ := hadd.offset
  have hmin := hadd.size
  rw [zipvfsMinPayload] at hmin
  have hlen := length_rootNode iOff n
  by_cases hroot : z.hdr.iFreeSlot = 0
  · obtain ⟨z1, hrun, hstored⟩ := hpaged.zipvfsStoreData_spec (iOff + 6)
      (rootNode iOff n) (by omega)
    have hcond : ¬ (iOff = 0 ∨ z.hdr.iFreeSlot ≠ 0) := by omega
    refine ⟨{ z1 with hdr.iFreeSlot := iOff, hdr.nFreeSlot := 1, hdr.nFreeByte := n }, ?_,
      ⟨?_, ?_, hstored.size⟩, .inr ⟨Set.mem_insert _ _, ?_, rfl, ?_⟩⟩
    · simp only [oneSlot, if_neg hcond, hrun, bind, Except.bind]
      rfl
    · exact congrArg (fun w => { w with
        hdr.iFreeSlot := z.hdr.iFreeSlot
        hdr.nFreeSlot := z.hdr.nFreeSlot
        hdr.nFreeByte := z.hdr.nFreeByte }) hstored.rest
    · intro i hi
      have hapart := hi (iOff, n) (Set.mem_insert _ _)
      simp only at hapart
      change z1.bytes i = z.bytes i
      rw [hstored.bytes]
      exact Cells.put_of_not_mem _ (by omega)
    · exact Nat.ne_of_gt hpos
    · change iOff + n ≤ pagerReach
      omega
  · refine ⟨z, ?_, untouched_refl z _, ?_⟩
    · simp only [oneSlot, if_pos (show iOff = 0 ∨ z.hdr.iFreeSlot ≠ 0 from .inr hroot)]
      rfl
    · rcases h with ⟨hzero, _⟩ | ⟨hmem, hrest⟩
      · exact absurd hzero hroot
      · exact .inr ⟨Set.mem_insert_of_mem _ hmem, hrest⟩

theorem oneSlot_remove (h : KeepsOne z S) {s : Nat × Nat} :
    ∃ z', oneSlot.zipvfsFreelistRemove z s.1 s.2 = .ok z' ∧ Untouched S z z' ∧
      KeepsOne z' (S \ {s}) := by
  by_cases hroot : z.hdr.iFreeSlot = s.1
  · refine ⟨forget z, ?_, forget_untouched z S, forget_keepsOne z _⟩
    simp only [oneSlot, if_pos hroot]
    rfl
  · refine ⟨z, ?_, untouched_refl z S, ?_⟩
    · simp only [oneSlot, if_neg hroot]
      rfl
    · rcases h with hzero | ⟨hmem, hrest⟩
      · exact .inl hzero
      · refine .inr ⟨⟨hmem, ?_⟩, hrest⟩
        intro heq
        exact hroot (congrArg Prod.fst heq)

theorem oneSlot_bestfit (h : KeepsOne z S) (bExact : Bool) (n : Nat) :
    ∃ z' s, oneSlot.zipvfsFreelistBestfit z bExact n = .ok (z', s) ∧ Untouched S z z' ∧
      (s.1 = 0 ∧ KeepsOne z' S ∨
        s ∈ S ∧ n ≤ s.2 ∧ (bExact = true → s.2 = n) ∧ KeepsOne z' (S \ {s})) := by
  by_cases hnone : z.hdr.iFreeSlot = 0 ∨ z.hdr.nFreeByte < n ∨ z.hdr.nFreeByte > n + 200 ∨
      bExact ∧ z.hdr.nFreeByte ≠ n
  · refine ⟨z, (0, 0), ?_, untouched_refl z S, .inl ⟨rfl, h⟩⟩
    simp only [oneSlot, if_pos hnone]
    rfl
  · refine ⟨forget z, (z.hdr.iFreeSlot, z.hdr.nFreeByte), ?_, forget_untouched z S,
      .inr ⟨?_, ?_, ?_, forget_keepsOne z _⟩⟩
    · simp only [oneSlot, if_neg hnone]
      rfl
    · rcases h with ⟨hzero, _⟩ | ⟨hmem, _⟩
      · exact absurd (.inl hzero) hnone
      · exact hmem
    · change n ≤ z.hdr.nFreeByte
      omega
    · intro hexact
      by_contra hne
      exact hnone (.inr (.inr (.inr ⟨hexact, hne⟩)))

end

theorem oneSlot_keeps : oneSlot.Keeps KeepsOne where
  empty := fun _ h1 h2 h3 => .inl ⟨h1, h2, h3⟩
  small := by
    intro z S h
    rcases h with ⟨h1, h2, h3⟩ | ⟨_, _, h2, hreach⟩
    · omega
    · rw [pagerReach] at hreach
      omega
  congr := by
    intro z z' S h heq _
    obtain ⟨h1, h2, h3⟩ := heq
    rw [KeepsOne, h1, h2, h3]
    exact h
  add_zero := fun _ _ => rfl
  add := fun _ _ _ _ hpaged _ h hadd => oneSlot_add hpaged h hadd
  remove := fun _ _ _ _ _ h _ => oneSlot_remove h
  bestfit := fun _ _ bExact n _ _ h => oneSlot_bestfit h bExact n

/-- A page without the zeros at its end. -/
def trim : List UInt8 → List UInt8
  | [] => []
  | b :: bs => if b = 0 ∧ trim bs = [] then [] else b :: trim bs

theorem length_trim_le (bs : List UInt8) : (trim bs).length ≤ bs.length := by
  induction bs with
  | nil => exact Nat.le_refl 0
  | cons b bs ih =>
    rw [trim]
    split
    · exact Nat.zero_le _
    · rw [List.length_cons, List.length_cons]
      omega

theorem trim_append (bs : List UInt8) :
    trim bs ++ List.replicate (bs.length - (trim bs).length) 0 = bs := by
  induction bs with
  | nil => rfl
  | cons b bs ih =>
    have hle := length_trim_le bs
    rw [trim]
    split
    · next hzero =>
      obtain ⟨rfl, htrim⟩ := hzero
      rw [htrim, List.nil_append, List.length_nil, Nat.sub_zero] at ih
      rw [List.nil_append, List.length_nil, Nat.sub_zero, List.length_cons, List.replicate_succ, ih]
    · rw [List.length_cons, List.length_cons, Nat.add_sub_add_right, List.cons_append, ih]

/-- Callbacks that store a page behind a byte, without the zeros at its end. -/
def trimmed : ZipvfsMethods Unit where
  zHdr := fun _ => [0x74, 0x72, 0x69, 0x6D]
  xCompressBound := fun _ n => n + 1
  xCompress := fun _ _ page => (true, 1 :: trim page)
  xUncompress := fun s blob n =>
    some (s, blob.drop 1 ++ List.replicate (n - (blob.drop 1).length) 0)

theorem trimmed_lossless {k : Nat} (hk : PageSize k) :
    trimmed.Lossless (fun _ => True) (fun blob page => blob = 1 :: trim page) k where
  compress := by
    intro _ page _ hlen
    have hle := length_trim_le page
    obtain ⟨_, hhigh⟩ := hk.bounds
    refine ⟨Nat.succ_pos _, ?_, rfl⟩
    change (trim page).length + 1 ≤ zipvfsMaxPayload
    rw [zipvfsMaxPayload]
    omega
  bound := by
    intro _ blob page _ hlen hD
    have hle := length_trim_le page
    rw [hD, List.length_cons]
    change _ ≤ k + 1
    omega
  uncompress := by
    intro s blob page _ hlen hD
    refine ⟨s, ?_, True.intro⟩
    have hpage := trim_append page
    rw [hlen] at hpage
    simp only [trimmed, hD, List.drop_one, List.tail_cons, hpage]

/-- Connections that all have these callbacks, with the undo journal. -/
def smallVfs (ι : Type) : Vfs ι Unit UndoJournal Unit where
  pager := UndoJournal.pager
  freelist := oneSlot
  methods := trimmed
  xGetMethods := fun _ _ => .ok (some ())

theorem smallVfs_correct (ι : Type) : (smallVfs ι).Correct (fun _ => True)
    (fun blob page => blob = 1 :: trim page) KeepsOne [0x74, 0x72, 0x69, 0x6D]
    UndoJournal.State where
  pager := UndoJournal.pager_atomic
  freelist := oneSlot_keeps
  lossless := fun _ hk => trimmed_lossless hk
  name := fun _ _ => rfl
  finds := fun _ _ _ => ⟨(), rfl, True.intro⟩

end NdsDevkit.Zipvfs
