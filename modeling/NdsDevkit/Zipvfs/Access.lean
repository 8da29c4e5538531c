import NdsDevkit.Framework.PlainFile
import NdsDevkit.Zipvfs.Expanding
import NdsDevkit.Zipvfs.Truncating

namespace NdsDevkit.Zipvfs

open Framework ZipvfsFile

/-- The page sizes of the user's database. -/
def PageSize (n : Nat) : Prop := ∃ k, 9 ≤ k ∧ k ≤ 16 ∧ n = 2 ^ k

instance (n : Nat) : Decidable (PageSize n) :=
  decidable_of_iff (∃ k, k ≤ 16 ∧ 9 ≤ k ∧ n = 2 ^ k) (exists_congr fun _ => and_left_comm)

theorem PageSize.bounds {n : Nat} (h : PageSize n) : 512 ≤ n ∧ n ≤ 65536 := by
  obtain ⟨k, h9, h16, rfl⟩ := h
  have hlow : 2 ^ 9 ≤ 2 ^ k := Nat.pow_le_pow_right (by decide) h9
  have hhigh : 2 ^ k ≤ 2 ^ 16 := Nat.pow_le_pow_right (by decide) h16
  omega

/-- The callbacks keep the pages of `n` bytes, in the contexts that `Ok` allows. A buffer of the
size that `xCompressBound` gives has room for every record. -/
structure ZipvfsMethods.Lossless {σ : Type} (m : ZipvfsMethods σ) (Ok : σ → Prop)
    (D : List UInt8 → List UInt8 → Prop) (n : Nat) : Prop where
  compress : ∀ s page, Ok s → page.length = n →
    0 < (m.xCompress s (m.xCompressBound s n) page).2.length ∧
      (m.xCompress s (m.xCompressBound s n) page).2.length ≤ zipvfsMaxPayload ∧
      D (m.xCompress s (m.xCompressBound s n) page).2 page
  bound : ∀ s blob page, Ok s → page.length = n → D blob page →
    blob.length ≤ m.xCompressBound s n
  uncompress : ∀ s blob page, Ok s → page.length = n → D blob page →
    ∃ s', m.xUncompress s blob n = some (s', page) ∧ Ok s'

/-- A buffer that is there has the size that the page size of today asks for. -/
def BufferFits {σ : Type} (m : ZipvfsMethods σ) (s : σ) (z : ZipvfsFile) (pgsz : Nat) : Prop :=
  ∀ n ∈ z.nCompressionBuffer, n = m.xCompressBound s pgsz

instance {σ : Type} (m : ZipvfsMethods σ) (s : σ) (z : ZipvfsFile) (pgsz : Nat) :
    Decidable (BufferFits m s z pgsz) :=
  inferInstanceAs (Decidable (∀ n ∈ z.nCompressionBuffer, _))

theorem BufferFits.buffer_eq {σ : Type} {m : ZipvfsMethods σ} {s : σ} {z : ZipvfsFile}
    (h : BufferFits m s z z.hdr.pgsz) : zipvfsCompressionBuffer m s z =
      ({ z with nCompressionBuffer := some (m.xCompressBound s z.hdr.pgsz) },
        m.xCompressBound s z.hdr.pgsz) := by
  rw [zipvfsCompressionBuffer]
  cases hbuf : z.nCompressionBuffer with
  | none => rfl
  | some n =>
    rw [h n hbuf]
    rfl

/-- A byte of the user's database. A page without a record is zero. -/
def pageByte (pgsz : Nat) (page : Nat → Option (List UInt8)) (i : Nat) : UInt8 :=
  ((page (i / pgsz + 1)).getD []).getD (i % pgsz) 0

theorem pageByte_none {pgsz i : Nat} {page : Nat → Option (List UInt8)}
    (h : page (i / pgsz + 1) = none) : pageByte pgsz page i = 0 := by
  rw [pageByte, h]
  rfl

theorem div_eq_of_page {n k i : Nat} (h1 : k * n ≤ i) (h2 : i < k * n + n) : i / n = k := by
  apply Nat.div_eq_of_lt_le h1
  rwa [Nat.succ_mul]

/-- A change of one page is a write. -/
theorem pageByte_put {pgsz k : Nat} {page page' : Nat → Option (List UInt8)} {c : List UInt8}
    (hpos : 0 < pgsz) (hc : c.length = pgsz)
    (hnew : ∀ j, j < pgsz → ((page' (k + 1)).getD []).getD j 0 = c.getD j 0)
    (hold : ∀ q, q ≠ k + 1 → page' q = page q) :
    pageByte pgsz page' = Cells.put (pageByte pgsz page) (k * pgsz) c := by
  funext i
  have hmod := Nat.mod_lt i hpos
  have hdiv := Nat.div_add_mod i pgsz
  by_cases hin : k * pgsz ≤ i ∧ i < k * pgsz + pgsz
  · have hk := div_eq_of_page hin.1 hin.2
    rw [hk, Nat.mul_comm] at hdiv
    rw [Cells.put_of_mem _ hin.1 (by omega), pageByte, hk, hnew _ hmod,
      List.getD_eq_getElem?_getD, List.getElem?_eq_getElem (by omega), Option.getD_some]
    congr 1
    omega
  · have hne : i / pgsz ≠ k := by
      intro heq
      rw [heq, Nat.mul_comm] at hdiv
      omega
    rw [Cells.put_of_not_mem _ (by omega), pageByte, pageByte, hold _ (by omega)]

/-- The pages behind the first `k` are cut off. -/
theorem pageByte_keepPages {pgsz : Nat} (hpos : 0 < pgsz) (k : Nat)
    (page : Nat → Option (List UInt8)) (i : Nat) :
    pageByte pgsz (keepPages k page) i = if i < k * pgsz then pageByte pgsz page i else 0 := by
  have hlt := Nat.div_lt_iff_lt_mul (x := i) (y := k) hpos
  by_cases hi : i < k * pgsz
  · have hle := hlt.mpr hi
    rw [if_pos hi, pageByte, pageByte, keepPages, if_neg (by omega)]
  · have hge : ¬ i / pgsz < k := fun hc => hi (hlt.mp hc)
    rw [if_neg hi]
    apply pageByte_none
    rw [keepPages, if_pos (by omega)]

theorem get_pageByte_none {pgsz o n : Nat} {page : Nat → Option (List UInt8)}
    (hin : o % pgsz + n ≤ pgsz) (h : page (o / pgsz + 1) = none) :
    Cells.get (pageByte pgsz page) o n = List.replicate n 0 := by
  rw [List.eq_replicate_iff]
  refine ⟨Cells.length_get _ _ _, ?_⟩
  intro x hx
  simp only [Cells.get, List.mem_map, List.mem_range] at hx
  obtain ⟨j, hj, rfl⟩ := hx
  have hdiv := Nat.div_add_mod o pgsz
  rw [Nat.mul_comm] at hdiv
  apply pageByte_none
  rw [div_eq_of_page (k := o / pgsz) (by omega) (by omega), h]

theorem get_pageByte_some {pgsz o n : Nat} {page : Nat → Option (List UInt8)} {c : List UInt8}
    (hin : o % pgsz + n ≤ pgsz) (h : page (o / pgsz + 1) = some c) (hc : c.length = pgsz) :
    Cells.get (pageByte pgsz page) o n = (c.drop (o % pgsz)).take n := by
  have hdiv := Nat.div_add_mod o pgsz
  rw [Nat.mul_comm] at hdiv
  apply List.ext_getElem
  · rw [Cells.length_get, List.length_take, List.length_drop]
    omega
  · intro j hj _
    rw [Cells.length_get] at hj
    have hpage := div_eq_of_page (n := pgsz) (k := o / pgsz) (i := o + j) (by omega) (by omega)
    have hdiv' := Nat.div_add_mod (o + j) pgsz
    rw [hpage, Nat.mul_comm] at hdiv'
    simp only [Cells.get, List.getElem_map, List.getElem_range, List.getElem_take,
      List.getElem_drop]
    rw [pageByte, hpage, h, Option.getD_some, List.getD_eq_getElem?_getD,
      List.getElem?_eq_getElem (by omega), Option.getD_some]
    congr 1
    omega

/-- The compressed file `z` stores the user's database `f` in the slots `offs`, as `n` pages. -/
structure Holds (D : List UInt8 → List UInt8 → Prop) (Free : ZipvfsFile → Set (Nat × Nat) → Prop)
    (z : ZipvfsFile) (offs : List Nat) (n : Nat) (page : Nat → Option (List UInt8))
    (f : PlainFile) : Prop where
  image : Image D z offs ∅ page
  free : Free z (freeSlots z.bytes offs ∅)
  sized : Sized z n page
  pgsz : n = 0 ∨ PageSize z.hdr.pgsz
  length : ∀ p c, page p = some c → c.length = z.hdr.pgsz
  size : f.size = z.hdr.iSize
  bytes : f.bytes = pageByte z.hdr.pgsz page

section

variable {D : List UInt8 → List UInt8 → Prop} {fl : FreeList}
  {Free : ZipvfsFile → Set (Nat × Nat) → Prop} (hfl : fl.Keeps Free) {z : ZipvfsFile}
  {offs : List Nat} {ex : Set Nat} {page : Nat → Option (List UInt8)}

include hfl

/-- Neither the first 200 bytes nor the rest of the header matter for what the file holds. -/
theorem Image.sameData (h : Image D z offs ex page) (z' : ZipvfsFile)
    (hfree : Free z (freeSlots z.bytes offs ex))
    (hbytes : ∀ i, 200 ≤ i → z'.bytes i = z.bytes i) (harea : z.hdr.SameArea z'.hdr)
    (hlist : z'.hdr.iFreeSlot = z.hdr.iFreeSlot ∧ z'.hdr.nFreeSlot = z.hdr.nFreeSlot ∧
      z'.hdr.nFreeByte = z.hdr.nFreeByte) (hpaged : z'.Paged) (hgrows : z.Grows z') :
    Image D z' offs ex page ∧ Free z' (freeSlots z'.bytes offs ex) := by
  have hagree : ∀ i, 200 ≤ i → Apart (freeSlots z.bytes offs ex) i → z'.bytes i = z.bytes i :=
    fun i hi _ => hbytes i hi
  refine ⟨h.agree hagree harea hpaged hgrows, ?_⟩
  rw [h.agree_freeSlots hagree]
  apply hfl.congr z z' _ hfree hlist
  intro s hs i h1 _
  have hlow := freeSlots_ge h hs
  exact hbytes i (by omega)

/-- A store in the first 200 bytes. -/
theorem Image.storeHead {z' : ZipvfsFile} (h : Image D z offs ex page)
    (hfree : Free z (freeSlots z.bytes offs ex)) {o : Nat} {bs : List UInt8}
    (hlow : o + bs.length ≤ 200) (hstored : Stored z o bs z') :
    Image D z' offs ex page ∧ Free z' (freeSlots z'.bytes offs ex) := by
  have hhdr := hstored.hdr_eq
  apply h.sameData hfl z' hfree
  · intro i hi
    rw [hstored.bytes]
    exact Cells.put_of_not_mem _ (.inr (by omega))
  · rw [hhdr]
    exact ⟨rfl, rfl, rfl, rfl⟩
  · rw [hhdr]
    exact ⟨rfl, rfl, rfl⟩
  · exact hstored.paged h.paged
  · exact hstored.grows

end

section

variable {σ : Type} {m : ZipvfsMethods σ} {Ok : σ → Prop} {D : List UInt8 → List UInt8 → Prop}
  {Free : ZipvfsFile → Set (Nat × Nat) → Prop} {s : σ} {z : ZipvfsFile} {offs : List Nat} {n : Nat}
  {page : Nat → Option (List UInt8)} {f : PlainFile}

/-- A part of the page, or all of it. -/
theorem zipvfsDecompress_spec {s' : σ} {pgsz nBuf iPgOff : Nat} {blob c : List UInt8}
    (h : m.xUncompress s blob pgsz = some (s', c)) (hc : c.length = pgsz)
    (hin : iPgOff + nBuf ≤ pgsz) :
    zipvfsDecompress m s pgsz nBuf iPgOff blob = .ok (s', (c.drop iPgOff).take nBuf) := by
  simp only [zipvfsDecompress, h]
  rw [if_neg (by omega)]
  by_cases hpart : nBuf < pgsz
  · rw [if_pos hpart]
    rfl
  · obtain rfl : iPgOff = 0 := by omega
    rw [if_neg hpart, List.drop_zero, List.take_of_length_le (by omega)]
    rfl

/-- A read inside a page has the bytes of the plain file, and is short behind its end. A buffer is
allocated when there is a record to load. -/
theorem zipvfsRead_spec (hm : ∀ k, PageSize k → m.Lossless Ok D k) (hs : Ok s)
    (h : Holds D Free z offs n page f) (hway : 1 < z.inWriteTrans ∨ z.disk = z.file)
    (hbuf : BufferFits m s z z.hdr.pgsz) {iAmt iOfst : Nat}
    (hin : iOfst < f.size → iOfst % z.hdr.pgsz + iAmt ≤ z.hdr.pgsz) :
    ∃ s' nBuf, zipvfsRead m s z iAmt iOfst = .ok (s', { z with nCompressionBuffer := nBuf },
      f.read iOfst iAmt, decide (f.size ≤ iOfst)) ∧ Ok s' := by
  rw [zipvfsRead]
  by_cases hend : f.size ≤ iOfst
  · refine ⟨s, z.nCompressionBuffer, ?_, hs⟩
    rw [f.read_beyond hend, decide_eq_true hend, if_pos (by rw [← h.size]; exact hend)]
    rfl
  · have hbelow : iOfst < n * z.hdr.pgsz := by
      rw [← h.sized.iSize, ← h.size]
      omega
    have hpgsz : PageSize z.hdr.pgsz := by
      rcases h.pgsz with h0 | hpg
      · rw [h0, Nat.zero_mul] at hbelow
        omega
      · exact hpg
    have hpage := (Nat.div_lt_iff_lt_mul (by have hb := hpgsz.bounds; omega)).mpr hbelow
    have hmap := h.sized.inMap
    have hmapSize := h.image.mapSize
    have hfit := hin (by omega)
    have hp : z.InMap (iOfst / z.hdr.pgsz + 1) := ⟨Nat.le_add_left 1 _, by omega⟩
    rw [if_neg (by rw [← h.size]; omega), decide_eq_false hend, PlainFile.read, h.bytes,
      Nat.mod_eq_of_lt (by omega)]
    cases hc : page (iOfst / z.hdr.pgsz + 1) with
    | none =>
      have hfind := (h.image.findPage_none hp (Set.notMem_empty _) hc).1
      refine ⟨s, z.nCompressionBuffer, ?_, hs⟩
      rw [get_pageByte_none hfit hc]
      simp only [hfind, bind, Except.bind]
      rfl
    | some c =>
      obtain ⟨o, blob, ho, hrec, hcovers, hD⟩ := h.image.entry_some hp (Set.notMem_empty _) hc
      have hfind := h.image.findPage_record ho hrec
      have hlen := h.length _ c hc
      obtain ⟨hlow, _, hhigh, _⟩ := h.image.slot_bounds ho
      obtain ⟨s', hun, hs'⟩ := (hm _ hpgsz).uncompress s blob c hs hlen hD
      have hbound := (hm _ hpgsz).bound s blob c hs hlen hD
      generalize hw : { z with nCompressionBuffer := some (m.xCompressBound s z.hdr.pgsz) } = w
      have hload : w.zipvfsLoadData (o + 6) blob.length = .ok blob := by
        have hfits := hrec.fits
        have hreach := h.image.dataEnd
        rw [slotEnd, zipvfsSlotHdrSize] at hhigh
        have hloads : z.Loads (o + 6) blob.length :=
          ⟨by omega, hway.imp_right fun hd => ⟨hd, fun i h1 h2 => hcovers i (by omega) h2⟩⟩
        have hpaged := h.image.paged
        have hbytes := hrec.bytes
        rw [show z.bytes = w.bytes by rw [← hw]; rfl] at hbytes
        rw [show z.Loads = w.Loads by rw [← hw]; rfl] at hloads
        rw [show z.Paged = w.Paged by rw [← hw]; rfl] at hpaged
        rw [hpaged.zipvfsLoadData_eq hloads, hbytes]
      have hrun : zipvfsLoadAndUncompress m s z iAmt (iOfst % z.hdr.pgsz) blob.length o =
          .ok (s', w, (c.drop (iOfst % z.hdr.pgsz)).take iAmt) := by
        have hpg : w.hdr = z.hdr := by rw [← hw]
        simp only [zipvfsLoadAndUncompress, hbuf.buffer_eq, hw, loadBuffer, zipvfsSlotHdrSize,
          if_neg (Nat.not_lt.mpr hbound), hload, hpg, zipvfsDecompress_spec hun hlen hfit, bind,
          Except.bind]
        rfl
      refine ⟨s', some (m.xCompressBound s z.hdr.pgsz), ?_, hs'⟩
      rw [get_pageByte_some hfit hc hlen, hw]
      have hpg : w.hdr = z.hdr := by rw [← hw]
      simp only [hfind, if_pos (show o ≠ 0 by omega), hrun, hpg, bind, Except.bind]
      rw [Nat.sub_eq_zero_of_le (by omega), decide_eq_false (by omega), List.replicate_zero,
        List.append_nil]
      rfl

end

/-- The page size in the header of the user's database. -/
def headerPgsz (zBuf : List UInt8) : Nat :=
  let nPgsz := getBytes ((zBuf.drop 16).take 2)
  if nPgsz = 1 then 65536 else nPgsz

/-- A first page that states its size is not zero. -/
theorem pageIsZeroed_header {zBuf : List UInt8} (hsize : 512 ≤ zBuf.length)
    (h : zBuf.length = headerPgsz zBuf) : pageIsZeroed zBuf = false := by
  cases hz : pageIsZeroed zBuf with
  | false => rfl
  | true =>
    rw [pageIsZeroed, List.all_eq_true] at hz
    have hfield : (zBuf.drop 16).take 2 = List.replicate 2 0 := by
      rw [List.eq_replicate_iff]
      refine ⟨by rw [List.length_take, List.length_drop]; omega, ?_⟩
      intro x hx
      exact of_decide_eq_true (hz x (List.mem_of_mem_drop (List.mem_of_mem_take hx)))
    rw [headerPgsz, hfield] at h
    change zBuf.length = 0 at h
    omega

theorem length_formatName (zHdr : List UInt8) : (formatName zHdr).length = 16 := by
  simp only [formatName, List.length_append, List.length_take, List.length_replicate,
    List.length_cons, List.length_nil]
  omega

theorem length_page1Bytes (zHdr : List UInt8) {zBuf : List UInt8} (hsize : 512 ≤ zBuf.length) :
    (page1Bytes zHdr zBuf).length = 92 := by
  rw [page1Bytes, List.length_append, length_formatName, List.length_take, List.length_drop]
  omega

section

variable {σ : Type} {m : ZipvfsMethods σ} {Ok : σ → Prop} {D : List UInt8 → List UInt8 → Prop}
  {fl : FreeList} {Free : ZipvfsFile → Set (Nat × Nat) → Prop} (hfl : fl.Keeps Free) {s : σ}
  {z : ZipvfsFile} {offs : List Nat} {n : Nat} {page : Nat → Option (List UInt8)} {f : PlainFile}

/-- Every page with a record lies below the size of the user's database. -/
theorem Holds.stored (h : Holds D Free z offs n page f) {q : Nat} (hq : page q ≠ none) :
    (q - 1) * z.hdr.pgsz % 2 ^ 32 < z.hdr.iSize := by
  have hone := (h.image.inMap q hq).1
  have hle : q ≤ n := by
    by_contra hlt
    exact hq (h.sized.beyond q (by omega))
  have hpos : 0 < z.hdr.pgsz := by
    rcases h.pgsz with h0 | hpg
    · omega
    · have hb := hpg.bounds
      omega
  have hmul : (q - 1) * z.hdr.pgsz < n * z.hdr.pgsz :=
    Nat.mul_lt_mul_of_pos_right (by omega) hpos
  have hmod := Nat.mod_le ((q - 1) * z.hdr.pgsz) (2 ^ 32)
  rw [h.sized.iSize]
  omega

theorem Holds.le_pages (h : Holds D Free z offs n page f) {k : Nat} (hone : 1 ≤ k)
    (hk : k ≤ z.hdr.iSize / z.hdr.pgsz) : k ≤ n := by
  rw [h.sized.iSize] at hk
  rcases h.pgsz with h0 | hpg
  · rw [h0, Nat.zero_mul, Nat.zero_div] at hk
    omega
  · have hb := hpg.bounds
    rwa [Nat.mul_div_cancel n (by omega)] at hk

theorem Holds.empty_or (h : Holds D Free z offs n page f) {k : Nat}
    (hsame : z.hdr.iSize = 0 ∨ z.hdr.pgsz = k) : n = 0 ∨ z.hdr.pgsz = k := by
  rcases hsame with hsize | hpg
  · rcases h.pgsz with h0 | hpg
    · exact .inl h0
    · have hb := hpg.bounds
      rw [h.sized.iSize] at hsize
      exact .inl ((Nat.mul_eq_zero.mp hsize).resolve_right (by omega))
  · exact .inr hpg

include hfl

/-- Neither the first 200 bytes nor the rest of the header matter for the user's database. -/
theorem Holds.sameData {z' : ZipvfsFile} (h : Holds D Free z offs n page f)
    (hbytes : ∀ i, 200 ≤ i → z'.bytes i = z.bytes i) (harea : z.hdr.SameArea z'.hdr)
    (hlist : z'.hdr.iFreeSlot = z.hdr.iFreeSlot ∧ z'.hdr.nFreeSlot = z.hdr.nFreeSlot ∧
      z'.hdr.nFreeByte = z.hdr.nFreeByte) (hpaged : z'.Paged) (hgrows : z.Grows z')
    (hsize : z'.hdr.iSize = z.hdr.iSize) (hpgsz : z'.hdr.pgsz = z.hdr.pgsz) :
    Holds D Free z' offs n page f := by
  obtain ⟨himage, hfree⟩ := h.image.sameData hfl z' h.free hbytes harea hlist hpaged hgrows
  refine ⟨himage, hfree, ⟨?_, ?_, h.sized.beyond⟩, ?_, ?_, ?_, ?_⟩
  · rw [hsize, hpgsz]
    exact h.sized.iSize
  · rw [harea.1]
    exact h.sized.inMap
  · rw [hpgsz]
    exact h.pgsz
  · rw [hpgsz]
    exact h.length
  · rw [hsize]
    exact h.size
  · rw [hpgsz]
    exact h.bytes

/-- An empty database takes any page size. -/
theorem Holds.setPgsz (h : Holds D Free z offs n page f) {pg : Nat} (hpg : PageSize pg)
    (hsame : n = 0 ∨ z.hdr.pgsz = pg) (nBuf : Option Nat) :
    Holds D Free { z with hdr.pgsz := pg, nCompressionBuffer := nBuf } offs n page f := by
  obtain ⟨himage, hfree⟩ := h.image.sameData hfl
    { z with hdr.pgsz := pg, nCompressionBuffer := nBuf } h.free (fun _ _ => rfl)
    ⟨rfl, rfl, rfl, rfl⟩ ⟨rfl, rfl, rfl⟩ h.image.paged (Grows.refl z)
  rcases hsame with rfl | rfl
  · have hnone : ∀ p, page p = none := by
      intro p
      by_contra hp
      have hlow := (h.image.inMap p hp).1
      exact hp (h.sized.beyond p (by omega))
    have hsize : z.hdr.iSize = 0 := by rw [h.sized.iSize, Nat.zero_mul]
    refine ⟨himage, hfree, ⟨by simp only [hsize, Nat.zero_mul], h.sized.inMap, h.sized.beyond⟩,
      .inr hpg, ?_, h.size, ?_⟩
    · intro p c hc
      rw [hnone] at hc
      cases hc
    · rw [h.bytes]
      funext i
      rw [pageByte_none (hnone _), pageByte_none (hnone _)]
  · exact ⟨himage, hfree, ⟨h.sized.iSize, h.sized.inMap, h.sized.beyond⟩, .inr hpg, h.length,
      h.size, h.bytes⟩

end

/-- The number of pages that the last first page states. -/
def usrPage (z : ZipvfsFile) (k : Nat) (zBuf : List UInt8) : Nat :=
  if k = 0 then getBytes ((zBuf.drop 28).take 4) else z.nUsrPage

/-- What one page that is stored leaves as it is, and what the file holds then. -/
structure StoredPage (D : List UInt8 → List UInt8 → Prop)
    (Free : ZipvfsFile → Set (Nat × Nat) → Prop) (z z' : ZipvfsFile) (offs : List Nat)
    (page page' : Nat → Option (List UInt8)) (k : Nat) (zBuf : List UInt8) : Prop where
  wrote : Wrote D Free z z' offs page'
  new : ∀ j, j < zBuf.length → ((page' (k + 1)).getD []).getD j 0 = zBuf.getD j 0
  own : ∀ c, page' (k + 1) = some c → c.length = zBuf.length
  old : ∀ q, q ≠ k + 1 → page' q = page q

theorem pagesBetween_succ (k : Nat) : pagesBetween k (k + 1) = {k + 1} := by
  apply Set.ext
  intro q
  constructor
  · intro hq
    obtain ⟨h1, h2⟩ := hq
    exact Nat.le_antisymm h2 h1
  · intro hq
    obtain rfl : q = k + 1 := hq
    exact ⟨Nat.lt_succ_self k, Nat.le_refl _⟩

section

variable {σ : Type} {m : ZipvfsMethods σ} {Ok : σ → Prop} {D : List UInt8 → List UInt8 → Prop}
  {fl : FreeList} {Free : ZipvfsFile → Set (Nat × Nat) → Prop} (hfl : fl.Keeps Free) {s : σ}
  {z : ZipvfsFile} {offs : List Nat} {page : Nat → Option (List UInt8)} {k : Nat}
  {zBuf : List UInt8} (h : Image D z offs ∅ page) (hfree : Free z (freeSlots z.bytes offs ∅))
  (hp : z.InMap (k + 1)) (hstored : page (k + 1) ≠ none → k * z.hdr.pgsz % 2 ^ 32 < z.hdr.iSize)
  (hwrite : 1 < z.inWriteTrans) {nBuf : Nat}

include hfl h hfree hp hstored hwrite

/-- A page of zeros gives up its record. It is not the first one. -/
theorem storePage_zero (hk : k ≠ 0) (hzero : pageIsZeroed zBuf = true) :
    ∃ z', storePage fl m s nBuf z (k + 1) zBuf = .ok z' ∧
      StoredPage D Free z z' offs page (Function.update page (k + 1) none) k zBuf := by
  obtain ⟨z1, hrun, h1, hfree1, harea, hslots⟩ :=
    zipvfsFreeOldSlot_spec hfl hwrite h hfree hp hstored
  have hentry : zipvfsPgmapEntry (k + 1) = 200 + 8 * k := by
    rw [hp.entry_eq h.mapSize]
    omega
  have hmap := hp.2
  rw [← pagesBetween_succ] at h1 hfree1
  obtain ⟨z2, hstore, hwrote, _⟩ := clearEntries_spec hfl h1 hfree1 (by omega) (Nat.le_succ k)
    (by rw [harea.1]; omega)
    (show ∀ q, k < q → q ≤ k + 1 → Function.update page (k + 1) none q = none from fun q h1 h2 => by
      obtain rfl : q = k + 1 := by omega
      rw [Function.update_self])
    (fun q hq => Function.update_of_ne (fun heq => hq ⟨by omega, by omega⟩) _ _)
  refine ⟨z2, ?_, ⟨hwrote.image, hwrote.free, hslots.inner.trans hwrote.inner,
    hwrote.dataStart.trans harea.1, hwrote.gap.1.trans harea.2.2.1,
    hwrote.gap.2.trans harea.2.2.2⟩, ?_, ?_, ?_⟩
  · rw [show 8 * (k.succ - k) = 8 by omega] at hstore
    simp only [storePage, hzero, if_true, hrun, bind, Except.bind]
    rw [hentry]
    exact hstore
  · intro j hj
    rw [pageIsZeroed, List.all_eq_true] at hzero
    have hget : zBuf.getD j 0 = 0 := by
      rw [List.getD_eq_getElem?_getD, List.getElem?_eq_getElem hj, Option.getD_some]
      exact of_decide_eq_true (hzero _ (List.getElem_mem hj))
    rw [Function.update_self, hget]
    rfl
  · intro c hc
    rw [Function.update_self] at hc
    cases hc
  · intro q hq
    exact Function.update_of_ne hq _ _

/-- Any other page is compressed and gets a new record. -/
theorem storePage_record (hm : m.Lossless Ok D zBuf.length) (hs : Ok s)
    (hbuf : nBuf = m.xCompressBound s zBuf.length) (hzero : pageIsZeroed zBuf = false)
    (hroom : z.hdr.iDataEnd + 2 ^ 18 ≤ pagerReach) :
    ∃ z' offs', storePage fl m s nBuf z (k + 1) zBuf = .ok z' ∧
      StoredPage D Free { z with nUsrPage := usrPage z k zBuf } z' offs' page
        (Function.update page (k + 1) (some zBuf)) k zBuf := by
  obtain ⟨hpos, hmax, hD⟩ := hm.compress s zBuf hs rfl
  rw [← hbuf] at hpos hmax hD
  generalize hz1 : { z with nUsrPage := usrPage z k zBuf } = z1
  obtain ⟨h1, hfree1⟩ := h.sameData hfl z1 hfree (by rw [← hz1]; exact fun _ _ => rfl)
    (by rw [← hz1]; exact ⟨rfl, rfl, rfl, rfl⟩) (by rw [← hz1]; exact ⟨rfl, rfl, rfl⟩)
    (by rw [← hz1]; exact h.paged) (by rw [← hz1]; exact Grows.refl z)
  have hhdr : z1.hdr = z.hdr := by rw [← hz1]
  have hnew : newSlot (m.xCompress s nBuf zBuf).2 < 2 ^ 17 := by
    rw [newSlot, zipvfsMinPayload]
    rw [zipvfsMaxPayload] at hmax
    omega
  obtain ⟨z2, offs2, hrun, hwrote, _⟩ := zipvfsWritePage_spec hfl
    (by rw [← hz1]; exact hwrite) h1 hfree1 (p := k + 1) (by rw [InMap, hhdr]; exact hp)
    (by rw [hhdr]; exact hstored) hD hpos hmax (by rw [hhdr]; omega)
  refine ⟨z2, offs2, ?_, hwrote, ?_, ?_, ?_⟩
  · have hcase : (if k + 1 = 1 then { z with nUsrPage := getBytes ((zBuf.drop 28).take 4) }
        else z) = z1 := by
      rw [← hz1, usrPage]
      by_cases hk : k = 0
      · rw [if_pos (by omega), if_pos hk]
      · rw [if_neg (by omega), if_neg hk]
    simp only [storePage, hzero, Bool.false_eq_true, if_false, hcase, zipvfsCompress,
      if_neg (Nat.not_lt.mpr hmax), bind, Except.bind, pure, Except.pure]
    exact hrun
  · intro j _
    rw [Function.update_self, Option.getD_some]
  · intro c hc
    rw [Function.update_self] at hc
    cases hc
    rfl
  · intro q hq
    exact Function.update_of_ne hq _ _

theorem storePage_spec (hm : m.Lossless Ok D zBuf.length) (hs : Ok s)
    (hbuf : nBuf = m.xCompressBound s zBuf.length) (hsize : 512 ≤ zBuf.length)
    (hone : k = 0 → zBuf.length = headerPgsz zBuf) (hroom : z.hdr.iDataEnd + 2 ^ 18 ≤ pagerReach) :
    ∃ z' offs' page', storePage fl m s nBuf z (k + 1) zBuf = .ok z' ∧
      StoredPage D Free { z with nUsrPage := usrPage z k zBuf } z' offs' page page' k zBuf := by
  cases hzero : pageIsZeroed zBuf with
  | false =>
    obtain ⟨z1, offs1, hrun, hpage⟩ :=
      storePage_record hfl h hfree hp hstored hwrite hm hs hbuf hzero hroom
    exact ⟨z1, offs1, _, hrun, hpage⟩
  | true =>
    have hk : k ≠ 0 := by
      intro h0
      rw [pageIsZeroed_header hsize (hone h0)] at hzero
      cases hzero
    obtain ⟨z1, hrun, hpage⟩ :=
      storePage_zero hfl h hfree hp hstored hwrite (m := m) (s := s) hk hzero
    refine ⟨z1, offs, Function.update page (k + 1) none, hrun, ?_⟩
    rw [usrPage, if_neg hk]
    exact hpage

end

/-- What a write leaves as it is, and what it sets. -/
structure AfterWrite (zHdr : List UInt8) (z z' : ZipvfsFile) (k : Nat) (zBuf : List UInt8) :
    Prop where
  nPgsz : z'.nPgsz = z.nPgsz
  inWriteTrans : z'.inWriteTrans = z.inWriteTrans
  nMaxFree : z'.nMaxFree = z.nMaxFree
  iVersion : z'.hdr.iVersion = z.hdr.iVersion
  pgsz : z'.hdr.pgsz = zBuf.length
  size : z.file.size ≤ z'.file.size
  nUsrPage : z'.nUsrPage = usrPage z k zBuf
  head : ∀ i, i < 200 → z'.bytes i =
    if k = 0 then z.bytes.put 0 (page1Bytes zHdr zBuf) i else z.bytes i

section

variable {σ : Type} {m : ZipvfsMethods σ} {Ok : σ → Prop} {D : List UInt8 → List UInt8 → Prop}
  {fl : FreeList} {Free : ZipvfsFile → Set (Nat × Nat) → Prop} (hfl : fl.Keeps Free) {s : σ}
  {z : ZipvfsFile} {offs : List Nat} {n : Nat} {page : Nat → Option (List UInt8)} {f : PlainFile}

include hfl

/-- The copy of the user's header. -/
theorem storeFirst_spec (h : Image D z offs ∅ page) (hfree : Free z (freeSlots z.bytes offs ∅))
    (k : Nat) (zHdr : List UInt8) {zBuf : List UInt8} (hsize : 512 ≤ zBuf.length) :
    ∃ z', (if k + 1 = 1 then z.zipvfsStoreData 0 (page1Bytes zHdr zBuf) else pure z) = .ok z' ∧
      Image D z' offs ∅ page ∧ Free z' (freeSlots z'.bytes offs ∅) ∧
      { z' with file := z.file } = z ∧ z.file.size ≤ z'.file.size ∧
      z'.bytes = if k = 0 then z.bytes.put 0 (page1Bytes zHdr zBuf) else z.bytes := by
  have hlen := length_page1Bytes zHdr hsize
  by_cases hk : k = 0
  · obtain ⟨z1, hrun, hstored⟩ := h.paged.zipvfsStoreData_spec 0 (page1Bytes zHdr zBuf)
      (by rw [hlen]; decide)
    obtain ⟨h1, hfree1⟩ := h.storeHead hfl hfree (by omega) hstored
    rw [if_pos (by omega), if_pos hk]
    exact ⟨z1, hrun, h1, hfree1, hstored.rest, hstored.size, hstored.bytes⟩
  · rw [if_neg (by omega), if_neg hk]
    exact ⟨z, rfl, h, hfree, rfl, Nat.le_refl _, rfl⟩

/-- A write of a page is a write of the plain file. -/
theorem zipvfsWrite_spec (hm : ∀ k, PageSize k → m.Lossless Ok D k) (hs : Ok s)
    (h : Holds D Free z offs n page f) (htrans : z.inWriteTrans = 2) {zBuf : List UInt8} {k : Nat}
    (hbuf : BufferFits m s z zBuf.length) (hsize : PageSize zBuf.length)
    (hsame : n = 0 ∨ z.hdr.pgsz = zBuf.length) (hone : k = 0 → zBuf.length = headerPgsz zBuf)
    (hmap : 200 + 8 * (k + 1) + 2 ^ 18 ≤ 2 ^ 31)
    (hroom : z.hdr.iDataEnd + 2 ^ 33 + 2 ^ 18 ≤ pagerReach) :
    ∃ z' offs' page', zipvfsWrite fl m s z zBuf (k * zBuf.length) = .ok z' ∧
      Holds D Free z' offs' (max n (k + 1)) page' (f.write (k * zBuf.length) zBuf) ∧
      AfterWrite (m.zHdr s) z z' k zBuf := by
  obtain ⟨hlow, hhigh⟩ := hsize.bounds
  have hlossless := hm _ hsize
  have h0 := h.setPgsz hfl hsize hsame (some (m.xCompressBound s zBuf.length))
  obtain ⟨z1, hrun1, hexp, hstart1⟩ := expandPgmap_spec hfl h0.image h0.free
    (by change 1 < z.inWriteTrans; omega)
    (fun q blob c hq hD => hlossless.bound s blob c hs (h0.length q c hq) hD) (k + 1)
    (fun q hq => h0.stored hq) hmap (by change z.hdr.iDataEnd + _ ≤ _; omega)
  have hgrows := hexp.grows
  have hmapSize := h.image.mapSize
  obtain ⟨offs1, h1, hfree1⟩ := hexp.holds
  obtain ⟨z2, hrun2, h2, hfree2, hrest2, hsize2, hbytes2⟩ :=
    storeFirst_spec hfl h1 hfree1 k (m.zHdr s) hlow
  have hhdr2 : z2.hdr = z1.hdr := (congrArg ZipvfsFile.hdr hrest2 :)
  have hin2 : z2.InMap (k + 1) := ⟨Nat.le_add_left 1 k, by rw [hhdr2]; exact hstart1⟩
  have hpgsz1 : z1.hdr.pgsz = zBuf.length := hexp.inner.pgsz
  have hiSize1 : z1.hdr.iSize = z.hdr.iSize := hexp.inner.iSize
  have htrans1 : z1.inWriteTrans = z.inWriteTrans := hexp.inner.inWriteTrans
  have htrans2 : z2.inWriteTrans = z1.inWriteTrans := (congrArg ZipvfsFile.inWriteTrans hrest2 :)
  obtain ⟨z3, offs3, page3, hrun3, hpage⟩ := storePage_spec hfl h2 hfree2 hin2
    (fun hq => by
      rw [hhdr2, hpgsz1, hiSize1]
      exact h0.stored hq) (by omega) hlossless hs rfl hlow hone (by
      rw [hhdr2]
      have hle : z1.hdr.iDataEnd + z.hdr.iDataStart ≤ z.hdr.iDataEnd + z1.hdr.iDataStart := hgrows
      have hmap1 := h1.mapSize
      omega)
  have hinner3 := hpage.wrote.inner
  have hpgsz3 : z3.hdr.pgsz = zBuf.length := by rw [hinner3.pgsz, hhdr2, hpgsz1]
  have hiSize3 : z3.hdr.iSize = z.hdr.iSize := by rw [hinner3.iSize, hhdr2, hiSize1]
  have hstart3 : 200 + 8 * (k + 1) ≤ z3.hdr.iDataStart := by
    rw [hpage.wrote.dataStart, hhdr2]
    exact hstart1
  have hgrow3 : z.hdr.iDataStart ≤ z3.hdr.iDataStart := by
    rw [hpage.wrote.dataStart, hhdr2]
    exact hexp.start
  have hmax : max z3.hdr.iSize (k * zBuf.length + zBuf.length) =
      max n (k + 1) * zBuf.length := by
    have hsize0 : z.hdr.iSize = n * zBuf.length := h0.sized.iSize
    rw [hiSize3, hsize0, ← Nat.succ_mul, Nat.mul_max_mul_right]
  generalize hz4 : { z3 with hdr.iSize := max z3.hdr.iSize (k * zBuf.length + zBuf.length) } = z4
  obtain ⟨h4, hfree4⟩ := hpage.wrote.image.sameData hfl z4 hpage.wrote.free
    (by rw [← hz4]; exact fun _ _ => rfl) (by rw [← hz4]; exact ⟨rfl, rfl, rfl, rfl⟩)
    (by rw [← hz4]; exact ⟨rfl, rfl, rfl⟩) (by rw [← hz4]; exact hpage.wrote.image.paged)
    (by rw [← hz4]; exact Grows.refl z3)
  refine ⟨z4, offs3, page3, ?_, ⟨h4, hfree4, ⟨?_, ?_, ?_⟩, ?_, ?_, ?_, ?_⟩, ?_⟩
  · have hpos : 0 < zBuf.length := by omega
    have hfield : ¬ (k * zBuf.length = 0 ∧ zBuf.length ≠ headerPgsz zBuf) := by
      intro hc
      rcases Nat.mul_eq_zero.mp hc.1 with hk | hz
      · exact hc.2 (hone hk)
      · omega
    rw [headerPgsz] at hfield
    have hbuffer : BufferFits m s { z with hdr.pgsz := zBuf.length } zBuf.length := hbuf
    simp only [zipvfsWrite, if_neg (not_not.mpr htrans), if_neg hfield, Nat.mul_div_cancel k hpos,
      Nat.mod_eq_of_lt (show k + 1 < 2 ^ 32 by omega), hbuffer.buffer_eq, hrun1, bind, Except.bind]
    rw [← hz4]
    by_cases hk : k + 1 = 1
    · rw [if_pos hk] at hrun2
      simp only [if_pos hk, hrun2, hrun3]
      rfl
    · rw [if_neg hk] at hrun2
      simp only [if_neg hk, hrun2, hrun3]
      rfl
  · rw [← hz4, hmax, ← hpgsz3]
  · rw [← hz4]
    have hmap0 := h.sized.inMap
    rcases Nat.le_total n (k + 1) with hle | hle
    · rw [Nat.max_eq_right hle]
      exact hstart3
    · rw [Nat.max_eq_left hle]
      exact Nat.le_trans hmap0 hgrow3
  · intro p hp
    have h1 := Nat.le_max_left n (k + 1)
    have h2 := Nat.le_max_right n (k + 1)
    rw [hpage.old p (by omega)]
    exact h.sized.beyond p (by omega)
  · rw [← hz4]
    exact .inr (by rw [hpgsz3]; exact hsize)
  · intro p c hc
    rw [← hz4, hpgsz3]
    by_cases hp : p = k + 1
    · rw [hp] at hc
      exact hpage.own c hc
    · rw [hpage.old p hp] at hc
      exact h0.length p c hc
  · rw [← hz4, hiSize3, ← h.size]
    rfl
  · rw [← hz4, hpgsz3]
    change f.bytes.put _ _ = _
    rw [h0.bytes]
    exact (pageByte_put (by omega) rfl hpage.new hpage.old).symm
  · have hn2 : z2.nPgsz = z1.nPgsz := (congrArg ZipvfsFile.nPgsz hrest2 :)
    have hu2 : z2.nUsrPage = z1.nUsrPage := (congrArg ZipvfsFile.nUsrPage hrest2 :)
    have hm2 : z2.nMaxFree = z1.nMaxFree := (congrArg ZipvfsFile.nMaxFree hrest2 :)
    rw [← hz4]
    refine ⟨?_, ?_, ?_, ?_, hpgsz3, ?_, ?_, ?_⟩
    · exact (hinner3.nPgsz.trans hn2).trans hexp.inner.nPgsz
    · exact (hinner3.inWriteTrans.trans htrans2).trans hexp.inner.inWriteTrans
    · exact (hinner3.nMaxFree.trans hm2).trans hexp.inner.nMaxFree
    · exact (hinner3.iVersion.trans (congrArg ZipvfsHdr.iVersion hhdr2)).trans
        hexp.inner.iVersion
    · exact (Nat.le_trans hexp.inner.size hsize2).trans hinner3.size
    · refine hinner3.nUsrPage.trans ?_
      change usrPage z2 k zBuf = usrPage z k zBuf
      rw [usrPage, usrPage, hu2, hexp.inner.nUsrPage]
    · intro i hi
      refine (hinner3.head i hi).trans ?_
      change z2.bytes i = _
      rw [hbytes2]
      split
      · rw [Cells.put, Cells.put, hexp.inner.head i hi]
        rfl
      · exact hexp.inner.head i hi

/-- The pages behind the first `k` are cut off the plain file. -/
theorem Holds.truncateUserdb (h : Holds D Free z offs n page f) (hwrite : 1 < z.inWriteTrans)
    {k : Nat} (hone : 1 ≤ k) (hk : k ≤ n) :
    ∃ z', zipvfsTruncateUserdb fl z k = .ok z' ∧
      Holds D Free z' offs k (keepPages k page) (f.truncate (k * z.hdr.pgsz)) ∧
      Inner { z with hdr.iSize := k * z.hdr.pgsz } z' := by
  have hpg : PageSize z.hdr.pgsz := h.pgsz.resolve_left (by omega)
  obtain ⟨hlow, _⟩ := hpg.bounds
  obtain ⟨z1, hrun, hwrote, _⟩ := zipvfsTruncateUserdb_spec hfl hwrite h.image h.free h.sized
    (by omega) hone hk
  have hinner := hwrote.inner
  obtain ⟨h2, hfree2⟩ := hwrote.image.sameData hfl
    { z1 with hdr.iSize := k * z.hdr.pgsz } hwrote.free (fun _ _ => rfl)
    ⟨rfl, rfl, rfl, rfl⟩ ⟨rfl, rfl, rfl⟩ hwrote.image.paged (Grows.refl z1)
  have hmap := h.sized.inMap
  refine ⟨_, hrun, ⟨h2, hfree2, ⟨?_, ?_, ?_⟩, .inr (by rw [hinner.pgsz]; exact hpg), ?_, rfl, ?_⟩,
    hinner.nPgsz, hinner.inWriteTrans, hinner.nUsrPage, hinner.nMaxFree,
    hinner.nCompressionBuffer, rfl, hinner.pgsz, hinner.iVersion, hinner.size, hinner.head⟩
  · rw [hinner.pgsz]
  · change 200 + 8 * k ≤ z1.hdr.iDataStart
    rw [hwrote.dataStart]
    omega
  · intro p hp
    rw [keepPages, if_pos hp]
  · intro p c hc
    rw [keepPages] at hc
    split at hc
    · cases hc
    · rw [hinner.pgsz]
      exact h.length p c hc
  · funext i
    change (if i < k * z.hdr.pgsz then f.bytes i else 0) = pageByte z1.hdr.pgsz _ i
    rw [hinner.pgsz, pageByte_keepPages (by omega), h.bytes]

/-- A truncation at the end of a page is one of the plain file. -/
theorem zipvfsTruncate_spec (h : Holds D Free z offs n page f) (htrans : z.inWriteTrans = 2)
    {k : Nat} (hone : 1 ≤ k) (hk : k ≤ n) :
    ∃ z', zipvfsTruncate fl z (k * z.hdr.pgsz) = .ok z' ∧
      Holds D Free z' offs k (keepPages k page) (f.truncate (k * z.hdr.pgsz)) ∧
      Inner { z with hdr.iSize := k * z.hdr.pgsz, nUsrPage := 0 } z' := by
  have hpg : PageSize z.hdr.pgsz := h.pgsz.resolve_left (by omega)
  obtain ⟨hlow, _⟩ := hpg.bounds
  obtain ⟨z1, hrun, h1, hinner⟩ := h.truncateUserdb hfl (by omega) hone hk
  refine ⟨{ z1 with nUsrPage := 0 }, ?_, h1.sameData hfl (fun _ _ => rfl) ⟨rfl, rfl, rfl, rfl⟩
    ⟨rfl, rfl, rfl⟩ h1.image.paged (Grows.refl z1) rfl rfl, hinner.nPgsz, hinner.inWriteTrans, rfl,
    hinner.nMaxFree, hinner.nCompressionBuffer, hinner.iSize, hinner.pgsz, hinner.iVersion,
    hinner.size, hinner.head⟩
  simp only [zipvfsTruncate, if_neg (not_not.mpr htrans), Nat.mul_mod_left, ne_eq,
    not_true_eq_false, if_false, Nat.mul_div_cancel k (show 0 < z.hdr.pgsz by omega), hrun, bind,
    Except.bind]
  rfl

end

end NdsDevkit.Zipvfs
