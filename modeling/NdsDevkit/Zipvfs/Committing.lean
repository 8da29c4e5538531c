import NdsDevkit.Zipvfs.Header
import NdsDevkit.Zipvfs.Storage

namespace NdsDevkit.Zipvfs

open Framework ZipvfsFile

section

variable {ρ κ σ : Type} (P : Pager ρ κ) (fl : FreeList)

/-- Takes the shared lock and reads the header, which may be the first look at the file. The
connection has the context of its callbacks then. -/
def zipvfsLockFile (xGetMethods : Option (List UInt8) → Except ErrorCode (Option σ)) (storage : ρ)
    (methods : Option σ) (nPgsz nMaxFree : Nat) (nCompressionBuffer : Option Nat) :
    Except ErrorCode (ρ × σ × ZipvfsFile) := do
  let storage := P.sqlite3PagerSharedLock storage
  let fd := P.fd storage
  match ← zipvfsReadHeader xGetMethods methods fd with
  | none => throw .notCompressed
  | some (s, hdr) => return (storage, s, ⟨fd, fd, hdr, nPgsz, 0, 0, nMaxFree, nCompressionBuffer⟩)

/-- Cuts the user's database off at the size that its own header states. -/
def truncateToStated (z : ZipvfsFile) : Except ErrorCode ZipvfsFile :=
  if z.nUsrPage ≠ 0 then do
    let z ← zipvfsTruncateUserdb fl z z.nUsrPage
    return { z with nUsrPage := 0 }
  else return z

/-- The first phase of a commit: the user's database gets its size, and the header of the file is
written, and then the pages. -/
def zipvfsCommitTransactionOne (storage : ρ) (z : ZipvfsFile) (zMaster : Bool) :
    Except ErrorCode (ρ × ZipvfsFile) := do
  let z ← truncateToStated fl z
  let z := zipvfsWriteHeader z
  let (storage, file) := P.sqlite3PagerCommitPhaseOne storage z.file zMaster
  return (storage, { z with file })

def zipvfsCommitTransactionTwo (storage : ρ) (z : ZipvfsFile) : ρ × ZipvfsFile :=
  (P.sqlite3PagerCommitPhaseTwo storage, { z with inWriteTrans := 0 })

def zipvfsCommitTransaction (storage : ρ) (z : ZipvfsFile) : Except ErrorCode (ρ × ZipvfsFile) := do
  let (storage, z) ← zipvfsCommitTransactionOne P fl storage z false
  return zipvfsCommitTransactionTwo P storage z

end

/-- The file stores the user's database `f`, in the format that new files have. Its name is that of
the callbacks, or is not there yet. -/
structure Ready (D : List UInt8 → List UInt8 → Prop) (Free : ZipvfsFile → Set (Nat × Nat) → Prop)
    (zName : List UInt8) (z : ZipvfsFile) (f : PlainFile) : Prop where
  holds : ∃ offs n page, Holds D Free z offs n page f
  version : z.hdr.iVersion = 1
  pgsz : z.hdr.pgsz ≤ 65536
  name : z.bytes.get 0 16 = List.replicate 16 0 ∨ z.bytes.get 0 16 = formatName zName

/-- The header of a file, but for the fragment count, which wraps at 64 bits there. -/
def HeaderOf (file : PlainFile) (hdr : ZipvfsHdr) : Prop :=
  ∃ nFreeFragment, loadHdr file = .ok { hdr with nFreeFragment }

instance (file : PlainFile) (hdr : ZipvfsHdr) : Decidable (HeaderOf file hdr) :=
  match h : loadHdr file with
  | .error _ => isFalse fun ⟨_, hx⟩ => nomatch h.symm.trans hx
  | .ok hdr' => decidable_of_iff (hdr' = { hdr with nFreeFragment := hdr'.nFreeFragment })
    ⟨fun heq => ⟨_, h.trans (congrArg _ heq)⟩, fun ⟨_, hx⟩ => by cases h.symm.trans hx; rfl⟩

/-- Two headers of one file. -/
theorem HeaderOf.unique {file : PlainFile} {hdr hdr' : ZipvfsHdr} (h : HeaderOf file hdr)
    (h' : HeaderOf file hdr') : hdr' = { hdr with nFreeFragment := hdr'.nFreeFragment } := by
  obtain ⟨x, hx⟩ := h
  obtain ⟨y, hy⟩ := h'
  rw [hx] at hy
  have heq := Except.ok.inj hy
  exact congrArg (fun hdr => { hdr with nFreeFragment := hdr'.nFreeFragment }) heq.symm

theorem HeaderOf.congr {file file' : PlainFile} {hdr : ZipvfsHdr} (h : HeaderOf file hdr)
    (hbytes : ∀ i, 100 ≤ i → i < 180 → file'.bytes i = file.bytes i) : HeaderOf file' hdr := by
  obtain ⟨x, hx⟩ := h
  have hread : file'.read zipvfsFileheaderReserved 80 = file.read zipvfsFileheaderReserved 80 :=
    Cells.get_congr hbytes
  refine ⟨x, ?_⟩
  rw [loadHdr, hread, ← hx, loadHdr]

/-- A connection that has the file and its header as they are on disk. -/
structure Snapshot (disk : PlainFile) (z : ZipvfsFile) : Prop where
  file : z.file = disk
  header : HeaderOf disk z.hdr
  nUsrPage : z.nUsrPage = 0
  paged : z.Paged

/-- Every connection that reads the file finds the user's database `f`. -/
structure OnDisk (D : List UInt8 → List UInt8 → Prop) (Free : ZipvfsFile → Set (Nat × Nat) → Prop)
    (zName : List UInt8) (disk : PlainFile) (f : PlainFile) : Prop where
  header : ∃ hdr, loadHdr disk = .ok hdr
  ready : ∀ z, Snapshot disk z → Ready D Free zName z f

/-- The callbacks are found for a new file, and for one with the name of theirs. -/
def Finds {σ : Type} (Ok : σ → Prop) (zName : List UInt8)
    (xGetMethods : Option (List UInt8) → Except ErrorCode (Option σ)) : Prop :=
  ∀ zHdr, zHdr = none ∨ zHdr = some ((formatName zName).drop 3) →
    ∃ s, xGetMethods zHdr = .ok (some s) ∧ Ok s

/-- Up to the pending byte the contiguous space is the file. -/
theorem bytes_low (z : ZipvfsFile) {i : Nat} (hi : i < 200) : z.bytes i = z.file.bytes i := by
  rw [ZipvfsFile.bytes, place, if_pos (by rw [pendingByte]; omega)]

theorem le_place (z : ZipvfsFile) (i : Nat) : i ≤ z.place i := by
  rw [place]
  split <;> omega

/-- In this format the page size of the pager does not matter for where a byte lies. -/
theorem place_version {z z' : ZipvfsFile} (h : z.hdr.iVersion = 1) (h' : z'.hdr.iVersion = 1) :
    z'.place = z.place := by
  funext i
  rw [place, place, lockingGap, lockingGap, h, h']
  rfl

theorem formatName_eq (zHdr : List UInt8) :
    formatName zHdr = 0x5A :: 0x56 :: 0x2D :: (zHdr ++ List.replicate 16 0).take 13 := rfl

section

variable {D : List UInt8 → List UInt8 → Prop} {fl : FreeList}
  {Free : ZipvfsFile → Set (Nat × Nat) → Prop} (hfl : fl.Keeps Free) {zName : List UInt8}
  {z : ZipvfsFile} {offs : List Nat} {n : Nat} {page : Nat → Option (List UInt8)} {f : PlainFile}

include hfl

/-- The fields of the header have room in the file. -/
theorem Holds.fits (h : Holds D Free z offs n page f) (hversion : z.hdr.iVersion ≤ 2)
    (hpgsz : z.hdr.pgsz ≤ 65536) : z.hdr.Fits := by
  obtain ⟨hfree, hslot, hbyte⟩ := hfl.small z _ h.free
  have hmap := h.image.mapSize
  have hend := h.image.dataEnd
  rw [pagerReach] at hend
  have hpages := h.sized.inMap
  have hsize : z.hdr.iSize ≤ 2 ^ 32 * 65536 := by
    rw [h.sized.iSize]
    exact Nat.mul_le_mul (by omega) hpgsz
  obtain ⟨gs, ge, front, back, _, hsplit, hgap⟩ := h.image.layout
  have hgs := hsplit.gap
  have hge := hsplit.back.le
  have hlow : z.hdr.iGapStart ≤ z.hdr.iDataEnd ∧ z.hdr.iGapEnd ≤ z.hdr.iDataEnd := by
    rcases hgap with ⟨h1, h2, _⟩ | ⟨h1, h2⟩
    · omega
    · omega
  exact ⟨hfree, by omega, by omega, by omega, by omega, by omega, hslot, hbyte, by omega, by omega⟩

/-- The name and the data are what the user's database depends on, with the header but for its
fragment count. -/
theorem Ready.sameData (h : Ready D Free zName z f) {z' : ZipvfsFile} (hpaged : z'.Paged)
    (hhdr : z'.hdr = { z.hdr with nFreeFragment := z'.hdr.nFreeFragment })
    (hbytes : ∀ i, i < 16 ∨ 200 ≤ i → z'.bytes i = z.bytes i) (hgrows : z.Grows z') :
    Ready D Free zName z' f := by
  obtain ⟨⟨offs, n, page, hh⟩, hversion, hpgsz, hname⟩ := h
  have hhead : z'.bytes.get 0 16 = z.bytes.get 0 16 :=
    Cells.get_congr fun i _ hi => hbytes i (.inl (by omega))
  refine ⟨⟨offs, n, page, ?_⟩, by rw [hhdr]; exact hversion, by rw [hhdr]; exact hpgsz, ?_⟩
  · exact hh.sameData hfl (fun i hi => hbytes i (.inr hi))
      (by rw [hhdr]; exact ⟨rfl, rfl, rfl, rfl⟩) (by rw [hhdr]; exact ⟨rfl, rfl, rfl⟩) hpaged
      hgrows (by rw [hhdr]) (by rw [hhdr])
  · rw [hhead]
    exact hname

/-- The state of the connection does not matter. -/
theorem Ready.sameFile (h : Ready D Free zName z f) {z' : ZipvfsFile} (hfile : z'.file = z.file)
    (hhdr : z'.hdr = z.hdr) (hn : z'.nPgsz = z.nPgsz) : Ready D Free zName z' f := by
  obtain ⟨offs, n, page, hh⟩ := h.holds
  have hplace := place_congr hn (congrArg ZipvfsHdr.iVersion hhdr)
  refine h.sameData hfl ?_ ?_ ?_ ?_
  · rw [Paged, hn]
    exact hh.image.paged
  · rw [hhdr]
  · intro i _
    rw [ZipvfsFile.bytes, ZipvfsFile.bytes, hplace, hfile]
  · intro i hi
    rw [hplace, hfile]
    exact hi

/-- The header that was written is the one that is read. -/
theorem zipvfsWriteHeader_spec (h : Ready D Free zName z f) :
    Ready D Free zName (zipvfsWriteHeader z) f ∧ HeaderOf (zipvfsWriteHeader z).file z.hdr := by
  have hversion := h.version
  have hpgsz := h.pgsz
  obtain ⟨offs, n, page, hh⟩ := h.holds
  have hstored := hh.image.paged.zipvfsWriteHeader_stored
  have hstart := hh.image.dataStart
  have hle := hh.image.layout.le
  constructor
  · refine h.sameData hfl (hstored.paged hh.image.paged) rfl ?_ hstored.grows
    intro i hi
    rw [hstored.bytes]
    apply Cells.put_of_not_mem
    rw [length_fields, zipvfsFileheaderReserved]
    omega
  · have hload := loadHdr_fields (hh.fits hfl (by omega) hpgsz) (writeHeader_read z) (by omega) (by
      intro hsize
      apply hh.pgsz.resolve_left
      intro h0
      rw [hh.sized.iSize, h0, Nat.zero_mul] at hsize
      omega) (by omega)
    rw [ZipvfsHdr.upgraded, if_neg (by simp only [hversion]; omega)] at hload
    exact ⟨_, hload⟩

/-- The counters in the first page do not matter. -/
theorem Ready.stamped (h : Ready D Free zName z f) {g : PlainFile} (hg : Stamped z.file g) :
    Ready D Free zName { z with file := g } f := by
  obtain ⟨offs, n, page, hh⟩ := h.holds
  refine h.sameData hfl (show ({ z with file := g } : ZipvfsFile).Paged from hh.image.paged) rfl
    ?_ ?_
  · intro i hi
    have hle := le_place z i
    rcases hi with hlow | hhigh
    · rw [bytes_low _ (by omega), bytes_low _ (by omega)]
      exact hg.bytes i (by omega)
    · exact hg.bytes (z.place i) (by omega)
  · intro i hi
    change z.place i < g.size
    rw [hg.size]
    exact hi

omit hfl in
/-- A change behind the header keeps the format and the name. -/
theorem Ready.truncated (h : Ready D Free zName z f) {z' : ZipvfsFile} {f' : PlainFile}
    (hh : Holds D Free z' offs n page f') {iSize nUsrPage : Nat}
    (hinner : Inner { z with hdr.iSize := iSize, nUsrPage } z') : Ready D Free zName z' f' := by
  have hhead : z'.bytes.get 0 16 = z.bytes.get 0 16 :=
    Cells.get_congr fun i _ hi => hinner.head i (by omega)
  refine ⟨⟨offs, n, page, hh⟩, ?_, ?_, ?_⟩
  · rw [hinner.iVersion]
    exact h.version
  · rw [hinner.pgsz]
    exact h.pgsz
  · rw [hhead]
    exact h.name

theorem truncateToStated_spec (h : Ready D Free zName z f) (hwrite : 1 < z.inWriteTrans)
    (husr : z.nUsrPage ≤ z.hdr.iSize / z.hdr.pgsz) :
    ∃ z', truncateToStated fl z = .ok z' ∧
      Ready D Free zName z' (if z.nUsrPage = 0 then f else f.truncate (z.nUsrPage * z.hdr.pgsz)) ∧
      z'.nUsrPage = 0 ∧ z.file.size ≤ z'.file.size := by
  rw [truncateToStated]
  by_cases h0 : z.nUsrPage = 0
  · rw [if_neg (not_not.mpr h0), if_pos h0]
    exact ⟨z, rfl, h, h0, Nat.le_refl _⟩
  · obtain ⟨offs, n, page, hh⟩ := h.holds
    have hn : n ≠ 0 := by
      intro hn
      rw [hh.sized.iSize, hn, Nat.zero_mul, Nat.zero_div] at husr
      omega
    have hpg := (hh.pgsz.resolve_left hn).bounds
    rw [hh.sized.iSize, Nat.mul_div_cancel n (by omega)] at husr
    obtain ⟨z1, hrun, h1, hinner⟩ := hh.truncateUserdb hfl hwrite (by omega) husr
    rw [if_pos h0, if_neg h0]
    refine ⟨{ z1 with nUsrPage := 0 }, ?_, (h.truncated h1 hinner).sameFile hfl rfl rfl rfl, rfl,
      hinner.size⟩
    simp only [hrun, bind, Except.bind]
    rfl

/-- After the first phase of a commit the file is ready for every connection. -/
theorem zipvfsCommitTransactionOne_spec {ρ κ : Type} {P : Pager ρ κ} {State : ρ → Durable → Prop}
    (hP : P.Atomic State) (h : Ready D Free zName z f) (hwrite : 1 < z.inWriteTrans)
    (husr : z.nUsrPage ≤ z.hdr.iSize / z.hdr.pgsz) {storage : ρ} {f₀ : PlainFile}
    (zMaster : Bool) (hstorage : State storage (.dirty f₀))
    (hsize : zMaster = true → f₀.size ≤ z.file.size) :
    ∃ storage' z', zipvfsCommitTransactionOne P fl storage z zMaster = .ok (storage', z') ∧
      State storage' (.synced zMaster f₀ z'.file) ∧
      Ready D Free zName z' (if z.nUsrPage = 0 then f else f.truncate (z.nUsrPage * z.hdr.pgsz)) ∧
      HeaderOf z'.file z'.hdr ∧ z'.nUsrPage = 0 := by
  obtain ⟨z1, hrun, hready1, husr1, hsize1⟩ := truncateToStated_spec hfl h hwrite husr
  obtain ⟨hready2, hheader⟩ := zipvfsWriteHeader_spec hfl hready1
  obtain ⟨_, _, _, hh⟩ := hready1.holds
  have hsize2 := hh.image.paged.zipvfsWriteHeader_stored.size
  obtain ⟨hsynced, hstamped⟩ :=
    hP.phaseOne storage f₀ (zipvfsWriteHeader z1).file zMaster hstorage fun hmaster =>
      (hsize hmaster).trans (hsize1.trans hsize2)
  refine ⟨_, _, ?_, hsynced, hready2.stamped hfl hstamped, ?_, husr1⟩
  · simp only [zipvfsCommitTransactionOne, hrun, bind, Except.bind]
    rfl
  · exact hheader.congr fun i h1 _ => hstamped.bytes i (.inr (.inr h1))

/-- A transaction that is committed at once. -/
theorem zipvfsCommitTransaction_spec {ρ κ : Type} {P : Pager ρ κ} {State : ρ → Durable → Prop}
    (hP : P.Atomic State) (h : Ready D Free zName z f) (hwrite : 1 < z.inWriteTrans)
    (husr : z.nUsrPage ≤ z.hdr.iSize / z.hdr.pgsz) {storage : ρ} {f₀ : PlainFile}
    (hstorage : State storage (.dirty f₀)) :
    ∃ storage' z', zipvfsCommitTransaction P fl storage z = .ok (storage', z') ∧
      State storage' (.idle z'.file) ∧
      Ready D Free zName z' (if z.nUsrPage = 0 then f else f.truncate (z.nUsrPage * z.hdr.pgsz)) ∧
      HeaderOf z'.file z'.hdr ∧ z'.nUsrPage = 0 ∧ z'.inWriteTrans = 0 := by
  obtain ⟨r1, z1, hrun, hsynced, hready, hheader, husr1⟩ := zipvfsCommitTransactionOne_spec hfl hP h
    hwrite husr false hstorage nofun
  refine ⟨P.sqlite3PagerCommitPhaseTwo r1, { z1 with inWriteTrans := 0 }, ?_,
    hP.phaseTwo _ _ _ _ hsynced, hready.sameFile hfl rfl rfl rfl, hheader, husr1, rfl⟩
  simp only [zipvfsCommitTransaction, hrun, bind, Except.bind]
  rfl

/-- Every connection finds what was written before the header. -/
theorem Ready.onDisk (h : Ready D Free zName z f) (hheader : HeaderOf z.file z.hdr) :
    OnDisk D Free zName z.file f := by
  obtain ⟨x, hx⟩ := hheader
  refine ⟨⟨_, hx⟩, ?_⟩
  intro w hw
  have hhdr := HeaderOf.unique ⟨x, hx⟩ hw.header
  have hversion : w.hdr.iVersion = 1 := by
    rw [hhdr]
    exact h.version
  have hplace := place_version h.version hversion
  apply h.sameData hfl hw.paged hhdr
  · intro i _
    rw [ZipvfsFile.bytes, ZipvfsFile.bytes, hplace, hw.file]
  · intro i hi
    rw [hplace, hw.file]
    exact hi

/-- Zeros behind the end of the file do not matter. -/
theorem OnDisk.extends {disk disk' : PlainFile} (h : OnDisk D Free zName disk f)
    (hext : disk.Extends disk') : OnDisk D Free zName disk' f := by
  obtain ⟨hdr, hload⟩ := h.header
  have hheader : ∀ hdr, HeaderOf disk' hdr → HeaderOf disk hdr :=
    fun hdr hh => hh.congr fun i _ _ => by rw [hext.bytes]
  refine ⟨?_, ?_⟩
  · have hsame : HeaderOf disk' hdr := HeaderOf.congr ⟨_, hload⟩ fun i _ _ => by rw [hext.bytes]
    exact ⟨_, hsame.choose_spec⟩
  · intro z hz
    have hold : Ready D Free zName { z with file := disk } f :=
      h.ready _ ⟨rfl, hheader _ hz.header, hz.nUsrPage, hz.paged⟩
    apply hold.sameData hfl hz.paged rfl
    · intro i _
      rw [ZipvfsFile.bytes, ZipvfsFile.bytes, hz.file, hext.bytes]
      rfl
    · intro i hi
      rw [hz.file]
      exact Nat.lt_of_lt_of_le hi hext.size

omit hfl in
theorem OnDisk.findMethods_eq {σ : Type} {Ok : σ → Prop} {disk : PlainFile}
    (h : OnDisk D Free zName disk f)
    {xGetMethods : Option (List UInt8) → Except ErrorCode (Option σ)}
    (hget : Finds Ok zName xGetMethods) {methods : Option σ}
    (hctx : ∀ s, methods = some s → Ok s) :
    ∃ s, findMethods xGetMethods methods disk = .ok (some s) ∧ Ok s := by
  cases methods with
  | some s => exact ⟨s, rfl, hctx s rfl⟩
  | none =>
    obtain ⟨hdr, hload⟩ := h.header
    have hready := h.ready ⟨disk, disk, hdr, 512, 0, 0, 0, none⟩
      ⟨rfl, ⟨_, hload⟩, rfl, 9, Nat.le_refl 9, by decide, rfl⟩
    have hname : disk.read 0 16 = List.replicate 16 0 ∨ disk.read 0 16 = formatName zName := by
      have hhead := hready.name
      rwa [show ZipvfsFile.bytes ⟨disk, disk, hdr, 512, 0, 0, 0, none⟩ = _ from rfl,
        Cells.get_congr fun i _ hi => bytes_low _ (by omega)] at hhead
    rw [findMethods]
    rcases hname with hzero | hformat
    · obtain ⟨s, hs, hok⟩ := hget none (.inl rfl)
      refine ⟨s, ?_, hok⟩
      rw [hzero]
      exact hs
    · obtain ⟨s, hs, hok⟩ := hget _ (.inr rfl)
      refine ⟨s, ?_, hok⟩
      have hne : formatName zName ≠ sqliteMagic := by
        intro heq
        rw [formatName_eq, sqliteMagic, List.cons.injEq] at heq
        exact absurd heq.1 (by decide)
      have htake : ((formatName zName).drop 3).take zipvfsMaxName = (formatName zName).drop 3 := by
        apply List.take_of_length_le
        rw [List.length_drop, length_formatName, zipvfsMaxName]
      have hmagic : (formatName zName).take 3 = [0x5A, 0x56, 0x2D] := by
        rw [formatName_eq]
        rfl
      rw [hformat]
      simp only [if_neg hne, hmagic, if_true, htake]
      exact hs

omit hfl in
/-- A lock without a hot journal, or behind its rollback, finds the file and its header. -/
theorem zipvfsLockFile_spec {ρ κ σ : Type} {P : Pager ρ κ} {State : ρ → Durable → Prop}
    (hP : P.Atomic State) {Ok : σ → Prop} {storage : ρ} {disk : PlainFile}
    (hlock : State (P.sqlite3PagerSharedLock storage) (.idle disk))
    (h : OnDisk D Free zName disk f)
    {xGetMethods : Option (List UInt8) → Except ErrorCode (Option σ)}
    (hget : Finds Ok zName xGetMethods) {methods : Option σ}
    (hctx : ∀ s, methods = some s → Ok s) {nPgsz : Nat} (hpgsz : PageSize nPgsz) (nMaxFree : Nat)
    (nBuf : Option Nat) :
    ∃ s hdr, zipvfsLockFile P xGetMethods storage methods nPgsz nMaxFree nBuf =
        .ok (P.sqlite3PagerSharedLock storage, s, ⟨disk, disk, hdr, nPgsz, 0, 0, nMaxFree, nBuf⟩) ∧
      Ok s ∧ Snapshot disk ⟨disk, disk, hdr, nPgsz, 0, 0, nMaxFree, nBuf⟩ := by
  obtain ⟨s, hs, hok⟩ := h.findMethods_eq hget hctx
  obtain ⟨hdr, hload⟩ := h.header
  refine ⟨s, hdr, ?_, hok, rfl, ⟨_, hload⟩, rfl, hpgsz⟩
  simp only [zipvfsLockFile, hP.fd _ _ hlock, zipvfsReadHeader_eq hs hload, bind, Except.bind]
  rfl

/-- A file without data stores the empty database. -/
theorem onDisk_empty : OnDisk D Free zName PlainFile.empty PlainFile.empty := by
  refine ⟨⟨newHdr, loadHdr_empty⟩, ?_⟩
  intro z hz
  have hhdr : z.hdr = { newHdr with nFreeFragment := z.hdr.nFreeFragment } :=
    HeaderOf.unique ⟨0, loadHdr_empty⟩ hz.header
  have hbytes : ∀ i, z.bytes i = 0 := by
    intro i
    rw [ZipvfsFile.bytes, hz.file]
    rfl
  have hzeros : ∀ o k, z.bytes.get o k = List.replicate k 0 := by
    intro o k
    rw [Cells.get, funext hbytes, List.map_const', List.length_range]
  have hstart : z.hdr.iDataStart = 456 := by rw [hhdr]; rfl
  have hend : z.hdr.iDataEnd = 456 := by rw [hhdr]; rfl
  have hsize : z.hdr.iSize = 0 := by rw [hhdr]; rfl
  have hempty : freeSlots z.bytes [] ∅ = ∅ := by
    apply Set.eq_empty_of_forall_notMem
    intro s hs
    cases hs.1
  refine ⟨⟨[], 0, fun _ => none, ⟨?_, ?_, ⟨?_, by omega, fun _ _ => rfl⟩, .inl rfl, ?_, ?_, ?_⟩⟩,
    by rw [hhdr]; rfl, by rw [hhdr]; exact Nat.zero_le _, .inl (hzeros 0 16)⟩
  · refine ⟨hz.paged, ?_, by omega, by omega, by rw [hend, pagerReach]; omega, ?_,
      fun p _ _ => hzeros _ 8, fun p hp => absurd rfl hp, fun i _ _ => hbytes i,
      .inl ⟨by rw [hhdr]; rfl, fun i _ => hbytes i⟩⟩
    · refine ⟨456, 456, [], [], rfl, ⟨?_, Nat.le_refl _, ?_⟩, .inl ?_⟩
      · rw [hstart]
        exact .nil _
      · rw [hend]
        exact .nil _
      · rw [hhdr]
        exact ⟨rfl, rfl, rfl⟩
    · intro o ho
      cases ho
  · rw [hempty]
    exact hfl.empty z (by rw [hhdr]; rfl) (by rw [hhdr]; rfl) (by rw [hhdr]; rfl)
  · rw [hsize, Nat.zero_mul]
  · intro p c hc
    cases hc
  · rw [hsize]
    rfl
  · funext i
    rfl

end

end NdsDevkit.Zipvfs
