import Mathlib.Data.Fintype.Basic
import NdsDevkit.Zipvfs.Connections

namespace NdsDevkit.Zipvfs

open Framework ZipvfsFile

section

variable {ι σ ρ κ : Type}

/-- The file has room for a page: for its entry in the map, and for the record with all records
that move. -/
def Room (z : ZipvfsFile) (k : Nat) : Prop :=
  200 + 8 * (k + 1) + 2 ^ 18 ≤ 2 ^ 31 ∧ z.hdr.iDataEnd + 2 ^ 33 + 2 ^ 18 ≤ pagerReach

instance (z : ZipvfsFile) (k : Nat) : Decidable (Room z k) := inferInstanceAs (Decidable (_ ∧ _))

/-- The connection has a transaction, or the header as it is on disk. Behind a rollback with
xUnlock(SHARED) it may have neither. -/
def Current (disk : PlainFile) (z : ZipvfsFile) : Prop :=
  2 ≤ z.inWriteTrans ∨ HeaderOf disk z.hdr

instance (disk : PlainFile) (z : ZipvfsFile) : Decidable (Current disk z) :=
  inferInstanceAs (Decidable (_ ∨ _))

variable (V : Vfs ι σ ρ κ)

/-- The buffer of a connection has the size that its callbacks give for the page size. -/
def BufferOf (s : Sys ι σ ρ) (i : ι) (z : ZipvfsFile) (pgsz : Nat) : Prop :=
  ∀ c ∈ s.methods i, BufferFits V.methods c z pgsz

instance (s : Sys ι σ ρ) (i : ι) (z : ZipvfsFile) (pgsz : Nat) :
    Decidable (BufferOf V s i z pgsz) :=
  inferInstanceAs (Decidable (∀ c ∈ s.methods i, _))

/-- What the callers, the locks and the asserts promise. -/
def Enabled (s : Sys ι σ ρ) : Op ι κ → Prop
  | .lockShared i nPgsz _ => s.conn i = none ∧ PageSize nPgsz ∧
    ∀ j, ∀ z ∈ s.conn j, z.inWriteTrans < 2
  | .lockReserved i => ∃ z ∈ s.conn i, z.inWriteTrans < 2 ∧ Current (V.pager.fd s.storage) z
  | .lockExclusive i =>
    (∃ z ∈ s.conn i, z.inWriteTrans < 2 ∧ Current (V.pager.fd s.storage) z) ∧
      ∀ j, j ≠ i → s.conn j = none
  | .xRead i iAmt iOfst => ∃ z ∈ s.conn i, Current (V.pager.fd s.storage) z ∧
    BufferOf V s i z z.hdr.pgsz ∧
    (iOfst < z.hdr.iSize → iOfst % z.hdr.pgsz + iAmt ≤ z.hdr.pgsz)
  | .xWrite i zBuf iOfst => ∃ z ∈ s.conn i, z.inWriteTrans = 2 ∧ BufferOf V s i z zBuf.length ∧
    PageSize zBuf.length ∧ iOfst % zBuf.length = 0 ∧
    (z.hdr.iSize = 0 ∨ z.hdr.pgsz = zBuf.length) ∧ (iOfst = 0 → zBuf.length = headerPgsz zBuf) ∧
    Room z (iOfst / zBuf.length)
  | .xTruncate i size => ∃ z ∈ s.conn i, z.inWriteTrans = 2 ∧ size % z.hdr.pgsz = 0 ∧
    1 ≤ size / z.hdr.pgsz ∧ size / z.hdr.pgsz ≤ z.hdr.iSize / z.hdr.pgsz
  | .xFileSize i => ∃ z ∈ s.conn i, Current (V.pager.fd s.storage) z
  | .sync i _ => ∃ z ∈ s.conn i, z.inWriteTrans = 2 ∧ z.nUsrPage ≤ z.hdr.iSize / z.hdr.pgsz
  | .commitPhaseTwo i => ∃ z ∈ s.conn i, z.inWriteTrans = 3
  | .unlockShared i => ∃ z, s.conn i = some z
  | .unlockNone _ => True
  | .xClose _ => True
  | .compact i nPgsz nMaxFree _ => (∀ j, s.conn j = none) ∧ PageSize nPgsz ∧
    ∀ l ∈ (zipvfsLockFile V.pager (V.xGetMethods i) s.storage (s.methods i) nPgsz nMaxFree
      (s.nCompressionBuffer i)).toOption, Compactable V.methods l.2.1 l.2.2
  | .pagerStress _ i => ∃ z ∈ s.conn i, z.inWriteTrans = 2
  | .crash .. => True

instance [Fintype ι] [DecidableEq ι] (s : Sys ι σ ρ) : ∀ op, Decidable (Enabled V s op)
  | .lockShared i nPgsz _ => inferInstanceAs
    (Decidable (s.conn i = none ∧ PageSize nPgsz ∧ ∀ j, ∀ z ∈ s.conn j, z.inWriteTrans < 2))
  | .lockReserved i => inferInstanceAs (Decidable (∃ z ∈ s.conn i, _ ∧ _))
  | .lockExclusive i =>
    inferInstanceAs (Decidable ((∃ z ∈ s.conn i, _ ∧ _) ∧ ∀ j, _ → s.conn j = none))
  | .xRead i .. => inferInstanceAs (Decidable (∃ z ∈ s.conn i, _ ∧ _ ∧ (_ → _)))
  | .xWrite i .. => inferInstanceAs
    (Decidable (∃ z ∈ s.conn i, _ ∧ _ ∧ _ ∧ _ ∧ (_ ∨ _) ∧ (_ → _) ∧ _))
  | .xTruncate i _ => inferInstanceAs (Decidable (∃ z ∈ s.conn i, _ ∧ _ ∧ _ ∧ _))
  | .xFileSize i => inferInstanceAs (Decidable (∃ z ∈ s.conn i, _))
  | .sync i _ => inferInstanceAs (Decidable (∃ z ∈ s.conn i, _ ∧ _))
  | .commitPhaseTwo i => inferInstanceAs (Decidable (∃ z ∈ s.conn i, _))
  | .unlockShared i => decidable_of_iff (s.conn i).isSome Option.isSome_iff_exists
  | .unlockNone _ => isTrue True.intro
  | .xClose _ => isTrue True.intro
  | .compact i nPgsz nMaxFree _ => inferInstanceAs (Decidable ((∀ j, s.conn j = none) ∧ _ ∧
    ∀ l ∈ (zipvfsLockFile V.pager (V.xGetMethods i) s.storage (s.methods i) nPgsz nMaxFree
      (s.nCompressionBuffer i)).toOption, _))
  | .pagerStress _ i => inferInstanceAs (Decidable (∃ z ∈ s.conn i, _))
  | .crash .. => isTrue True.intro

end

/-- The parts do what the connections rely on: the pager is atomic, the list keeps free slots, the
callbacks keep pages, and each connection finds the callbacks with the name of the file. -/
structure Vfs.Correct {ι σ ρ κ : Type} (V : Vfs ι σ ρ κ) (Ok : σ → Prop)
    (D : List UInt8 → List UInt8 → Prop) (Free : ZipvfsFile → Set (Nat × Nat) → Prop)
    (zName : List UInt8) (State : ρ → Durable → Prop) : Prop where
  pager : V.pager.Atomic State
  freelist : V.freelist.Keeps Free
  lossless : ∀ k, PageSize k → V.methods.Lossless Ok D k
  name : ∀ c, Ok c → V.methods.zHdr c = zName
  finds : ∀ i, Finds Ok zName (V.xGetMethods i)

section

variable {ι σ ρ : Type} (D : List UInt8 → List UInt8 → Prop)
  (Free : ZipvfsFile → Set (Nat × Nat) → Prop) (zName : List UInt8) (State : ρ → Durable → Prop)

/-- Without a transaction the connections have the file as it is on disk. -/
structure Idle (s : Sys ι σ ρ) (disk f : PlainFile) : Prop where
  onDisk : OnDisk D Free zName disk f
  storage : State s.storage (.dirty disk)
  locked : ∀ i z, s.conn i = some z → State s.storage (.idle disk)
  reader : ∀ i z, s.conn i = some z →
    z.file = disk ∧ z.inWriteTrans < 2 ∧ z.nUsrPage = 0 ∧ z.Paged

/-- A transaction is alone, and can still be rolled back to the file `disk`. -/
structure Busy (s : Sys ι σ ρ) (disk f : PlainFile) (t : Transaction ι) (z : ZipvfsFile) :
    Prop where
  onDisk : OnDisk D Free zName disk f
  conn : s.conn t.owner = some z
  alone : ∀ j, j ≠ t.owner → s.conn j = none
  ready : Ready D Free zName z t.file
  nUsr : t.nUsr = z.nUsrPage * z.hdr.pgsz
  stated : z.nUsrPage = 0 ∨ 0 < z.hdr.iSize
  phase : t.prepared = false ∧ z.inWriteTrans = 2 ∧ State s.storage (.dirty disk) ∧
      disk.size ≤ z.file.size ∨
    t.prepared = true ∧ z.inWriteTrans = 3 ∧ State s.storage (.synced true disk z.file) ∧
      z.nUsrPage = 0 ∧ HeaderOf z.file z.hdr

/-- A connection with a lock knows its callbacks, and every context is one of them. -/
structure Contexts (Ok : σ → Prop) (s : Sys ι σ ρ) : Prop where
  ok : ∀ i c, s.methods i = some c → Ok c
  found : ∀ i z, s.conn i = some z → ∃ c, s.methods i = some c

/-- The connections do what the specification says. -/
structure Refines (Ok : σ → Prop) (s : Sys ι σ ρ) (a : Spec ι) : Prop where
  contexts : Contexts Ok s
  idle : a.working = none → ∃ disk, Idle D Free zName State s disk a.committed
  busy : ∀ t, a.working = some t → ∃ disk z, Busy D Free zName State s disk a.committed t z

end

section

variable {ι σ ρ κ : Type} [DecidableEq ι] {s : Sys ι σ ρ} {a : Spec ι} {i : ι} {z : ZipvfsFile}

theorem view_none (h : a.working = none) (i : ι) : a.view i = a.committed := by
  rw [Spec.view, h]

theorem view_owner {t : Transaction ι} (h : a.working = some t) : a.view t.owner = t.file := by
  rw [Spec.view, h]
  exact if_pos rfl

theorem change_none (h : a.working = none) (i : ι) (g : Transaction ι → Spec ι) :
    a.change i g = a := by
  rw [Spec.change, h]

theorem change_owner {t : Transaction ι} (h : a.working = some t) (g : Transaction ι → Spec ι) :
    a.change t.owner g = g t := by
  rw [Spec.change, h]
  exact if_pos rfl

theorem setConn_self (w : Option ZipvfsFile) : (s.setConn i w).conn i = w := by
  simp [Sys.setConn]

theorem setConn_of_ne {j : ι} (hne : j ≠ i) (w : Option ZipvfsFile) :
    (s.setConn i w).conn j = s.conn j := by
  simp [Sys.setConn, hne]

theorem alone_setConn (h : ∀ j, j ≠ i → s.conn j = none) (w : Option ZipvfsFile) :
    ∀ j, j ≠ i → (s.setConn i w).conn j = none := by
  intro j hj
  rw [setConn_of_ne hj]
  exact h j hj

omit [DecidableEq ι] in
theorem locked_eq (P : Pager ρ κ) (h : s.conn i = some z) :
    s.locked P i = .ok { z with disk := P.fd s.storage } := by
  rw [Sys.locked, h]
  rfl

omit [DecidableEq ι] in
theorem context_eq {c : σ} (h : s.methods i = some c) : s.context i = .ok c := by
  rw [Sys.context, h]
  rfl

variable {V : Vfs ι σ ρ κ} {Ok : σ → Prop} {D : List UInt8 → List UInt8 → Prop}
  {Free : ZipvfsFile → Set (Nat × Nat) → Prop} {zName : List UInt8} {State : ρ → Durable → Prop}

namespace Contexts

variable (h : Contexts Ok s)

include h

theorem setConn {c : σ} (hc : s.methods i = some c) (storage : ρ) (w : Option ZipvfsFile) :
    Contexts Ok (Sys.setConn { s with storage } i w) := by
  refine ⟨h.ok, ?_⟩
  intro j z hz
  by_cases hj : j = i
  · rw [hj]
    exact ⟨c, hc⟩
  · rw [setConn_of_ne hj] at hz
    exact h.found j z hz

theorem setMethods {c : σ} (hc : Ok c) :
    Contexts Ok { s with methods := Function.update s.methods i (some c) } := by
  constructor
  · intro j c' hc'
    by_cases hj : j = i
    · rw [hj] at hc'
      simp only [Function.update_self, Option.some.injEq] at hc'
      rw [← hc']
      exact hc
    · simp only [Function.update_of_ne hj] at hc'
      exact h.ok j c' hc'
  · intro j z hz
    by_cases hj : j = i
    · rw [hj]
      exact ⟨c, Function.update_self _ _ _⟩
    · obtain ⟨c', hc'⟩ := h.found j z hz
      exact ⟨c', (Function.update_of_ne hj _ _).trans hc'⟩

end Contexts

theorem Idle.setConn {disk f : PlainFile} (h : Idle D Free zName State s disk f)
    {w : Option ZipvfsFile} (hw : ∀ z, w = some z → State s.storage (.idle disk) ∧
      z.file = disk ∧ z.inWriteTrans < 2 ∧ z.nUsrPage = 0 ∧ z.Paged) :
    Idle D Free zName State (s.setConn i w) disk f := by
  refine ⟨h.onDisk, h.storage, ?_, ?_⟩
  · intro j z hz
    by_cases hj : j = i
    · rw [hj, setConn_self] at hz
      exact (hw z hz).1
    · rw [setConn_of_ne hj] at hz
      exact h.locked j z hz
  · intro j z hz
    by_cases hj : j = i
    · rw [hj, setConn_self] at hz
      exact (hw z hz).2
    · rw [setConn_of_ne hj] at hz
      exact h.reader j z hz

/-- A connection that is alone has no transaction any more. -/
theorem Idle.alone {P : Pager ρ κ} (hP : P.Atomic State) {disk f : PlainFile}
    (hdisk : OnDisk D Free zName disk f) {storage : ρ} (hidle : State storage (.idle disk))
    (halone : ∀ j, j ≠ i → s.conn j = none) {w : Option ZipvfsFile}
    (hw : ∀ z, w = some z → z.file = disk ∧ z.inWriteTrans < 2 ∧ z.nUsrPage = 0 ∧ z.Paged) :
    Idle D Free zName State (Sys.setConn { s with storage } i w) disk f := by
  refine ⟨hdisk, hP.begins _ _ hidle, fun _ _ _ => hidle, ?_⟩
  intro j z hz
  by_cases hj : j = i
  · rw [hj, setConn_self] at hz
    exact hw z hz
  · rw [setConn_of_ne hj] at hz
    have hnone := halone j hj
    rw [show s.conn j = some z from hz] at hnone
    cases hnone

omit [DecidableEq ι] in
theorem refines_of_idle (hcontexts : Contexts Ok s) (hnone : a.working = none) {disk : PlainFile}
    (hidle : Idle D Free zName State s disk a.committed) : Refines D Free zName State Ok s a := by
  refine ⟨hcontexts, fun _ => ⟨disk, hidle⟩, ?_⟩
  intro t ht
  rw [hnone] at ht
  cases ht

omit [DecidableEq ι] in
theorem refines_of_busy (hcontexts : Contexts Ok s) {t : Transaction ι} (hsome : a.working = some t)
    {disk : PlainFile} (hbusy : Busy D Free zName State s disk a.committed t z) :
    Refines D Free zName State Ok s a := by
  refine ⟨hcontexts, ?_, ?_⟩
  · intro hnone
    rw [hsome] at hnone
    cases hnone
  · intro t' ht
    rw [hsome] at ht
    cases ht
    exact ⟨disk, z, hbusy⟩

namespace Refines

variable (h : Refines D Free zName State Ok s a)

include h

/-- While a connection only reads there is no transaction. -/
theorem idle_of_reader (hz : s.conn i = some z) (hlow : z.inWriteTrans < 2) :
    a.working = none := by
  cases hworking : a.working with
  | none => rfl
  | some t =>
    obtain ⟨disk, w, hb⟩ := h.busy t hworking
    by_cases hi : i = t.owner
    · have hconn := hb.conn
      rw [← hi, hz] at hconn
      cases hconn
      have hphase := hb.phase
      omega
    · have hnone := hb.alone i hi
      rw [hz] at hnone
      cases hnone

omit [DecidableEq ι] in
theorem idle_of_readers (hlow : ∀ j, ∀ z ∈ s.conn j, z.inWriteTrans < 2) : a.working = none := by
  cases hworking : a.working with
  | none => rfl
  | some t =>
    obtain ⟨disk, z, hb⟩ := h.busy t hworking
    have hlt := hlow t.owner z hb.conn
    have hphase := hb.phase
    omega

/-- A connection in a transaction owns it. -/
theorem busy_of_writer (hz : s.conn i = some z) (hhigh : 2 ≤ z.inWriteTrans) :
    ∃ t disk, a.working = some t ∧ t.owner = i ∧
      Busy D Free zName State s disk a.committed t z := by
  cases hworking : a.working with
  | none =>
    obtain ⟨disk, hidle⟩ := h.idle hworking
    have hlow := (hidle.reader i z hz).2.1
    omega
  | some t =>
    obtain ⟨disk, w, hb⟩ := h.busy t hworking
    by_cases hi : i = t.owner
    · have hconn := hb.conn
      rw [← hi, hz] at hconn
      cases hconn
      exact ⟨t, disk, rfl, hi.symm, hb⟩
    · have hnone := hb.alone i hi
      rw [hz] at hnone
      cases hnone

theorem setMethods {c : σ} (hc : Ok c) :
    Refines D Free zName State Ok { s with methods := Function.update s.methods i (some c) } a := by
  refine ⟨h.contexts.setMethods hc, ?_, ?_⟩
  · intro hnone
    obtain ⟨disk, hidle⟩ := h.idle hnone
    exact ⟨disk, hidle.onDisk, hidle.storage, hidle.locked, hidle.reader⟩
  · intro t ht
    obtain ⟨disk, z, hb⟩ := h.busy t ht
    exact ⟨disk, z, hb.onDisk, hb.conn, hb.alone, hb.ready, hb.nUsr, hb.stated, hb.phase⟩

variable (hV : V.Correct Ok D Free zName State)

include hV

/-- A connection sees its transaction, or the file that was committed. -/
theorem sees (hz : s.conn i = some z) (hcur : Current (V.pager.fd s.storage) z) :
    Ready D Free zName { z with disk := V.pager.fd s.storage } (a.view i) ∧
      (1 < z.inWriteTrans ∨ V.pager.fd s.storage = z.file) := by
  by_cases hlow : z.inWriteTrans < 2
  · have hnone := h.idle_of_reader hz hlow
    obtain ⟨disk, hidle⟩ := h.idle hnone
    obtain ⟨hfile, _, husr, hpaged⟩ := hidle.reader i z hz
    have hfd := hV.pager.fd _ _ (hidle.locked i z hz)
    have hheader := hcur.resolve_left (by omega)
    rw [view_none hnone]
    rw [hfd] at hheader ⊢
    exact ⟨hidle.onDisk.ready _ ⟨hfile, hheader, husr, hpaged⟩, .inr hfile.symm⟩
  · obtain ⟨t, disk, hworking, rfl, hb⟩ := h.busy_of_writer hz (by omega)
    rw [view_owner hworking]
    exact ⟨hb.ready.sameFile hV.freelist rfl rfl rfl, .inl (by omega)⟩

/-- What a connection has read of the file, and its buffer, do not matter. -/
theorem setBuffer (hz : s.conn i = some z) (disk : PlainFile) (nBuf : Option Nat) :
    Refines D Free zName State Ok
      (s.setConn i (some { z with disk, nCompressionBuffer := nBuf })) a := by
  obtain ⟨c, hc⟩ := h.contexts.found i z hz
  have hcontexts :=
    h.contexts.setConn hc s.storage (some { z with disk, nCompressionBuffer := nBuf })
  by_cases hlow : z.inWriteTrans < 2
  · have hnone := h.idle_of_reader hz hlow
    obtain ⟨disk', hidle⟩ := h.idle hnone
    refine refines_of_idle hcontexts hnone (hidle.setConn ?_)
    intro w hw
    cases hw
    exact ⟨hidle.locked i z hz, hidle.reader i z hz⟩
  · obtain ⟨t, disk', hworking, rfl, hb⟩ := h.busy_of_writer hz (by omega)
    exact refines_of_busy hcontexts hworking ⟨hb.onDisk, setConn_self _, alone_setConn hb.alone _,
      hb.ready.sameFile hV.freelist rfl rfl rfl, hb.nUsr, hb.stated, hb.phase⟩

end Refines

end

end NdsDevkit.Zipvfs
