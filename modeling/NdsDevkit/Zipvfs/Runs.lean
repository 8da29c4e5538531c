import NdsDevkit.Zipvfs.SmallVfs

namespace NdsDevkit.Zipvfs

open Framework ZipvfsFile

section

variable {ι σ ρ κ : Type} [DecidableEq ι] {V : Vfs ι σ ρ κ} {Ok : σ → Prop}
  {D : List UInt8 → List UInt8 → Prop} {Free : ZipvfsFile → Set (Nat × Nat) → Prop}
  {zName : List UInt8} {State : ρ → Durable → Prop} (hV : V.Correct Ok D Free zName State)
  {s : Sys ι σ ρ} {a : Spec ι} {i : ι} {z : ZipvfsFile}

include hV

omit [DecidableEq ι] in
/-- The shared lock rolls a hot journal back. There is none while another connection has a lock. -/
theorem Idle.sharedLock {disk f : PlainFile} (h : Idle D Free zName State s disk f) :
    ∃ disk', State (V.pager.sqlite3PagerSharedLock s.storage) (.idle disk') ∧
      Idle D Free zName State
        { s with storage := V.pager.sqlite3PagerSharedLock s.storage } disk' f := by
  by_cases hany : ∃ i z, s.conn i = some z
  · obtain ⟨i, z, hz⟩ := hany
    have hidle := hV.pager.sharedLock_idle _ _ (h.locked i z hz)
    exact ⟨disk, hidle, h.onDisk, hV.pager.begins _ _ hidle, fun _ _ _ => hidle, h.reader⟩
  · obtain ⟨disk', hext, hidle⟩ := hV.pager.sharedLock_dirty _ _ h.storage
    refine ⟨disk', hidle, h.onDisk.extends hV.freelist hext, hV.pager.begins _ _ hidle,
      fun _ _ _ => hidle, ?_⟩
    intro i z hz
    exact absurd ⟨i, z, hz⟩ hany

omit [DecidableEq ι] in
/-- A rollback restores the file that was committed. -/
theorem Busy.rollback {disk f : PlainFile} {t : Transaction ι}
    (h : Busy D Free zName State s disk f t z) :
    ∃ disk', OnDisk D Free zName disk' f ∧
      State (V.pager.sqlite3PagerRollback s.storage) (.idle disk') := by
  obtain ⟨d, hd, hbefore⟩ : ∃ d, State s.storage d ∧ d.before = disk := by
    rcases h.phase with ⟨_, _, hdirty, _⟩ | ⟨_, _, hsynced, _⟩
    · exact ⟨_, hdirty, rfl⟩
    · exact ⟨_, hsynced, rfl⟩
  obtain ⟨disk', hext, hidle⟩ := hV.pager.rollback _ _ hd
  rw [hbefore] at hext
  exact ⟨disk', h.onDisk.extends hV.freelist hext, hidle⟩

omit [DecidableEq ι] hV in
theorem Busy.open_of {disk f : PlainFile} {t : Transaction ι}
    (h : Busy D Free zName State s disk f t z) (htrans : z.inWriteTrans = 2) :
    t.prepared = false ∧ State s.storage (.dirty disk) ∧ disk.size ≤ z.file.size := by
  rcases h.phase with ⟨hprepared, _, hdirty, hsize⟩ | ⟨_, h3, _⟩
  · exact ⟨hprepared, hdirty, hsize⟩
  · omega

omit [DecidableEq ι] hV in
theorem Busy.prepared_of {disk f : PlainFile} {t : Transaction ι}
    (h : Busy D Free zName State s disk f t z) (htrans : z.inWriteTrans = 3) :
    State s.storage (.synced true disk z.file) ∧ z.nUsrPage = 0 ∧ HeaderOf z.file z.hdr := by
  rcases h.phase with ⟨_, h2, _⟩ | ⟨_, _, hsynced, husr, hheader⟩
  · omega
  · exact ⟨hsynced, husr, hheader⟩

end

/-- The first page brings the name of the callbacks. -/
theorem AfterWrite.name {zHdr : List UInt8} {z z' : ZipvfsFile} {k : Nat} {zBuf : List UInt8}
    (h : AfterWrite zHdr z z' k zBuf)
    (hold : z.bytes.get 0 16 = List.replicate 16 0 ∨ z.bytes.get 0 16 = formatName zHdr) :
    z'.bytes.get 0 16 = List.replicate 16 0 ∨ z'.bytes.get 0 16 = formatName zHdr := by
  have hhead : z'.bytes.get 0 16 =
      (if k = 0 then z.bytes.put 0 (page1Bytes zHdr zBuf) else z.bytes).get 0 16 := by
    apply Cells.get_congr
    intro i _ hi
    rw [h.head i (by omega)]
    split <;> rfl
  rw [hhead]
  by_cases hk : k = 0
  · have hname := Cells.get_put_same z.bytes 0 (formatName zHdr)
    rw [length_formatName] at hname
    rw [if_pos hk, page1Bytes, ← Cells.put_put z.bytes (formatName zHdr) _ rfl,
      Cells.get_put_apart _ (.inl (by rw [length_formatName])), hname]
    exact .inr rfl
  · rw [if_neg hk]
    exact hold

section

variable {D : List UInt8 → List UInt8 → Prop} {Free : ZipvfsFile → Set (Nat × Nat) → Prop}
  {zName : List UInt8} {z z' : ZipvfsFile} {f f' : PlainFile} {offs : List Nat} {n : Nat}
  {page : Nat → Option (List UInt8)}

theorem Ready.written (h : Ready D Free zName z f) {k : Nat} {zBuf : List UInt8}
    (hh : Holds D Free z' offs n page f') (hafter : AfterWrite zName z z' k zBuf)
    (hsize : PageSize zBuf.length) : Ready D Free zName z' f' := by
  refine ⟨⟨offs, n, page, hh⟩, ?_, ?_, hafter.name h.name⟩
  · rw [hafter.iVersion]
    exact h.version
  · rw [hafter.pgsz]
    exact hsize.bounds.2

/-- The owner of an open transaction changes the file. -/
theorem Busy.changed {ι σ ρ : Type} [DecidableEq ι] {State : ρ → Durable → Prop} {s : Sys ι σ ρ}
    {disk : PlainFile} {t : Transaction ι} (h : Busy D Free zName State s disk f t z)
    (htrans : z.inWriteTrans = 2) (hready : Ready D Free zName z' f')
    (htrans' : z'.inWriteTrans = z.inWriteTrans) (hsize : z.file.size ≤ z'.file.size) {nUsr : Nat}
    (hnUsr : nUsr = z'.nUsrPage * z'.hdr.pgsz) (hstated : z'.nUsrPage = 0 ∨ 0 < z'.hdr.iSize) :
    Busy D Free zName State (s.setConn t.owner (some z')) disk f { t with file := f', nUsr } z' := by
  obtain ⟨hprepared, hdirty, hsizes⟩ := h.open_of htrans
  exact ⟨h.onDisk, setConn_self _, alone_setConn h.alone _, hready, hnUsr, hstated,
    .inl ⟨hprepared, htrans'.trans htrans, hdirty, hsizes.trans hsize⟩⟩

end

/-- A call has the result that the specification gives, and keeps the relation. -/
def Follows {ι σ ρ κ : Type} [DecidableEq ι] (V : Vfs ι σ ρ κ) (Ok : σ → Prop)
    (D : List UInt8 → List UInt8 → Prop) (Free : ZipvfsFile → Set (Nat × Nat) → Prop)
    (zName : List UInt8) (State : ρ → Durable → Prop) (s : Sys ι σ ρ) (a : Spec ι) (op : Op ι κ) :
    Prop :=
  ∃ s', s.step V op = .ok (s', (a.step op).2) ∧ Refines D Free zName State Ok s' (a.step op).1

section

variable {ι σ ρ κ : Type} [DecidableEq ι] {V : Vfs ι σ ρ κ} {Ok : σ → Prop}
  {D : List UInt8 → List UInt8 → Prop} {Free : ZipvfsFile → Set (Nat × Nat) → Prop}
  {zName : List UInt8} {State : ρ → Durable → Prop} (hV : V.Correct Ok D Free zName State)
  {s : Sys ι σ ρ} {a : Spec ι} {i : ι} (h : Refines D Free zName State Ok s a)

include hV h

theorem lockShared_follows {nPgsz nMaxFree : Nat}
    (hen : Enabled V s (.lockShared i nPgsz nMaxFree)) :
    Follows V Ok D Free zName State s a (.lockShared i nPgsz nMaxFree) := by
  obtain ⟨_, hpgsz, hlow⟩ := hen
  have hnone := h.idle_of_readers hlow
  obtain ⟨disk, hidle⟩ := h.idle hnone
  obtain ⟨disk', hlock, hidle'⟩ := hidle.sharedLock hV
  obtain ⟨c, hdr, hrun, hok, hsnap⟩ := zipvfsLockFile_spec hV.pager hlock hidle'.onDisk (hV.finds i)
    (fun c hc => h.contexts.ok i c hc) hpgsz nMaxFree (s.nCompressionBuffer i)
  have hcontexts : Contexts Ok { s with
      storage := V.pager.sqlite3PagerSharedLock s.storage
      methods := Function.update s.methods i (some c) } := by
    have hset := h.contexts.setMethods (i := i) hok
    exact ⟨hset.ok, hset.found⟩
  refine ⟨Sys.setConn { s with
    storage := V.pager.sqlite3PagerSharedLock s.storage
    methods := Function.update s.methods i (some c) } i
      (some ⟨disk', disk', hdr, nPgsz, 0, 0, nMaxFree, s.nCompressionBuffer i⟩), ?_, ?_⟩
  · simp only [Sys.step, hrun, bind, Except.bind]
    rfl
  · have hmethods : Function.update s.methods i (some c) i = some c := Function.update_self _ _ _
    have hidle2 : Idle D Free zName State { s with
        storage := V.pager.sqlite3PagerSharedLock s.storage
        methods := Function.update s.methods i (some c) } disk' a.committed :=
      ⟨hidle'.onDisk, hidle'.storage, hidle'.locked, hidle'.reader⟩
    refine refines_of_idle (hcontexts.setConn hmethods _ _) hnone (hidle2.setConn ?_)
    intro z hz
    cases hz
    exact ⟨hlock, rfl, Nat.zero_lt_two, rfl, hpgsz⟩

omit hV in
theorem lockReserved_follows (hen : Enabled V s (.lockReserved i)) :
    Follows V Ok D Free zName State s a (.lockReserved i) := by
  obtain ⟨z, hz, hlow, _⟩ := hen
  have hnone := h.idle_of_reader hz hlow
  obtain ⟨disk, hidle⟩ := h.idle hnone
  obtain ⟨hfile, _, husr, hpaged⟩ := hidle.reader i z hz
  obtain ⟨c, hc⟩ := h.contexts.found i z hz
  generalize hw : (if z.inWriteTrans = 0 then
    { z with disk := V.pager.fd s.storage, inWriteTrans := 1 }
    else { z with disk := V.pager.fd s.storage }) = w
  refine ⟨s.setConn i (some w), ?_, refines_of_idle (h.contexts.setConn hc _ _) hnone
    (hidle.setConn ?_)⟩
  · simp only [Sys.step, locked_eq V.pager hz, bind, Except.bind]
    rw [← hw]
    split <;> rfl
  · intro z' hz'
    cases hz'
    rw [← hw]
    split
    · exact ⟨hidle.locked i z hz, hfile, Nat.one_lt_two, husr, hpaged⟩
    · exact ⟨hidle.locked i z hz, hfile, hlow, husr, hpaged⟩

theorem lockExclusive_follows (hen : Enabled V s (.lockExclusive i)) :
    Follows V Ok D Free zName State s a (.lockExclusive i) := by
  obtain ⟨⟨z, hz, hlow, hcur⟩, halone⟩ := hen
  have hnone := h.idle_of_reader hz hlow
  obtain ⟨disk, hidle⟩ := h.idle hnone
  obtain ⟨hfile, _, husr, hpaged⟩ := hidle.reader i z hz
  obtain ⟨c, hc⟩ := h.contexts.found i z hz
  have hheader := hcur.resolve_left (by omega)
  rw [hV.pager.fd _ _ (hidle.locked i z hz)] at hheader
  refine ⟨s.setConn i (some { z with disk := V.pager.fd s.storage, inWriteTrans := 2 }), ?_,
    refines_of_busy (h.contexts.setConn hc _ _) rfl ⟨hidle.onDisk, setConn_self _,
      alone_setConn halone _, hidle.onDisk.ready _ ⟨hfile, hheader, husr, hpaged⟩, ?_, .inl husr,
      .inl ⟨rfl, rfl, hidle.storage, ?_⟩⟩⟩
  · simp only [Sys.step, locked_eq V.pager hz, bind, Except.bind]
    rfl
  · change 0 = z.nUsrPage * z.hdr.pgsz
    rw [husr, Nat.zero_mul]
  · change disk.size ≤ z.file.size
    rw [hfile]

theorem xRead_follows {iAmt iOfst : Nat} (hen : Enabled V s (.xRead i iAmt iOfst)) :
    Follows V Ok D Free zName State s a (.xRead i iAmt iOfst) := by
  obtain ⟨z, hz, hcur, hbuf, hin⟩ := hen
  obtain ⟨c, hc⟩ := h.contexts.found i z hz
  obtain ⟨hready, hway⟩ := h.sees hV hz hcur
  obtain ⟨offs, n, page, hh⟩ := hready.holds
  obtain ⟨c', nBuf, hrun, hok⟩ := zipvfsRead_spec hV.lossless (h.contexts.ok i c hc) hh hway
    (hbuf c hc) (fun hlt => hin (by rw [hh.size] at hlt; exact hlt))
  refine ⟨Sys.setConn { s with methods := Function.update s.methods i (some c') } i
    (some { z with disk := V.pager.fd s.storage, nCompressionBuffer := nBuf }), ?_,
    (h.setMethods hok).setBuffer hV hz _ _⟩
  simp only [Sys.step, locked_eq V.pager hz, context_eq hc, hrun, bind, Except.bind]
  rfl

theorem xWrite_follows {zBuf : List UInt8} {iOfst : Nat}
    (hen : Enabled V s (.xWrite i zBuf iOfst)) :
    Follows V Ok D Free zName State s a (.xWrite i zBuf iOfst) := by
  obtain ⟨z, hz, htrans, hbuf, hsize, hmod, hsame, hone, hroom⟩ := hen
  obtain ⟨t, disk, hworking, rfl, hb⟩ := h.busy_of_writer hz (by omega)
  obtain ⟨c, hc⟩ := h.contexts.found _ z hz
  have hok := h.contexts.ok _ c hc
  obtain ⟨hlow, hhigh⟩ := hsize.bounds
  obtain ⟨k, rfl⟩ : ∃ k, iOfst = k * zBuf.length :=
    ⟨iOfst / zBuf.length, (Nat.div_mul_cancel (Nat.dvd_of_mod_eq_zero hmod)).symm⟩
  rw [Nat.mul_div_cancel k (by omega)] at hroom
  have hready : Ready D Free zName { z with disk := V.pager.fd s.storage } t.file :=
    hb.ready.sameFile hV.freelist rfl rfl rfl
  obtain ⟨offs, n, page, hh⟩ := hready.holds
  obtain ⟨z', offs', page', hrun, hh', hafter⟩ := zipvfsWrite_spec hV.freelist hV.lossless hok hh
    htrans (hbuf c hc) hsize (hh.empty_or hsame) (fun hk => hone (by rw [hk, Nat.zero_mul])) hroom.1
    hroom.2
  rw [hV.name c hok] at hafter
  refine ⟨s.setConn t.owner (some z'), ?_, ?_⟩
  · simp only [Sys.step, locked_eq V.pager hz, context_eq hc, hrun, bind, Except.bind]
    rfl
  · simp only [Spec.step, change_owner hworking]
    refine refines_of_busy (h.contexts.setConn hc _ _) rfl (hb.changed htrans
      (hready.written hh' hafter hsize) hafter.inWriteTrans hafter.size ?_ (.inr ?_))
    · rw [hafter.nUsrPage, hafter.pgsz, usrPage]
      by_cases hk : k = 0
      · rw [if_pos hk, if_pos (by rw [hk, Nat.zero_mul])]
      · have hoff : k * zBuf.length ≠ 0 := Nat.mul_ne_zero hk (by omega)
        rw [if_neg hk, if_neg hoff, hb.nUsr]
        rcases hb.stated with h0 | hpos
        · rw [h0, Nat.zero_mul, Nat.zero_mul]
        · rw [hsame.resolve_left (by omega)]
    · rw [hh'.sized.iSize, hafter.pgsz]
      have hpages := Nat.le_max_right n (k + 1)
      exact Nat.mul_pos (by omega) (by omega)

theorem xTruncate_follows {size : Nat} (hen : Enabled V s (.xTruncate i size)) :
    Follows V Ok D Free zName State s a (.xTruncate i size) := by
  obtain ⟨z, hz, htrans, hmod, hone, hk⟩ := hen
  obtain ⟨t, disk, hworking, rfl, hb⟩ := h.busy_of_writer hz (by omega)
  obtain ⟨c, hc⟩ := h.contexts.found _ z hz
  obtain ⟨k, rfl⟩ : ∃ k, size = k * z.hdr.pgsz :=
    ⟨size / z.hdr.pgsz, (Nat.div_mul_cancel (Nat.dvd_of_mod_eq_zero hmod)).symm⟩
  have hpos : 0 < z.hdr.pgsz := by
    apply Nat.pos_of_ne_zero
    intro h0
    rw [h0, Nat.div_zero] at hone
    omega
  rw [Nat.mul_div_cancel k hpos] at hone hk
  have hready : Ready D Free zName { z with disk := V.pager.fd s.storage } t.file :=
    hb.ready.sameFile hV.freelist rfl rfl rfl
  obtain ⟨offs, n, page, hh⟩ := hready.holds
  obtain ⟨z', hrun, hh', hinner⟩ :=
    zipvfsTruncate_spec hV.freelist hh htrans hone (hh.le_pages hone hk)
  have husr : z'.nUsrPage = 0 := hinner.nUsrPage
  refine ⟨s.setConn t.owner (some z'), ?_, ?_⟩
  · simp only [Sys.step, locked_eq V.pager hz, bind, Except.bind]
    simp only at hrun
    rw [hrun]
    rfl
  · simp only [Spec.step, change_owner hworking]
    refine refines_of_busy (h.contexts.setConn hc _ _) rfl (hb.changed htrans
      (hready.truncated hh' hinner) hinner.inWriteTrans hinner.size ?_ (.inl husr))
    rw [husr, Nat.zero_mul]

theorem xFileSize_follows (hen : Enabled V s (.xFileSize i)) :
    Follows V Ok D Free zName State s a (.xFileSize i) := by
  obtain ⟨z, hz, hcur⟩ := hen
  obtain ⟨offs, n, page, hh⟩ := (h.sees hV hz hcur).1.holds
  refine ⟨s, ?_, h⟩
  simp only [Sys.step, locked_eq V.pager hz, bind, Except.bind, Spec.step, hh.size]
  rfl

/-- Both ways to sync give the file the size that it states. -/
theorem sync_follows {zMaster : Bool} (hen : Enabled V s (.sync i zMaster)) :
    Follows V Ok D Free zName State s a (.sync i zMaster) := by
  obtain ⟨z, hz, htrans, hstated⟩ := hen
  obtain ⟨t, disk, hworking, rfl, hb⟩ := h.busy_of_writer hz (by omega)
  obtain ⟨c, hc⟩ := h.contexts.found _ z hz
  obtain ⟨_, hdirty, hsizes⟩ := hb.open_of htrans
  have hready : Ready D Free zName { z with disk := V.pager.fd s.storage } t.file :=
    hb.ready.sameFile hV.freelist rfl rfl rfl
  have hsize : (if z.nUsrPage = 0 then t.file else t.file.truncate (z.nUsrPage * z.hdr.pgsz)) =
      Spec.resized t.file t.nUsr := by
    rw [Spec.resized, hb.nUsr]
    by_cases h0 : z.nUsrPage = 0
    · rw [if_pos h0, if_pos (by rw [h0, Nat.zero_mul])]
    · have hpgsz : z.hdr.pgsz ≠ 0 := by
        intro hp
        rw [hp, Nat.div_zero] at hstated
        omega
      rw [if_neg h0, if_neg (Nat.mul_ne_zero h0 hpgsz)]
  have hlow : ¬ z.inWriteTrans < 2 := by omega
  cases zMaster with
  | true =>
    obtain ⟨r, z', hrun, hsynced, hready', hheader, husr⟩ := zipvfsCommitTransactionOne_spec
      hV.freelist hV.pager hready (by change 1 < z.inWriteTrans; omega) hstated true
      hdirty fun _ => hsizes
    simp only [hsize] at hready'
    refine ⟨Sys.setConn { s with storage := r } t.owner (some { z' with inWriteTrans := 3 }), ?_,
      ?_⟩
    · simp only [Sys.step, zipvfsDoSync, locked_eq V.pager hz, if_neg hlow, if_true, hrun, bind,
        Except.bind]
      rfl
    · simp only [Spec.step, change_owner hworking, if_true]
      refine refines_of_busy (h.contexts.setConn hc _ _) rfl
        ⟨hb.onDisk, setConn_self _, alone_setConn hb.alone _,
          hready'.sameFile hV.freelist rfl rfl rfl, ?_, .inl husr,
          .inr ⟨rfl, rfl, hsynced, husr, hheader⟩⟩
      change 0 = z'.nUsrPage * z'.hdr.pgsz
      rw [husr, Nat.zero_mul]
  | false =>
    obtain ⟨r, z', hrun, hidle, hready', hheader, husr, htrans'⟩ := zipvfsCommitTransaction_spec
      hV.freelist hV.pager hready (by change 1 < z.inWriteTrans; omega) hstated hdirty
    simp only [hsize] at hready'
    obtain ⟨_, _, _, hh⟩ := hready'.holds
    refine ⟨Sys.setConn { s with storage := r } t.owner (some z'), ?_, ?_⟩
    · simp only [Sys.step, zipvfsDoSync, locked_eq V.pager hz, if_neg hlow, Bool.false_eq_true,
        if_false, hrun, bind, Except.bind]
      rfl
    · simp only [Spec.step, change_owner hworking, Bool.false_eq_true, if_false]
      refine refines_of_idle (h.contexts.setConn hc _ _) rfl
        (Idle.alone hV.pager (hready'.onDisk hV.freelist hheader) hidle hb.alone ?_)
      intro w hw
      cases hw
      exact ⟨rfl, by omega, husr, hh.image.paged⟩

theorem commitPhaseTwo_follows (hen : Enabled V s (.commitPhaseTwo i)) :
    Follows V Ok D Free zName State s a (.commitPhaseTwo i) := by
  obtain ⟨z, hz, htrans⟩ := hen
  obtain ⟨t, disk, hworking, rfl, hb⟩ := h.busy_of_writer hz (by omega)
  obtain ⟨c, hc⟩ := h.contexts.found _ z hz
  obtain ⟨hsynced, husr, hheader⟩ := hb.prepared_of htrans
  obtain ⟨_, _, _, hh⟩ := hb.ready.holds
  have hidle := hV.pager.phaseTwo _ _ _ _ hsynced
  refine ⟨Sys.setConn { s with storage := V.pager.sqlite3PagerCommitPhaseTwo s.storage } t.owner
    (some { z with disk := V.pager.fd s.storage, inWriteTrans := 0 }), ?_, ?_⟩
  · simp only [Sys.step, zipvfsDoCommit, locked_eq V.pager hz, if_pos htrans, bind, Except.bind]
    rfl
  · simp only [Spec.step, change_owner hworking]
    refine refines_of_idle (h.contexts.setConn hc _ _) rfl
      (Idle.alone hV.pager (hb.ready.onDisk hV.freelist hheader) hidle hb.alone ?_)
    intro w hw
    cases hw
    exact ⟨rfl, Nat.zero_lt_two, husr, hh.image.paged⟩

/-- A rollback by the owner of a transaction, or by a connection that only reads. -/
theorem rollback_idle {z : ZipvfsFile} (hz : s.conn i = some z) :
    ∃ disk, State (V.pager.sqlite3PagerRollback s.storage) (.idle disk) ∧ z.Paged ∧
      a.change i (fun _ => ⟨a.committed, none⟩) = ⟨a.committed, none⟩ ∧
      ∀ w, (∀ z, w = some z → z.file = disk ∧ z.inWriteTrans < 2 ∧ z.nUsrPage = 0 ∧ z.Paged) →
        Idle D Free zName State
          (Sys.setConn { s with storage := V.pager.sqlite3PagerRollback s.storage } i w) disk
          a.committed := by
  by_cases hlow : z.inWriteTrans < 2
  · have hnone := h.idle_of_reader hz hlow
    obtain ⟨disk, hidle⟩ := h.idle hnone
    have hrollback := hV.pager.rollback_idle _ _ (hidle.locked i z hz)
    have hidle' : Idle D Free zName State
        { s with storage := V.pager.sqlite3PagerRollback s.storage } disk a.committed :=
      ⟨hidle.onDisk, hV.pager.begins _ _ hrollback, fun _ _ _ => hrollback, hidle.reader⟩
    refine ⟨disk, hrollback, (hidle.reader i z hz).2.2.2, ?_, ?_⟩
    · rw [change_none hnone, ← hnone]
    · intro w hw
      exact hidle'.setConn fun z hz => ⟨hrollback, hw z hz⟩
  · obtain ⟨t, disk, hworking, rfl, hb⟩ := h.busy_of_writer hz (by omega)
    obtain ⟨disk', hdisk, hidle⟩ := hb.rollback hV
    obtain ⟨_, _, _, hh⟩ := hb.ready.holds
    exact ⟨disk', hidle, hh.image.paged, change_owner hworking _,
      fun w hw => Idle.alone hV.pager hdisk hidle hb.alone hw⟩

theorem unlockShared_follows (hen : Enabled V s (.unlockShared i)) :
    Follows V Ok D Free zName State s a (.unlockShared i) := by
  obtain ⟨z, hz⟩ := hen
  obtain ⟨c, hc⟩ := h.contexts.found _ z hz
  obtain ⟨disk, hrollback, hpaged, hchange, hidle⟩ := rollback_idle hV h hz
  refine ⟨Sys.setConn { s with storage := V.pager.sqlite3PagerRollback s.storage } i
    (some { z with file := disk, disk := disk, inWriteTrans := 0, nUsrPage := 0 }), ?_, ?_⟩
  · simp only [Sys.step, locked_eq V.pager hz, hV.pager.fd _ _ hrollback, bind, Except.bind]
    rfl
  · simp only [Spec.step, hchange]
    refine refines_of_idle (h.contexts.setConn hc _ _) rfl (hidle _ ?_)
    intro w hw
    cases hw
    exact ⟨rfl, Nat.zero_lt_two, rfl, hpaged⟩

/-- Without its lock a connection has no transaction. -/
theorem unlock_refines : Refines D Free zName State Ok (s.unlock V i)
    (a.change i fun _ => ⟨a.committed, none⟩) := by
  rw [Sys.unlock]
  cases hz : s.conn i with
  | none =>
    have hsame : a.change i (fun _ => ⟨a.committed, none⟩) = a := by
      rw [Spec.change]
      cases hworking : a.working with
      | none => rfl
      | some t =>
        obtain ⟨disk, z, hb⟩ := h.busy t hworking
        have hconn := hb.conn
        apply if_neg
        intro heq
        rw [heq, hz] at hconn
        cases hconn
    rw [hsame]
    exact h
  | some z =>
    obtain ⟨disk, _, _, hchange, hidle⟩ := rollback_idle hV h hz
    obtain ⟨c, hc⟩ := h.contexts.found _ z hz
    have hgone := hidle none (by
      intro z hz
      cases hz)
    have hcontexts := h.contexts.setConn hc (V.pager.sqlite3PagerRollback s.storage) none
    rw [hchange]
    exact refines_of_idle ⟨hcontexts.ok, hcontexts.found⟩ rfl
      ⟨hgone.onDisk, hgone.storage, hgone.locked, hgone.reader⟩

omit hV h in
theorem unlock_conn : (s.unlock V i).conn i = none := by
  rw [Sys.unlock]
  cases hz : s.conn i with
  | none => exact hz
  | some z => exact Function.update_self _ _ _

theorem xClose_follows : Follows V Ok D Free zName State s a (.xClose i) := by
  have hunlock := unlock_refines hV h (i := i)
  refine ⟨_, rfl, ?_⟩
  simp only [Spec.step]
  generalize a.change i (fun _ => ⟨a.committed, none⟩) = a' at hunlock
  refine ⟨⟨?_, ?_⟩, ?_, ?_⟩
  · intro j c hc
    by_cases hj : j = i
    · rw [hj] at hc
      simp only [Function.update_self] at hc
      cases hc
    · simp only [Function.update_of_ne hj] at hc
      exact hunlock.contexts.ok j c hc
  · intro j z hz
    have hj : j ≠ i := by
      intro heq
      have hnone : (s.unlock V i).conn i = none := unlock_conn
      rw [heq] at hz
      cases hnone.symm.trans hz
    obtain ⟨c, hc⟩ := hunlock.contexts.found j z hz
    exact ⟨c, (Function.update_of_ne hj _ _).trans hc⟩
  · intro hnone
    obtain ⟨disk, hidle⟩ := hunlock.idle hnone
    exact ⟨disk, hidle.onDisk, hidle.storage, hidle.locked, hidle.reader⟩
  · intro t ht
    obtain ⟨disk, z, hb⟩ := hunlock.busy t ht
    exact ⟨disk, z, hb.onDisk, hb.conn, hb.alone, hb.ready, hb.nUsr, hb.stated, hb.phase⟩

theorem compact_follows {nPgsz nMaxFree : Nat} {nMax : Int}
    (hen : Enabled V s (.compact i nPgsz nMaxFree nMax)) :
    Follows V Ok D Free zName State s a (.compact i nPgsz nMaxFree nMax) := by
  obtain ⟨hconn, hpgsz, hfirst⟩ := hen
  have hnone : a.working = none := by
    apply h.idle_of_readers
    intro j z hz
    rw [show ∀ j, s.conn j = none from hconn] at hz
    cases hz
  obtain ⟨disk, hidle⟩ := h.idle hnone
  obtain ⟨disk', hlock, hidle'⟩ := hidle.sharedLock hV
  obtain ⟨c, disk2, hrun, hok, hstorage, hdisk⟩ := zipvfsCompactFile_spec hV.freelist hV.pager
    hV.lossless hlock hidle'.onDisk (hV.finds i) (fun c hc => h.contexts.ok i c hc) hpgsz hfirst
    nMax
  have hset := h.contexts.setMethods (i := i) hok
  have hidle2 : Idle D Free zName State { s with
      storage := c.storage
      methods := Function.update s.methods i (some c.methods)
      nCompressionBuffer := Function.update s.nCompressionBuffer i c.nCompressionBuffer } disk2
      a.committed := by
    refine ⟨hdisk, hV.pager.begins _ _ hstorage, fun _ _ _ => hstorage, ?_⟩
    intro j z hz
    rw [show ∀ j, s.conn j = none from hconn] at hz
    cases hz
  refine ⟨_, ?_, refines_of_idle ?_ hnone hidle2⟩
  · simp only [Sys.step, hrun, bind, Except.bind]
    rfl
  · exact ⟨hset.ok, hset.found⟩

theorem pagerStress_follows {k : κ} (hen : Enabled V s (.pagerStress k i)) :
    Follows V Ok D Free zName State s a (.pagerStress k i) := by
  obtain ⟨z, hz, htrans⟩ := hen
  obtain ⟨t, disk, hworking, rfl, hb⟩ := h.busy_of_writer hz (by omega)
  obtain ⟨hprepared, hdirty, hsize⟩ := hb.open_of htrans
  refine ⟨{ s with storage := V.pager.pagerStress k s.storage z.file }, ?_,
    refines_of_busy ⟨h.contexts.ok, h.contexts.found⟩ hworking ⟨hb.onDisk, hb.conn, hb.alone,
      hb.ready, hb.nUsr, hb.stated, .inl ⟨hprepared, htrans, ?_, hsize⟩⟩⟩
  · simp only [Sys.step, locked_eq V.pager hz, bind, Except.bind]
    rfl
  · exact hV.pager.stress _ _ _ _ hdirty

theorem crash_follows (k : κ) (gone : Bool) :
    Follows V Ok D Free zName State s a (.crash k gone) := by
  have hcontexts : Contexts Ok (⟨V.pager.crash k gone s.storage, fun _ => none, fun _ => none,
      fun _ => none⟩ : Sys ι σ ρ) := ⟨nofun, nofun⟩
  refine ⟨_, rfl, ?_⟩
  simp only [Spec.step, Spec.crash]
  cases hworking : a.working with
  | none =>
    obtain ⟨disk, hidle⟩ := h.idle hworking
    exact refines_of_idle hcontexts hworking
      ⟨hidle.onDisk, hV.pager.crash_dirty _ _ _ _ hidle.storage, nofun, nofun⟩
  | some t =>
    obtain ⟨disk, z, hb⟩ := h.busy t hworking
    rcases hb.phase with ⟨hprepared, _, hdirty, _⟩ | ⟨hprepared, _, hsynced, _, hheader⟩
    · simp only [hprepared]
      exact refines_of_idle hcontexts rfl
        ⟨hb.onDisk, hV.pager.crash_dirty _ _ _ _ hdirty, nofun, nofun⟩
    · have hcrash := hV.pager.crash_synced k gone _ _ _ _ hsynced
      simp only [hprepared]
      cases gone with
      | false => exact refines_of_idle hcontexts rfl ⟨hb.onDisk, hcrash, nofun, nofun⟩
      | true =>
        exact refines_of_idle hcontexts rfl
          ⟨hb.ready.onDisk hV.freelist hheader, hcrash, nofun, nofun⟩

theorem step_follows {op : Op ι κ} (hen : Enabled V s op) :
    Follows V Ok D Free zName State s a op := by
  cases op with
  | lockShared i nPgsz nMaxFree => exact lockShared_follows hV h hen
  | lockReserved i => exact lockReserved_follows h hen
  | lockExclusive i => exact lockExclusive_follows hV h hen
  | xRead i iAmt iOfst => exact xRead_follows hV h hen
  | xWrite i zBuf iOfst => exact xWrite_follows hV h hen
  | xTruncate i size => exact xTruncate_follows hV h hen
  | xFileSize i => exact xFileSize_follows hV h hen
  | sync i zMaster => exact sync_follows hV h hen
  | commitPhaseTwo i => exact commitPhaseTwo_follows hV h hen
  | unlockShared i => exact unlockShared_follows hV h hen
  | unlockNone i => exact ⟨_, rfl, unlock_refines hV h⟩
  | xClose i => exact xClose_follows hV h
  | compact i nPgsz nMaxFree nMax => exact compact_follows hV h hen
  | pagerStress k i => exact pagerStress_follows hV h hen
  | crash k gone => exact crash_follows hV h k gone

end

/-- Behind a rollback with xUnlock(SHARED) a connection still has the size that the file had in the
transaction, which is not the size of the file. -/
theorem unlockShared_xFileSize {ι σ ρ κ : Type} [DecidableEq ι] (V : Vfs ι σ ρ κ) (s : Sys ι σ ρ)
    (i : ι) (z : ZipvfsFile) (hz : s.conn i = some z) :
    ∃ s', s.step V (.unlockShared i) = .ok (s', .done) ∧
      s'.step V (.xFileSize i) = .ok (s', .size z.hdr.iSize) := by
  let r := V.pager.sqlite3PagerRollback s.storage
  refine ⟨Sys.setConn { s with storage := r } i (some { z with
    file := V.pager.fd r, disk := V.pager.fd r, inWriteTrans := 0, nUsrPage := 0 }), ?_, ?_⟩
  · simp only [Sys.step, locked_eq V.pager hz, bind, Except.bind]
    rfl
  · simp only [Sys.step, locked_eq V.pager (setConn_self _), bind, Except.bind]
    rfl

/-- The connections to a file that nobody has opened yet. -/
def Sys.new {ι σ ρ : Type} (storage : ρ) : Sys ι σ ρ :=
  ⟨storage, fun _ => none, fun _ => none, fun _ => none⟩

def Spec.new {ι : Type} : Spec ι := ⟨PlainFile.empty, none⟩

theorem refines_new {ι σ ρ κ : Type} {V : Vfs ι σ ρ κ} {Ok : σ → Prop}
    {D : List UInt8 → List UInt8 → Prop} {Free : ZipvfsFile → Set (Nat × Nat) → Prop}
    {zName : List UInt8} {State : ρ → Durable → Prop} (hV : V.Correct Ok D Free zName State)
    {storage : ρ} (hnew : State storage (.idle PlainFile.empty)) :
    Refines D Free zName State Ok (Sys.new storage : Sys ι σ ρ) Spec.new :=
  refines_of_idle ⟨nofun, nofun⟩ rfl
    ⟨onDisk_empty hV.freelist, hV.pager.begins _ _ hnew, nofun, nofun⟩

/-- A page of 512 bytes that starts with the bytes. -/
def pageOf (bs : List UInt8) : List UInt8 := bs ++ List.replicate (512 - bs.length) 0

/-- The first page of a database, which states the size of a page and that there are two. -/
def firstPage : List UInt8 :=
  pageOf (List.replicate 16 1 ++ [2, 0] ++ List.replicate 10 0 ++ [0, 0, 0, 2])

/-- The calls of two connections. -/
def transactions : List (Op Bool Unit) :=
  [.lockShared true 512 100, .lockExclusive true, .xWrite true firstPage 0,
    .xWrite true (pageOf (List.replicate 50 7)) 512, .sync true false, .xRead true 4 512,
    -- the second page gets a longer record, whose old slot stays in the list
    .lockExclusive true, .xWrite true (pageOf (List.replicate 90 8)) 512, .sync true false,
    .unlockNone true, .lockShared false 512 100, .lockShared true 512 100, .xRead false 4 512,
    .unlockNone true,
    -- the third page takes the slot, and is lost in a crash
    .lockReserved false, .lockExclusive false, .xWrite false (pageOf (List.replicate 50 9)) 1024,
    .pagerStress () false, .xRead false 4 1024, .crash () false,
    .lockShared true 512 100, .xFileSize true, .xRead true 4 512,
    -- it is undone by the connection
    .lockExclusive true, .xWrite true (pageOf (List.replicate 50 9)) 1024, .unlockShared true,
    .unlockNone true,
    -- its master journal is gone when everything crashes
    .lockShared true 512 100, .lockExclusive true,
    .xWrite true (pageOf (List.replicate 50 9)) 1024, .sync true true, .crash () true,
    .lockShared false 512 100, .xFileSize false, .xRead false 4 1024,
    -- the slot is free again, and a compaction gives it up
    .lockExclusive false, .xTruncate false 1024, .sync false false, .xClose false,
    .compact true 512 100 0, .lockShared true 512 100, .xFileSize true, .xRead true 4 512]

end NdsDevkit.Zipvfs
