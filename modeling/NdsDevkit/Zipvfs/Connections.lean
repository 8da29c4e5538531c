import NdsDevkit.Framework.Simulation
import NdsDevkit.Zipvfs.Compacting

namespace NdsDevkit.Zipvfs

open Framework ZipvfsFile

/-- Syncs a file: the transaction is committed, or only its first phase is done if there is a
master journal. -/
def zipvfsDoSync {ρ κ : Type} (P : Pager ρ κ) (fl : FreeList) (storage : ρ) (z : ZipvfsFile)
    (zMaster : Bool) : Except ErrorCode (ρ × ZipvfsFile) :=
  if z.inWriteTrans < 2 then throw .SQLITE_IOERR_ZIPVFS05
  else if zMaster then do
    let (storage, z) ← zipvfsCommitTransactionOne P fl storage z true
    return (storage, { z with inWriteTrans := 3 })
  else zipvfsCommitTransaction P fl storage z

def zipvfsDoCommit {ρ κ : Type} (P : Pager ρ κ) (storage : ρ) (z : ZipvfsFile) : ρ × ZipvfsFile :=
  if z.inWriteTrans = 3 then zipvfsCommitTransactionTwo P storage z else (storage, z)

/-- What the connections to a file are made of. Each one looks up its callbacks with its own
name. -/
structure Vfs (ι σ ρ κ : Type) where
  pager : Pager ρ κ
  freelist : FreeList
  methods : ZipvfsMethods σ
  xGetMethods : ι → Option (List UInt8) → Except ErrorCode (Option σ)

/-- The connections to one file. Each keeps its callbacks and its buffer from one lock to the
next. -/
structure Sys (ι σ ρ : Type) where
  storage : ρ
  conn : ι → Option ZipvfsFile
  methods : ι → Option σ
  nCompressionBuffer : ι → Option Nat

/-- The calls that the connections make. In between the pager may write pages early, and all
connections may be lost in a crash. -/
inductive Op (ι κ : Type) where
  | lockShared (i : ι) (nPgsz nMaxFree : Nat)
  | lockReserved (i : ι)
  | lockExclusive (i : ι)
  | xRead (i : ι) (iAmt iOfst : Nat)
  | xWrite (i : ι) (zBuf : List UInt8) (iOfst : Nat)
  | xTruncate (i : ι) (size : Nat)
  | xFileSize (i : ι)
  | sync (i : ι) (zMaster : Bool)
  | commitPhaseTwo (i : ι)
  | unlockShared (i : ι)
  | unlockNone (i : ι)
  | xClose (i : ι)
  | compact (i : ι) (nPgsz nMaxFree : Nat) (nMax : Int)
  | pagerStress (k : κ) (i : ι)
  | crash (k : κ) (gone : Bool)

/-- What a call gives back. The return code of a compaction is left out. -/
inductive Output where
  | done
  | data (zBuf : List UInt8) (short : Bool)
  | size (n : Nat)
  deriving DecidableEq

namespace Sys

variable {ι σ ρ κ : Type} [DecidableEq ι]

def setConn (s : Sys ι σ ρ) (i : ι) (z : Option ZipvfsFile) : Sys ι σ ρ :=
  { s with conn := Function.update s.conn i z }

/-- The connection of a call that needs a lock, with the file as it is on disk. -/
def locked (s : Sys ι σ ρ) (P : Pager ρ κ) (i : ι) : Except ErrorCode ZipvfsFile :=
  match s.conn i with
  | none => throw .SQLITE_MISUSE
  | some z => return { z with disk := P.fd s.storage }

/-- The context of the callbacks of a connection. -/
def context (s : Sys ι σ ρ) (i : ι) : Except ErrorCode σ :=
  match s.methods i with
  | none => throw .SQLITE_MISUSE
  | some c => return c

variable (V : Vfs ι σ ρ κ)

/-- Gives up the shared lock. A transaction that is open is rolled back. -/
def unlock (s : Sys ι σ ρ) (i : ι) : Sys ι σ ρ :=
  match s.conn i with
  | none => s
  | some z =>
    { s with
      storage := V.pager.sqlite3PagerRollback s.storage
      conn := Function.update s.conn i none
      nCompressionBuffer := Function.update s.nCompressionBuffer i z.nCompressionBuffer }

/-- One call. -/
def step (s : Sys ι σ ρ) : Op ι κ → Except ErrorCode (Sys ι σ ρ × Output)
  | .lockShared i nPgsz nMaxFree => do
    let (storage, c, z) ← zipvfsLockFile V.pager (V.xGetMethods i) s.storage (s.methods i) nPgsz
      nMaxFree (s.nCompressionBuffer i)
    let s := { s with storage, methods := Function.update s.methods i (some c) }
    return (s.setConn i (some z), .done)
  | .lockReserved i => do
    let z ← s.locked V.pager i
    let z := if z.inWriteTrans = 0 then { z with inWriteTrans := 1 } else z
    return (s.setConn i (some z), .done)
  | .lockExclusive i => do
    let z ← s.locked V.pager i
    return (s.setConn i (some { z with inWriteTrans := 2 }), .done)
  | .xRead i iAmt iOfst => do
    let z ← s.locked V.pager i
    let c ← s.context i
    let (c, z, zBuf, short) ← zipvfsRead V.methods c z iAmt iOfst
    let s := { s with methods := Function.update s.methods i (some c) }
    return (s.setConn i (some z), .data zBuf short)
  | .xWrite i zBuf iOfst => do
    let z ← s.locked V.pager i
    let c ← s.context i
    let z ← zipvfsWrite V.freelist V.methods c z zBuf iOfst
    return (s.setConn i (some z), .done)
  | .xTruncate i size => do
    let z ← s.locked V.pager i
    let z ← zipvfsTruncate V.freelist z size
    return (s.setConn i (some z), .done)
  | .xFileSize i => do
    let z ← s.locked V.pager i
    return (s, .size z.hdr.iSize)
  | .sync i zMaster => do
    let z ← s.locked V.pager i
    let (storage, z) ← zipvfsDoSync V.pager V.freelist s.storage z zMaster
    return ({ s with storage }.setConn i (some z), .done)
  | .commitPhaseTwo i => do
    let z ← s.locked V.pager i
    let (storage, z) := zipvfsDoCommit V.pager s.storage z
    return ({ s with storage }.setConn i (some z), .done)
  | .unlockShared i => do
    let z ← s.locked V.pager i
    let storage := V.pager.sqlite3PagerRollback s.storage
    let file := V.pager.fd storage
    let z := { z with file, disk := file, inWriteTrans := 0, nUsrPage := 0 }
    return ({ s with storage }.setConn i (some z), .done)
  | .unlockNone i => return (s.unlock V i, .done)
  | .xClose i =>
    let s := s.unlock V i
    return ({ s with
      methods := Function.update s.methods i none
      nCompressionBuffer := Function.update s.nCompressionBuffer i none }, .done)
  | .compact i nPgsz nMaxFree nMax => do
    let c ← zipvfsCompactFile V.pager V.freelist V.methods (V.xGetMethods i) s.storage (s.methods i)
      nPgsz nMaxFree (s.nCompressionBuffer i) nMax
    return ({ s with
      storage := c.storage
      methods := Function.update s.methods i (some c.methods)
      nCompressionBuffer := Function.update s.nCompressionBuffer i c.nCompressionBuffer }, .done)
  | .pagerStress k i => do
    let z ← s.locked V.pager i
    return ({ s with storage := V.pager.pagerStress k s.storage z.file }, .done)
  | .crash k gone =>
    return (⟨V.pager.crash k gone s.storage, fun _ => none, fun _ => none, fun _ => none⟩, .done)

end Sys

/-- A transaction: its owner, its version of the file, the size in bytes that the file states in its
header, or 0, and whether it is ready to be committed with the master journal. -/
structure Transaction (ι : Type) where
  owner : ι
  file : PlainFile
  nUsr : Nat
  prepared : Bool

/-- A plain file that transactions change as a whole. -/
structure Spec (ι : Type) where
  committed : PlainFile
  working : Option (Transaction ι)

namespace Spec

variable {ι κ : Type} [DecidableEq ι]

/-- The file that a connection sees. -/
def view (a : Spec ι) (i : ι) : PlainFile :=
  match a.working with
  | some t => if t.owner = i then t.file else a.committed
  | none => a.committed

/-- The file with the size that it states. -/
def resized (f : PlainFile) (nUsr : Nat) : PlainFile := if nUsr = 0 then f else f.truncate nUsr

/-- What one call does to the transaction of its connection. -/
def change (a : Spec ι) (i : ι) (g : Transaction ι → Spec ι) : Spec ι :=
  match a.working with
  | some t => if t.owner = i then g t else a
  | none => a

/-- The transaction is lost, unless the master journal decides for it. -/
def crash (a : Spec ι) (gone : Bool) : Spec ι :=
  match a.working with
  | some t => ⟨if t.prepared && gone then t.file else a.committed, none⟩
  | none => a

def step (a : Spec ι) : Op ι κ → Spec ι × Output
  | .lockShared .. => (a, .done)
  | .lockReserved _ => (a, .done)
  | .lockExclusive i => (⟨a.committed, some ⟨i, a.committed, 0, false⟩⟩, .done)
  | .xRead i iAmt iOfst =>
    (a, .data ((a.view i).read iOfst iAmt) (decide ((a.view i).size ≤ iOfst)))
  | .xWrite i zBuf iOfst =>
    (a.change i fun t => { a with working := some { t with
      file := t.file.write iOfst zBuf
      nUsr := if iOfst = 0 then getBytes ((zBuf.drop 28).take 4) * zBuf.length else t.nUsr } },
      .done)
  | .xTruncate i size =>
    (a.change i fun t =>
      { a with working := some { t with file := t.file.truncate size, nUsr := 0 } }, .done)
  | .xFileSize i => (a, .size (a.view i).size)
  | .sync i zMaster =>
    (a.change i fun t =>
      if zMaster then ⟨a.committed, some ⟨i, resized t.file t.nUsr, 0, true⟩⟩
      else ⟨resized t.file t.nUsr, none⟩, .done)
  | .commitPhaseTwo i => (a.change i fun t => ⟨t.file, none⟩, .done)
  | .unlockShared i => (a.change i fun _ => ⟨a.committed, none⟩, .done)
  | .unlockNone i => (a.change i fun _ => ⟨a.committed, none⟩, .done)
  | .xClose i => (a.change i fun _ => ⟨a.committed, none⟩, .done)
  | .compact .. => (a, .done)
  | .pagerStress .. => (a, .done)
  | .crash _ gone => (a.crash gone, .done)

end Spec

end NdsDevkit.Zipvfs
