import NdsDevkit.Zipvfs.Slots

namespace NdsDevkit.Zipvfs

open Framework ZipvfsFile

/-- What the pager does to the file `fd` and the journals beside it, which lie in `ρ`. `pagerStress`
writes pages of the cache early. `κ` has what the pager does not control. After a crash the `Bool`
says whether the master journal is gone. -/
structure Pager (ρ κ : Type) where
  fd : ρ → PlainFile
  sqlite3PagerSharedLock : ρ → ρ
  sqlite3PagerCommitPhaseOne : ρ → PlainFile → Bool → ρ × PlainFile
  sqlite3PagerCommitPhaseTwo : ρ → ρ
  sqlite3PagerRollback : ρ → ρ
  pagerStress : κ → ρ → PlainFile → ρ
  crash : κ → Bool → ρ → ρ

/-- What the file and its journals stand for: a file without a hot journal; one that a rollback
turns into `f`; or the file `g` after the first phase of a commit, which a rollback turns into
`f`. -/
inductive Durable where
  | idle (f : PlainFile)
  | dirty (f : PlainFile)
  | synced (zMaster : Bool) (f g : PlainFile)

/-- What a rollback gives. -/
def Durable.before : Durable → PlainFile
  | .idle f => f
  | .dirty f => f
  | .synced _ f _ => f

/-- A rollback restores the file, with zeros behind it at most. The second phase of a commit, or the
loss of the master journal, makes the new file final. A file that gets shorter is not committed
under a master journal: it is cut off behind the second phase. -/
structure Pager.Atomic {ρ κ : Type} (P : Pager ρ κ) (State : ρ → Durable → Prop) : Prop where
  fd : ∀ r f, State r (.idle f) → P.fd r = f
  begins : ∀ r f, State r (.idle f) → State r (.dirty f)
  sharedLock_idle : ∀ r f, State r (.idle f) → State (P.sqlite3PagerSharedLock r) (.idle f)
  sharedLock_dirty : ∀ r f, State r (.dirty f) →
    ∃ f', f.Extends f' ∧ State (P.sqlite3PagerSharedLock r) (.idle f')
  rollback_idle : ∀ r f, State r (.idle f) → State (P.sqlite3PagerRollback r) (.idle f)
  rollback : ∀ r d, State r d →
    ∃ f', d.before.Extends f' ∧ State (P.sqlite3PagerRollback r) (.idle f')
  stress : ∀ k r f g, State r (.dirty f) → State (P.pagerStress k r g) (.dirty f)
  phaseOne : ∀ r f g zMaster, State r (.dirty f) → (zMaster = true → f.size ≤ g.size) →
    State (P.sqlite3PagerCommitPhaseOne r g zMaster).1
      (.synced zMaster f (P.sqlite3PagerCommitPhaseOne r g zMaster).2) ∧
      Stamped g (P.sqlite3PagerCommitPhaseOne r g zMaster).2
  phaseTwo : ∀ r zMaster f g, State r (.synced zMaster f g) →
    State (P.sqlite3PagerCommitPhaseTwo r) (.idle g)
  crash_dirty : ∀ k gone r f, State r (.dirty f) → State (P.crash k gone r) (.dirty f)
  crash_synced : ∀ k gone r zMaster f g, State r (.synced zMaster f g) →
    State (P.crash k gone r) (.dirty (if zMaster && gone then g else f))

/-- A file with a journal that has the whole file as it was, and whether the journal has the name of
a master journal. -/
structure UndoJournal where
  fd : PlainFile
  jfd : Option (PlainFile × Bool)

namespace UndoJournal

/-- The file that a rollback restores. -/
def before (r : UndoJournal) : PlainFile := (r.jfd.map Prod.fst).getD r.fd

/-- Counts the commit in the first page. -/
def writeChangecounter (g : PlainFile) : PlainFile :=
  if 100 ≤ g.size then
    let change_counter := putBytes 4 ((getBytes (g.read 24 4) + 1) % 2 ^ 32)
    (g.write 24 change_counter).write 92 (change_counter ++ putBytes 4 3008004)
  else g

def pager : Pager UndoJournal Unit where
  fd := UndoJournal.fd
  sqlite3PagerSharedLock := fun r => ⟨r.before, none⟩
  sqlite3PagerCommitPhaseOne := fun r g zMaster =>
    (⟨writeChangecounter g, some (r.before, zMaster)⟩, writeChangecounter g)
  sqlite3PagerCommitPhaseTwo := fun r => ⟨r.fd, none⟩
  sqlite3PagerRollback := fun r => ⟨r.before, none⟩
  pagerStress := fun _ r g => ⟨g, some (r.before, false)⟩
  crash := fun _ gone r =>
    match r.jfd with
    | none => r
    | some (f, zMaster) =>
      if zMaster && gone then ⟨r.fd, none⟩ else ⟨r.fd, some (f, false)⟩

/-- What the file and its journal stand for. -/
def State (r : UndoJournal) : Durable → Prop
  | .idle f => r.fd = f ∧ r.jfd = none
  | .dirty f => r.fd = f ∧ r.jfd = none ∨ r.jfd = some (f, false)
  | .synced zMaster f g => r.fd = g ∧ r.jfd = some (f, zMaster)

theorem State.before {r : UndoJournal} {d : Durable} (h : r.State d) : r.before = d.before := by
  cases d with
  | idle f =>
    obtain ⟨hfd, hjfd⟩ := h
    rw [UndoJournal.before, hjfd]
    exact hfd
  | dirty f =>
    rcases h with ⟨hfd, hjfd⟩ | hjfd
    · rw [UndoJournal.before, hjfd]
      exact hfd
    · rw [UndoJournal.before, hjfd]
      rfl
  | synced zMaster f g =>
    rw [UndoJournal.before, h.2]
    rfl

theorem writeChangecounter_stamped (g : PlainFile) : Stamped g (writeChangecounter g) := by
  rw [writeChangecounter]
  by_cases hsize : 100 ≤ g.size
  · rw [if_pos hsize]
    constructor
    · simp only [PlainFile.write, List.length_append, length_putBytes]
      omega
    · intro i hi
      simp only [PlainFile.write]
      rw [Cells.put_of_not_mem _ (by simp only [List.length_append, length_putBytes]; omega),
        Cells.put_of_not_mem _ (by rw [length_putBytes]; omega)]
  · rw [if_neg hsize]
    exact ⟨rfl, fun _ _ => rfl⟩

theorem pager_atomic : pager.Atomic State where
  fd := fun _ _ h => h.1
  begins := fun _ _ h => .inl h
  sharedLock_idle := fun _ _ h => ⟨h.before, rfl⟩
  sharedLock_dirty := fun _ f h => ⟨f, PlainFile.Extends.refl f, h.before, rfl⟩
  rollback_idle := fun _ _ h => ⟨h.before, rfl⟩
  rollback := fun _ d h => ⟨d.before, PlainFile.Extends.refl _, h.before, rfl⟩
  stress := by
    intro _ r f g h
    exact .inr (congrArg (fun f => some (f, false)) h.before)
  phaseOne := by
    intro r f g zMaster h _
    exact ⟨⟨rfl, congrArg (fun f => some (f, zMaster)) h.before⟩, writeChangecounter_stamped g⟩
  phaseTwo := fun _ _ _ _ h => ⟨h.1, rfl⟩
  crash_dirty := by
    intro _ gone r f h
    rcases h with ⟨hfd, hjfd⟩ | hjfd
    · simp only [pager, hjfd]
      exact .inl ⟨hfd, hjfd⟩
    · simp only [pager, hjfd]
      exact .inr rfl
  crash_synced := by
    intro _ gone r zMaster f g h
    obtain ⟨hfd, hjfd⟩ := h
    simp only [pager, hjfd]
    cases hgone : zMaster && gone with
    | false => exact .inr rfl
    | true => exact .inl ⟨hfd, rfl⟩

end UndoJournal

end NdsDevkit.Zipvfs
