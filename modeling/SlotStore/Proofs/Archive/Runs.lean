import SlotStore.Proofs.Archive.Loading

/-!
Runs of an archive: what users do with it, one operation after another, starting with a new file.
The archive stands for a map throughout, also across reopening under other settings.
-/

namespace SlotStore

/-- A byte string in memory; its length is a signed word. -/
abbrev Blob := { bytes : Bytes // bytes.length < 2 ^ 63 }

/-- The operations of an archive, with their arguments. Reopening closes the archive and opens its
file again. -/
inductive ArchiveAct where
  | write (key : ContentKey) (blob : Blob) (overwrite : Bool)
  | put (blob : Blob)
  | delete (key : ContentKey)
  | replaceKey (old new : ContentKey)
  | flush
  | reopen (settings : Settings)

/-- What an operation that succeeds makes of the map. -/
def ArchiveAct.effect (map : KeyMap) : ArchiveAct → KeyMap
  | .write key blob _ => map.insert key blob
  | .put blob =>
    if (map (ContentKey.digest blob)).isSome then map else map.insert (ContentKey.digest blob) blob
  | .delete key => map.erase key
  | .replaceKey old new => map.rename old new
  | .flush | .reopen _ => map

namespace Archive

/-- The archive after it was closed and opened again, if both succeed. -/
def reopen (archive : Archive) (settings : Settings) : Option Archive :=
  match archive.close with
  | (.error _, _) => none
  | (.ok (), file) => (openFile file settings).1.toOption

/-- What comes of an operation, and the archive that it leaves behind. There is no going on after a
flush or a reopening that fails. -/
def perform (archive : Archive) : ArchiveAct → Option (Attempt Archive Unit)
  | .write key blob overwrite => some (archive.write key blob overwrite)
  | .put blob => some ((archive.put blob).1.map fun _ => (), (archive.put blob).2)
  | .delete key => some (archive.delete key)
  | .replaceKey old new => some (archive.replaceKey old new)
  | .flush =>
    match archive.flush with
    | (.error _, _) => none
    | (.ok (), next) => some (.ok (), next)
  | .reopen settings => (archive.reopen settings).map fun next => (.ok (), next)

theorem flush_of_perform {archive next : Archive} {result : Except Fault Unit}
    (performed : archive.perform .flush = some (result, next)) :
    result = .ok () ∧ archive.flush = (.ok (), next) := by
  unfold Archive.perform at performed
  rcases flushed : archive.flush with ⟨_ | _, stored⟩
  · rw [flushed] at performed
    cases performed
  · rw [flushed] at performed
    cases performed
    exact ⟨rfl, rfl⟩

theorem reopen_of_perform {archive next : Archive} {settings : Settings}
    {result : Except Fault Unit} (performed : archive.perform (.reopen settings) = some (result, next)) :
    result = .ok () ∧ archive.reopen settings = some next := by
  obtain ⟨_, reopened, same⟩ := Option.map_eq_some_iff.mp performed
  cases same
  exact ⟨rfl, reopened⟩

theorem of_perform {archive next : Archive} {motive : Archive → Prop}
    (write : ∀ (key : ContentKey) (blob : Blob) (overwrite : Bool),
      motive (archive.write key blob overwrite).2)
    (put : ∀ blob : Blob, motive (archive.put blob).2)
    (delete : ∀ key : ContentKey, motive (archive.delete key).2)
    (replaceKey : ∀ old new : ContentKey, motive (archive.replaceKey old new).2)
    (flush : motive archive.flush.2)
    (reopen : ∀ (settings : Settings) (next : Archive),
      archive.reopen settings = some next → motive next)
    {act : ArchiveAct} {result : Except Fault Unit}
    (performed : archive.perform act = some (result, next)) : motive next := by
  cases act with
  | write key blob overwrite =>
    have done := write key blob overwrite
    rw [Option.some.inj performed] at done
    exact done
  | put blob =>
    obtain ⟨rfl, rfl⟩ := Prod.mk.inj (Option.some.inj performed)
    exact put blob
  | delete key =>
    have done := delete key
    rw [Option.some.inj performed] at done
    exact done
  | replaceKey old new =>
    have done := replaceKey old new
    rw [Option.some.inj performed] at done
    exact done
  | flush =>
    rw [(flush_of_perform performed).2] at flush
    exact flush
  | reopen settings => exact reopen settings _ (reopen_of_perform performed).2

/-- The archives that operations lead to from a new file, with the maps that the same operations
make of the empty one. -/
inductive Follows : Archive → KeyMap → Prop where
  | created {settings : Settings} {archive : Archive} {file : File}
      (opened : openFile .empty settings = (.ok archive, file)) : Follows archive .empty
  | step {archive next : Archive} {map : KeyMap} {result : Except Fault Unit}
      (follows : Follows archive map) (act : ArchiveAct) (performed : archive.perform act = some (result, next)) :
      Follows next (map.after result (act.effect map))

variable {archive : Archive} {map : KeyMap}

/-- Reopening comes down to a flush that succeeds and to forgetting what is not stored. -/
theorem Holds.reopen_eq (holds : archive.Holds map) {settings : Settings} {next : Archive}
    (reopened : archive.reopen settings = some next) :
    ∃ stored, archive.flush = (.ok (), stored) ∧ stored.Holds map ∧ stored.unsaved = false ∧
      settings.check = .ok () ∧ next = stored.reloaded settings := by
  unfold Archive.reopen at reopened
  rcases closed : archive.close with ⟨_ | _, file⟩
  · rw [closed] at reopened
    cases reopened
  · rw [closed] at reopened
    obtain ⟨stored, flushed, kept, saved, rfl⟩ := close_ok closed holds
    simp only at reopened
    rcases opened : Archive.openFile stored.container.file settings with ⟨_ | back, after⟩
    · rw [opened] at reopened
      cases reopened
    · obtain ⟨legalArchive, container, between, found, _⟩ := openFile_cases opened
      have legal := Settings.check_eq_ok_iff.mpr ⟨(Container.openFile_ok found).1, legalArchive⟩
      rw [kept.openFile saved legal] at reopened
      cases reopened
      exact ⟨stored, flushed, kept, saved, legal, rfl⟩

theorem Holds.reopen (holds : archive.Holds map) {settings : Settings} {next : Archive}
    (reopened : archive.reopen settings = some next) : next.Holds map := by
  obtain ⟨stored, _, kept, saved, legal, rfl⟩ := holds.reopen_eq reopened
  exact kept.reloaded saved legal

theorem KeyMap.after_map {Value Other : Type} (map : KeyMap) (result : Except Fault Value)
    (change : Value → Other) (changed : KeyMap) :
    map.after (result.map change) changed = map.after result changed := by
  cases result <;> rfl

/-- Every operation keeps the invariant, for the map that it leads to. -/
theorem Holds.perform (holds : archive.Holds map) {act : ArchiveAct} {result : Except Fault Unit}
    {next : Archive} (performed : archive.perform act = some (result, next)) :
    next.Holds (map.after result (act.effect map)) := by
  cases act with
  | write key blob overwrite =>
    have kept := holds.write key blob.2 overwrite
    rw [Option.some.inj performed] at kept
    exact kept
  | put blob =>
    have kept := holds.putBlob blob.2
    obtain ⟨rfl, rfl⟩ := Prod.mk.inj (Option.some.inj performed)
    rw [KeyMap.after_map]
    exact kept
  | delete key =>
    have kept := holds.delete key
    rw [Option.some.inj performed] at kept
    exact kept
  | replaceKey old new =>
    have kept := holds.replaceKey old new
    rw [Option.some.inj performed] at kept
    exact kept
  | flush =>
    obtain ⟨rfl, flushed⟩ := flush_of_perform performed
    exact (holds.flush flushed).1
  | reopen settings =>
    obtain ⟨rfl, reopened⟩ := reopen_of_perform performed
    exact holds.reopen reopened

/-- The invariant holds throughout a run. -/
theorem Follows.holds (follows : Follows archive map) : archive.Holds map := by
  induction follows with
  | created opened => exact holds_openFile_empty opened
  | step _ _ performed kept => exact kept.perform performed

/-- A file can be opened as an archive under all legal settings, and the archive shows the map. -/
def Restores (file : File) (map : KeyMap) : Prop :=
  ∀ settings : Settings, settings.check = .ok () →
    ∃ opened, openFile file settings = (.ok opened, file) ∧ opened.Shows map

theorem Holds.restores (holds : archive.Holds map) (saved : archive.unsaved = false) :
    Restores archive.container.file map :=
  fun _ legal => ⟨_, holds.openFile saved legal, (holds.reloaded saved legal).shows⟩

/-- An archive refines a map. After every run of operations of which no flush and no close failed,
it shows the map that the operations make of the empty one, and the map tells which operations
succeed next. The same map is shown, under any legal settings, by the archive in its file while
nothing is unsaved, and by the one in the file that a close leaves. -/
theorem map_of_follows (follows : Follows archive map) :
    archive.Shows map ∧ archive.Answers map ∧
      (archive.unsaved = false → Restores archive.container.file map) ∧
      ∀ file, archive.close = (.ok (), file) → Restores file map := by
  have holds := follows.holds
  refine ⟨holds.shows, holds.answers, holds.restores, fun file closed => ?_⟩
  obtain ⟨stored, _, kept, saved, rfl⟩ := close_ok closed holds
  exact kept.restores saved

theorem map_of_first_blob :
    ∃ archive, Follows archive (KeyMap.empty.insert (ContentKey.replicate 7) [1, 2, 3]) ∧
      archive.get (ContentKey.replicate 7) = .ok [1, 2, 3] ∧
      Restores archive.container.file (KeyMap.empty.insert (ContentKey.replicate 7) [1, 2, 3]) := by
  have ran : ((openFile .empty {}).1.toOption.map fun archive =>
      let written := archive.write (ContentKey.replicate 7) [1, 2, 3] false
      (written.1, written.2.flush.1)) = some (.ok (), .ok ()) := by decide +kernel
  rcases opened : openFile .empty {} with ⟨_ | archive, file⟩
  · rw [opened] at ran
    cases ran
  · rcases written : archive.write (ContentKey.replicate 7) [1, 2, 3] false with ⟨result, changed⟩
    rcases flushed : changed.flush with ⟨outcome, stored⟩
    rw [opened] at ran
    simp only [Except.toOption, Option.map_some, written, flushed] at ran
    obtain ⟨rfl, rfl⟩ := Prod.mk.inj (Option.some.inj ran)
    have first : Follows changed (KeyMap.empty.insert (ContentKey.replicate 7) [1, 2, 3]) :=
      .step (.created opened) (.write (ContentKey.replicate 7) ⟨[1, 2, 3], by decide⟩ false)
        (congrArg some written)
    have saved : stored.unsaved = false := (first.holds.flush flushed).2
    have follows : Follows stored (KeyMap.empty.insert (ContentKey.replicate 7) [1, 2, 3]) :=
      .step first .flush (by rw [perform, flushed])
    obtain ⟨shows, _, restores, _⟩ := map_of_follows follows
    refine ⟨stored, follows, ?_, restores saved⟩
    rw [shows.get]
    rfl

end Archive

end SlotStore
