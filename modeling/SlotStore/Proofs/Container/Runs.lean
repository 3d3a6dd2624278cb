import SlotStore.Proofs.Container.Append
import SlotStore.Proofs.Container.Contents
import SlotStore.Proofs.Container.Loading

/-!
Runs of a container: the operations that users carry out on it, one after another, starting with a
new container. Every operation keeps the invariant, so it holds of every container that can be
reached, whatever failed on the way.
-/

namespace SlotStore

/-- What a user does with a writer before it is closed. -/
inductive WriterAct where
  | write (data : Bytes)
  | writeAll (data : Bytes)
  | seek (target : SeekTarget)
deriving DecidableEq, Repr

namespace SlotWriter

def perform (writer : SlotWriter) (file : File) : WriterAct → SlotWriter × File
  | .write data => (writer.write file data).2
  | .writeAll data => (writer.writeAll file data).2
  | .seek target => ((writer.seek target).2, file)

/-- Carries out acts one after another, also after one that failed. -/
def performAll (writer : SlotWriter) (file : File) : List WriterAct → SlotWriter × File
  | [] => (writer, file)
  | act :: rest => (writer.perform file act).1.performAll (writer.perform file act).2 rest

def logOf (writer : SlotWriter) : WriterAct → List (Nat × Bytes)
  | .write data => writer.stores data
  | .writeAll data => writer.storesAll data
  | .seek _ => []

def log (writer : SlotWriter) (file : File) : List WriterAct → List (Nat × Bytes)
  | [] => []
  | act :: rest =>
    writer.logOf act ++ (writer.perform file act).1.log (writer.perform file act).2 rest

theorem logged_perform (writer : SlotWriter) (file : File) (act : WriterAct) :
    Logged writer file (writer.logOf act) (writer.perform file act).1
      (writer.perform file act).2 := by
  cases act with
  | write data => exact writer.logged_write file data
  | writeAll data => exact writer.logged_writeAll file data
  | seek target => exact writer.logged_seek file target

theorem logged_performAll (writer : SlotWriter) (file : File) (acts : List WriterAct) :
    Logged writer file (writer.log file acts) (writer.performAll file acts).1
      (writer.performAll file acts).2 := by
  induction acts generalizing writer file with
  | nil => exact logged_refl writer file
  | cons act rest ih => exact (writer.logged_perform file act).trans (ih _ _)

theorem inside_performAll (writer : SlotWriter) (file : File) (acts : List WriterAct) :
    Inside writer file (writer.performAll file acts).1 (writer.performAll file acts).2 :=
  (writer.logged_performAll file acts).within

end SlotWriter

/-- The operations of a container, with their arguments. Reopening closes the container and opens
its file again. -/
inductive ContainerAct where
  | newEntry (size : Nat)
  | append (acts : List AppendAct) (ending : AppendEnd)
  | view (index : Nat) (acts : List WriterAct)
  | write (index : Nat) (data : Bytes) (pos : Nat)
  | release (index : Nat)
  | claim (index : Nat)
  | delete (index : Nat)
  | setRoot (index : Nat)
  | validate
  | flush
  | reopen (settings : ContainerSettings)
deriving DecidableEq, Repr

namespace Container

/-- The container after a writer on a slot was used and closed; nothing happens where there is no
such writer. -/
def view (container : Container) (index : Nat) (acts : List WriterAct) : Container :=
  match container.writer index with
  | .error _ => container
  | .ok writer =>
    container.closeWriter (writer.performAll container.file acts).1
      (writer.performAll container.file acts).2

/-- The container after it was closed and opened again, if both succeed. -/
def reopen (container : Container) (settings : ContainerSettings) : Option Container :=
  match container.close with
  | (.error _, _) => none
  | (.ok (), file) => (openFile file settings).1.toOption

/-- The container that an operation leaves behind, whether it succeeded or not. -/
def perform (container : Container) : ContainerAct → Option Container
  | .newEntry size => some (container.newEntry size).2
  | .append acts ending => some (container.appendEntry acts ending).2
  | .view index acts => some (container.view index acts)
  | .write index data pos => some (container.write index data pos).2
  | .release index => some (container.release index).2
  | .claim index => some (container.claim index).2
  | .delete index => some (container.delete index).2
  | .setRoot index => some (container.setRoot index).2
  | .validate => some container.validate.2
  | .flush => some container.flush.2
  | .reopen settings => container.reopen settings

/-- The containers that operations lead to from a new one. -/
inductive Reachable : Container → Prop where
  | created {settings : ContainerSettings} {container : Container} {file : File}
      (opened : openFile .empty settings = (.ok container, file)) : Reachable container
  | step {container next : Container} (reached : Reachable container) (act : ContainerAct)
      (performed : container.perform act = some next) : Reachable next

variable {container : Container}

theorem view_cases (container : Container) (index : Nat) (acts : List WriterAct) :
    container.view index acts = container ∨ ∃ writer moved new, container.writer index = .ok writer ∧
      SlotWriter.Inside writer container.file moved new ∧
        container.view index acts = container.closeWriter moved new := by
  unfold view
  cases made : container.writer index with
  | error fault => exact Or.inl rfl
  | ok writer => exact Or.inr ⟨writer, _, _, rfl, writer.inside_performAll container.file acts, rfl⟩

theorem Sound.view (sound : container.Sound) (index : Nat) (acts : List WriterAct) :
    (container.view index acts).Sound := by
  rcases container.view_cases index acts with same | ⟨writer, _, _, made, inside, viewed⟩
  · rw [same]
    exact sound
  · obtain ⟨region, live, rfl⟩ := writer_eq_ok_iff.mp made
    rw [viewed]
    exact sound.closeWriter (liveRegion_eq_ok_iff.mp live).2.2 inside

theorem Spares.view (sound : container.Sound) {index other : Nat} (acts : List WriterAct)
    (different : other ≠ index) : Spares index container (container.view other acts) := by
  rcases container.view_cases other acts with same | ⟨writer, _, _, made, inside, viewed⟩
  · rw [same]
    exact Spares.refl index container
  · obtain ⟨region, live, rfl⟩ := writer_eq_ok_iff.mp made
    rw [viewed]
    exact Spares.closeWriter sound (liveRegion_eq_ok_iff.mp live).2.2 inside different

/-- A file is accepted only under legal settings, and where it is empty or can be loaded. -/
theorem openFile_ok {file after : File} {settings : ContainerSettings} {opened : Container}
    (accepted : openFile file settings = (.ok opened, after)) :
    settings.check = .ok () ∧ (file.size = 0 ∧ opened = create settings ∨
      ∃ loaded, load file settings = .ok loaded) := by
  unfold openFile at accepted
  split at accepted
  · cases accepted
  · rename_i legal
    refine ⟨legal, ?_⟩
    split at accepted
    · rename_i empty
      exact Or.inl ⟨empty, (Except.ok.inj (Prod.mk.inj accepted).1).symm⟩
    · split at accepted
      · cases accepted
      · rename_i loaded found
        exact Or.inr ⟨loaded, found⟩

theorem openFile_of_load_error {file : File} {settings : ContainerSettings} {fault : Fault}
    (legal : settings.check = .ok ()) (filled : file.size ≠ 0)
    (refused : load file settings = .error fault) :
    openFile file settings = (.error fault, file) := by
  unfold openFile
  rw [legal]
  simp only
  rw [if_neg filled, refused]

theorem openFile_of_load {file : File} {settings : ContainerSettings} {loaded : Container}
    (legal : settings.check = .ok ()) (quiet : settings.validateOnOpen = false)
    (filled : file.size ≠ 0) (found : load file settings = .ok loaded) (held : loaded.file = file) :
    openFile file settings = (.ok loaded, file) := by
  unfold openFile
  rw [legal]
  simp only
  rw [if_neg filled, found]
  simp only [quiet, Bool.false_eq_true, if_false, held]

/-- Where a validation is asked for, what it makes of the loaded container is opened. -/
theorem openFile_of_validated {file : File} {settings : ContainerSettings}
    {loaded repaired : Container} {report : RepairReport} (legal : settings.check = .ok ())
    (eager : settings.validateOnOpen = true) (filled : file.size ≠ 0)
    (found : load file settings = .ok loaded)
    (validated : loaded.validate = (.ok report, repaired)) :
    openFile file settings = (.ok repaired, repaired.file) := by
  unfold openFile
  rw [legal]
  simp only
  rw [if_neg filled, found]
  simp only [eager, if_true, validated]

theorem openFile_of_validate_error {file : File} {settings : ContainerSettings}
    {loaded : Container} {fault : Fault} (legal : settings.check = .ok ())
    (eager : settings.validateOnOpen = true) (filled : file.size ≠ 0)
    (found : load file settings = .ok loaded) (failed : loaded.validate.1 = .error fault) :
    (openFile file settings).1 = .error fault := by
  unfold openFile
  rw [legal]
  simp only
  rw [if_neg filled, found]
  rcases validated : loaded.validate with ⟨cause | report, left⟩
  · rw [validated] at failed
    cases failed
    simp only [eager, if_true, validated]
  · rw [validated] at failed
    cases failed

theorem openFile_empty {settings : ContainerSettings} (legal : settings.check = .ok ()) :
    openFile .empty settings = (.ok (create settings), (create settings).file) := by
  unfold openFile
  rw [legal]
  rfl

/-- The file of a stored container is accepted under legal settings, unless its root is the table's
own slot; what is not stored is forgotten. -/
theorem openFile_ok_iff_of_clean (sound : container.Sound) (clean : container.dirty = false)
    {settings : ContainerSettings} {next : Container} :
    (openFile container.file settings).1.toOption = some next ↔ settings.check = .ok () ∧
      (∀ index, container.tableIndex = some index → container.root ≠ some index) ∧
        next = container.reloaded settings := by
  constructor
  · intro accepted
    rcases opened : openFile container.file settings with ⟨_ | back, after⟩
    · rw [opened] at accepted
      cases accepted
    · rw [opened] at accepted
      cases accepted
      obtain ⟨legal, ⟨empty, _⟩ | ⟨loaded, found⟩⟩ := openFile_ok opened
      · exact absurd empty sound.size_ne_zero
      · have user (index : Nat) (reserved : container.tableIndex = some index) :
            container.root ≠ some index := by
          intro anchored
          rw [load_of_reserved_root sound clean reserved anchored] at found
          cases found
        rw [openFile_of_clean sound clean user legal] at opened
        cases opened
        exact ⟨legal, user, rfl⟩
  · rintro ⟨legal, user, rfl⟩
    rw [openFile_of_clean sound clean user legal]
    rfl

/-- Reopening comes down to a flush that succeeds and to forgetting what is not stored. -/
theorem reopen_eq_some_iff (sound : container.Sound) {settings : ContainerSettings}
    {next : Container} :
    container.reopen settings = some next ↔ settings.check = .ok () ∧ container.flush.1 = .ok () ∧
      (∀ index, container.flush.2.tableIndex = some index → container.root ≠ some index) ∧
        next = container.flush.2.reloaded settings := by
  rcases flushed : container.flush with ⟨result, stored⟩
  have soundStored : stored.Sound := by
    have flushedSound := sound.flush
    rw [flushed] at flushedSound
    exact flushedSound
  unfold reopen close
  rw [flushed]
  cases result with
  | error fault => simp
  | ok done =>
    obtain ⟨clean, root⟩ := flush_ok sound flushed
    have left : stored.leave = stored.file := by rw [leave, flush_of_clean clean]
    simp only [left, true_and, ← root]
    exact openFile_ok_iff_of_clean soundStored clean

theorem Sound.reopen (sound : container.Sound) {settings : ContainerSettings} {next : Container}
    (reopened : container.reopen settings = some next) : next.Sound := by
  obtain ⟨_, flushed, _, rfl⟩ := (reopen_eq_some_iff sound).mp reopened
  exact sound.flush.reloaded (flush_ok sound (Prod.ext flushed rfl)).1 settings

theorem Spares.reopen (sound : container.Sound) {settings : ContainerSettings} {next : Container}
    (reopened : container.reopen settings = some next) (index : Nat) :
    Spares index container next := by
  obtain ⟨_, _, _, rfl⟩ := (reopen_eq_some_iff sound).mp reopened
  exact (Spares.flush sound index).trans (Spares.reloaded _ settings index)

/-- Every operation keeps the invariant. -/
theorem Sound.perform (sound : container.Sound) {act : ContainerAct} {next : Container}
    (performed : container.perform act = some next) : next.Sound := by
  cases act with
  | newEntry size => exact Option.some.inj performed ▸ sound.newEntry size
  | append acts ending => exact Option.some.inj performed ▸ sound.appendEntry acts ending
  | view index acts => exact Option.some.inj performed ▸ sound.view index acts
  | write index data pos => exact Option.some.inj performed ▸ sound.write index data pos
  | release index => exact Option.some.inj performed ▸ sound.restated (restated_release _ index)
  | claim index => exact Option.some.inj performed ▸ sound.restated (restated_claim _ index)
  | delete index => exact Option.some.inj performed ▸ sound.restated (restated_delete _ index)
  | setRoot index => exact Option.some.inj performed ▸ sound.setRoot index
  | validate =>
    rw [← Option.some.inj performed, sound.validate_eq]
    exact sound
  | flush => exact Option.some.inj performed ▸ sound.flush
  | reopen settings => exact sound.reopen performed

/-- Every container that can be reached is sound. -/
theorem Reachable.sound (reached : Reachable container) : container.Sound := by
  induction reached with
  | created opened =>
    rename_i settings _ _
    obtain ⟨legal, _⟩ := openFile_ok opened
    rw [openFile_empty legal] at opened
    rw [← Except.ok.inj (Prod.mk.inj opened).1]
    exact sound_create settings
  | step _ _ performed previous => exact previous.perform performed

theorem reachable_create {settings : ContainerSettings} (legal : settings.check = .ok ()) :
    Reachable (create settings) :=
  .created (openFile_empty legal)

end Container

end SlotStore
