import SlotStore.Proofs.Container.Readiness
import SlotStore.Proofs.Container.Runs

/-!
Refusals. An operation on slots that reports a fault leaves the container as it was, bytes behind
the end of the file apart, which a producer may have left there before it failed. The next append
starts over them as if they had never been written. Where opening a file fails, not even such bytes
are written: nothing is ever stored by a container whose repair came to a halt.
-/

namespace SlotStore.Container

variable {container next : Container} {fault : Fault}

/-- The second container is the first one with other bytes from the end of its file on, if at all. -/
def Spilled (old new : Container) : Prop :=
  ∃ file, File.AgreesBelow old.endOfFile old.file file ∧ new = { old with file := file }

theorem Spilled.refl (container : Container) : Spilled container container :=
  ⟨container.file, File.AgreesBelow.refl _ _, rfl⟩

theorem Spilled.of_eq (same : next = container) : Spilled container next :=
  same ▸ Spilled.refl container

/-- An operation on slots that is refused, with the fault that it reports and the container that it
leaves behind. A writer that is refused is not used, and reading leaves what it reads. -/
inductive Refuses (container : Container) (fault : Fault) : Container → Prop where
  | newEntry {next : Container} (size : Nat)
      (refused : container.newEntry size = (.error fault, next)) : Refuses container fault next
  | append {next : Container} (acts : List AppendAct) (ending : AppendEnd) (notes : List Nat)
      (refused : container.appendEntry acts ending = ((notes, .failed fault), next)) :
      Refuses container fault next
  | write {next : Container} (index : Nat) (data : Bytes) (pos : Nat)
      (refused : container.write index data pos = (.error fault, next)) :
      Refuses container fault next
  | view (index : Nat) (acts : List WriterAct)
      (refused : container.writer index = .error fault) :
      Refuses container fault (container.view index acts)
  | reader (index : Nat) (refused : container.reader index = .error fault) :
      Refuses container fault container
  | read (index : Nat) (refused : container.read index = .error fault) :
      Refuses container fault container
  | release {next : Container} (index : Nat)
      (refused : container.release index = (.error fault, next)) : Refuses container fault next
  | claim {next : Container} (index : Nat)
      (refused : container.claim index = (.error fault, next)) : Refuses container fault next
  | delete {next : Container} (index : Nat)
      (refused : container.delete index = (.error fault, next)) : Refuses container fault next
  | setRoot {next : Container} (index : Nat)
      (refused : container.setRoot index = (.error fault, next)) : Refuses container fault next

/-- While there is an index left, streamed bytes that cannot be adopted leave nothing behind. -/
theorem adoptStream_error_eq (room : container.slots.length < SlotTable.indexLimit) {written : Nat}
    (refused : container.adoptStream written = (.error fault, next)) : next = container := by
  rcases container.adoptStream_cases written with ⟨_, same⟩ | ⟨capacity, _, _, adopted⟩
  · exact congrArg Prod.snd (refused.symm.trans same)
  · obtain ⟨_, _, _, placed⟩ := (container.extended capacity).placeRegion_of_room room
      ⟨container.endOfFile, written, capacity⟩
    cases refused.symm.trans (adopted.trans placed)

/-- While there is an index left, streamed bytes are adopted unless they would take the file past
what a word can address. -/
theorem adoptStream_of_bounded (room : container.slots.length < SlotTable.indexLimit)
    {written capacity : Nat} (granted : alignedCapacity written = .ok capacity)
    (bounded : container.endOfFile + capacity + 16 < 2 ^ 64) :
    ∃ index, (container.adoptStream written).1 = .ok index := by
  obtain ⟨index, _, _, placed⟩ := (container.extended capacity).placeRegion_of_room room
    ⟨container.endOfFile, written, capacity⟩
  exact ⟨index, congrArg Prod.fst ((adoptStream_of_granted granted bounded).trans placed)⟩

theorem spilled_appendEntry (sound : container.Sound)
    (room : container.slots.length < SlotTable.indexLimit) {acts : List AppendAct}
    {ending : AppendEnd} {notes : List Nat}
    (refused : container.appendEntry acts ending = ((notes, .failed fault), next)) :
    Spilled container next := by
  obtain ⟨_, file, same, ⟨_, inFlight, left, _, kept⟩ | ⟨written, left⟩⟩ :=
    container.appendEntry_cases acts ending
  · cases refused.symm.trans left
    rw [kept nofun]
    exact ⟨file, same sound, rfl⟩
  · obtain ⟨answer, moved⟩ := Prod.mk.inj (refused.symm.trans left)
    have failed := AppendOutcome.ofResult_eq_failed_iff.mp (Prod.mk.inj answer).2.symm
    have unchanged := @adoptStream_error_eq { container with file := file } _ _ room written
      (Prod.ext failed rfl)
    exact ⟨file, same sound, moved.trans unchanged⟩

theorem write_error_eq {index pos : Nat} {data : Bytes}
    (refused : container.write index data pos = (.error fault, next)) : next = container := by
  rcases container.write_cases index data pos with ⟨_, same⟩ | ⟨_, _, _, written⟩
  · exact congrArg Prod.snd (refused.symm.trans same)
  · cases refused.symm.trans written

theorem setRoot_error_eq {index : Nat}
    (refused : container.setRoot index = (.error fault, next)) : next = container := by
  rcases container.setRoot_cases index with ⟨_, same⟩ | ⟨_, _, anchored⟩
  · exact congrArg Prod.snd (refused.symm.trans same)
  · cases refused.symm.trans anchored

theorem view_of_refused {index : Nat} (refused : container.writer index = .error fault)
    (acts : List WriterAct) : container.view index acts = container := by
  unfold view
  rw [refused]

theorem Refuses.spilled (sound : container.Sound)
    (room : container.slots.length < SlotTable.indexLimit)
    (refuses : container.Refuses fault next) : Spilled container next := by
  cases refuses with
  | newEntry size refused => exact .of_eq (newEntry_error_eq room refused)
  | append acts ending notes refused => exact spilled_appendEntry sound room refused
  | write index data pos refused => exact .of_eq (write_error_eq refused)
  | view index acts refused => exact .of_eq (view_of_refused refused acts)
  | reader index refused => exact .refl container
  | read index refused => exact .refl container
  | release index refused => exact .of_eq (release_error_eq refused)
  | claim index refused => exact .of_eq (claim_error_eq refused)
  | delete index refused => exact .of_eq (delete_error_eq refused)
  | setRoot index refused => exact .of_eq (setRoot_error_eq refused)

theorem answer_adoptStream (container : Container) (file : File) (written : Nat) :
    ({ container with file := file }.adoptStream written).1 = (container.adoptStream written).1 := by
  unfold adoptStream appendRegion placeRegion
  cases alignedCapacity written with
  | error fault => rfl
  | ok capacity =>
    by_cases far : 0x10000000000000000 ≤ container.endOfFile + capacity + 16
    · simp only [if_pos far]
    by_cases long : 0x8000000000000000 ≤ capacity
    · simp only [if_neg far, if_pos long]
    simp only [if_neg far, if_neg long]
    cases container.slots.acquire <;> rfl

theorem answer_appendEntry (container : Container) (file : File) (acts : List AppendAct)
    (ending : AppendEnd) : ({ container with file := file }.appendEntry acts ending).1 =
      (container.appendEntry acts ending).1 := by
  rcases Bool.eq_false_or_eq_true container.appendInFlight with busy | idle
  · rw [appendEntry_of_inFlight busy, appendEntry_of_inFlight (by exact busy)]
  · have same := AppendStream.answers_performAll ⟨container.endOfFile, 0, []⟩ file container.file acts
    rcases here : AppendStream.performAll ⟨container.endOfFile, 0, []⟩ container.file acts with
      ⟨notes, stream, left⟩
    rcases there : AppendStream.performAll ⟨container.endOfFile, 0, []⟩ file acts with
      ⟨other, moved, spilled⟩
    rw [here, there] at same
    obtain ⟨rfl, rfl⟩ := same
    rw [appendEntry_of_idle idle here,
      @appendEntry_of_idle { container with file := file } idle _ _ _ _ there]
    cases ending with
    | abort => rfl
    | fail failure => rfl
    | finish =>
      simp only [AppendStream.written_flush]
      rw [answer_adoptStream { container with file := (moved.flush left).2 } (moved.flush spilled).2]

theorem appendEntry_accepted (idle : container.appendInFlight = false) (acts : List AppendAct)
    (ending : AppendEnd) :
    (container.appendEntry acts ending).1.2 ≠ .failed .appendInFlight := by
  rcases performed : AppendStream.performAll ⟨container.endOfFile, 0, []⟩ container.file acts with
    ⟨notes, stream, file⟩
  rw [appendEntry_of_idle idle performed]
  cases ending with
  | abort => exact nofun
  | fail failure => exact nofun
  | finish =>
    rcases adoptStream_cases { container with file := (stream.flush file).2 }
      (stream.flush file).1.written with ⟨_, refused⟩ | ⟨capacity, _, _, adopted⟩
    · simp only [refused]
      exact nofun
    · simp only [adopted]
      rcases placeRegion_cases _ _ with ⟨_, _, _, placed⟩ | ⟨_, full⟩
      · rw [placed]
        exact nofun
      · rw [full]
        exact nofun

/-- While there is an index left, a producer that comes to its end gets a slot, unless its bytes
would take the file past what a word can address. -/
theorem appendEntry_of_bounded (idle : container.appendInFlight = false)
    (room : container.slots.length < SlotTable.indexLimit) {acts : List AppendAct} {capacity : Nat}
    (granted : alignedCapacity (acts.flatMap AppendAct.bytes).length = .ok capacity)
    (bounded : container.endOfFile + capacity + 16 < 2 ^ 64) :
    ∃ index, (container.appendEntry acts .finish).1.2 = .slot index := by
  obtain ⟨_, appended⟩ := appendEntry_of_finish idle acts rfl
  obtain ⟨index, adopted⟩ := @adoptStream_of_bounded
    (container.streamed (acts.flatMap AppendAct.bytes)) room _ _ granted bounded
  rw [appended]
  exact ⟨index, AppendOutcome.ofResult_eq_slot_iff.mpr adopted⟩

/-- Operations are atomic on errors. While there is a slot index left, one that is refused leaves
slots, header and every byte below the end of the file as they were, whatever a producer had written
before it failed. After a producer that failed, the next append is answered as if there had been
none: it is not refused as a second one in flight, and it gets a slot unless its bytes would take
the file past what a word can address. -/
theorem refusal_of_reachable (reached : Reachable container)
    (room : container.slots.length < SlotTable.indexLimit) :
    (∀ fault next, container.Refuses fault next →
      next.slots = container.slots ∧ next.header = container.header ∧
        next.tableIndex = container.tableIndex ∧ next.dirty = container.dirty ∧
          next.file.slice 0 container.endOfFile = container.file.slice 0 container.endOfFile ∧
            next = { container with file := next.file }) ∧
      ∀ acts failure, container.appendInFlight = false → ∃ notes next,
        container.appendEntry acts (.fail failure) = ((notes, .failed (.file failure)), next) ∧
          ∀ more, (∀ ending, (next.appendEntry more ending).1.2 ≠ .failed .appendInFlight ∧
              (next.appendEntry more ending).1 = (container.appendEntry more ending).1) ∧
            ∀ capacity, alignedCapacity (more.flatMap AppendAct.bytes).length = .ok capacity →
              container.endOfFile + capacity + 16 < 2 ^ 64 →
                ∃ index, (next.appendEntry more .finish).1.2 = .slot index := by
  constructor
  · intro fault next refuses
    obtain ⟨file, agrees, rfl⟩ := refuses.spilled reached.sound room
    exact ⟨rfl, rfl, rfl, rfl, agrees.same 0 _ (Nat.le_of_eq (Nat.zero_add _)), rfl⟩
  · intro acts failure idle
    rcases performed : AppendStream.performAll ⟨container.endOfFile, 0, []⟩ container.file acts with
      ⟨notes, stream, file⟩
    have outcome := appendEntry_of_idle idle performed (.fail failure)
    obtain ⟨spilled, _, same⟩ := spilled_appendEntry reached.sound room outcome
    refine ⟨notes, _, outcome, fun more => ?_⟩
    rw [same]
    constructor
    · intro ending
      exact ⟨@appendEntry_accepted { container with file := spilled } idle more ending,
        answer_appendEntry container spilled more ending⟩
    · intro capacity granted bounded
      exact @appendEntry_of_bounded { container with file := spilled } idle room _ _ granted bounded

/-- A producer writes three bytes out before it fails. -/
theorem refusal_of_failed_producer : ∃ container next : Container, Reachable container ∧
    container.slots.length = 2 ∧
      container.appendEntry [.write [1, 2, 3], .flush] (.fail .unexpectedEnd) =
        (([3, 3], .failed (.file .unexpectedEnd)), next) ∧
          next.slots = container.slots ∧
            next.file.slice 0 container.endOfFile = container.file.slice 0 container.endOfFile ∧
              ∃ index, (next.appendEntry [.write [4]] .finish).1.2 = .slot index := by
  obtain ⟨container, made⟩ : ∃ container, ((create {}).newEntry 5).2 = container := ⟨_, rfl⟩
  have reached : Reachable container :=
    .step (reachable_create (by decide +kernel)) (.newEntry 5) (congrArg some made)
  have length : container.slots.length = 2 := by
    rw [← made]
    decide +kernel
  have idle : container.appendInFlight = false := by
    rw [← made]
    decide +kernel
  have bounded : container.endOfFile + 16 + 16 < 2 ^ 64 := by
    rw [← made]
    decide +kernel
  have ended : (container.appendEntry [.write [1, 2, 3], .flush] (.fail .unexpectedEnd)).1.1 =
      [3, 3] := by
    rw [← made]
    decide +kernel
  obtain ⟨atomic, again⟩ := refusal_of_reachable reached (by rw [length]; decide)
  obtain ⟨notes, next, outcome, more⟩ := again [.write [1, 2, 3], .flush] .unexpectedEnd idle
  rw [outcome] at ended
  subst ended
  obtain ⟨slots, _, _, _, below, _⟩ := atomic _ _ (.append _ _ _ outcome)
  exact ⟨container, next, reached, length, outcome, slots, below,
    (more [.write [4]]).2 16 (by decide +kernel) bounded⟩

/-- A repair that comes to a halt has changed slots at most, and these are not stored. -/
theorem validate_error_eq {left : Container}
    (failed : container.validate = (.error fault, left)) :
    left = { container with slots := left.slots } := by
  unfold validate at failed
  split at failed
  · cases failed
    rfl
  · split at failed
    · cases failed
      rfl
    · cases failed

/-- A file that cannot be opened is left as it is. Where a container was loaded and its repair came
to a halt, perhaps with some slots changed, giving it up stores nothing. -/
theorem file_of_refused_opening {file after : File} {settings : ContainerSettings}
    (refused : openFile file settings = (.error fault, after)) :
    after = file ∧ ∀ loaded cause left, load file settings = .ok loaded →
      loaded.validate = (.error cause, left) →
        left.file = file ∧ left.flush = (.ok (), left) ∧ left.leave = file := by
  have halted {loaded : Container} {cause : Fault} {left : Container}
      (found : load file settings = .ok loaded) (failed : loaded.validate = (.error cause, left)) :
      left.file = file ∧ left.flush = (.ok (), left) ∧ left.leave = file := by
    obtain ⟨_, held, _, _, _, clean⟩ := load_ok found
    have same := validate_error_eq failed
    have stored : left.flush = (.ok (), left) := flush_of_clean (by rw [same]; exact clean)
    have kept : left.file = file := by rw [same]; exact held
    exact ⟨kept, stored, by rw [leave, stored]; exact kept⟩
  refine ⟨?_, fun _ _ _ => halted⟩
  unfold openFile at refused
  split at refused
  · cases refused
    rfl
  split at refused
  · cases refused
  split at refused
  · cases refused
    rfl
  rename_i loaded found
  split at refused
  · split at refused
    · rename_i failed
      cases refused
      exact (halted found failed).2.2
    · cases refused
  · cases refused

/-- A file is loaded whose first guard word is no multiple of the granule, and its validation fails. -/
theorem file_of_misaligned_guard : ∃ (file : File) (loaded : Container),
    load file { validateOnOpen := true } = .ok loaded ∧
      loaded.validate = (.error (.malformed (.misalignedLength 0x238 24)), loaded) ∧
        openFile file { validateOnOpen := true } =
          (.error (.malformed (.misalignedLength 0x238 24)), file) ∧ loaded.leave = file := by
  obtain ⟨file, stored⟩ :
      ∃ file, File.ofBytes (Header.fresh.encode ++ Bytes.ofInt 24) = file := ⟨_, rfl⟩
  obtain ⟨loaded, found⟩ : ∃ loaded, load file { validateOnOpen := true } = .ok loaded := by
    rw [← stored, load_ofBytes rfl]
    exact ⟨_, rfl⟩
  have held : loaded.file = file := (load_ok found).2.1
  have size : file.size = 0x238 := by
    rw [← stored, ← File.length_toList, File.toList_ofBytes, List.length_append,
      Header.length_encode]
    rfl
  have guard : file.intAt 0x230 = 24 := by
    rw [← stored]
    exact (congrArg Bytes.toInt (slice_ofBytes Header.fresh (Bytes.ofInt 24) 0 8)).trans
      (by decide +kernel)
  have halted : loaded.validate = (.error (.malformed (.misalignedLength 0x238 24)), loaded) := by
    unfold validate Scan.ofFile
    rw [Scan.walk, held]
    simp [size, guard, firstGuard, granule, Except.map]
  have refused : (openFile file { validateOnOpen := true }).1 =
      .error (.malformed (.misalignedLength 0x238 24)) :=
    openFile_of_validate_error (by decide +kernel) rfl (by rw [size]; decide) found
      (congrArg Prod.fst halted)
  obtain ⟨same, given⟩ := file_of_refused_opening (Prod.ext refused rfl)
  exact ⟨file, loaded, found, halted, Prod.ext refused same, (given _ _ _ found halted).2.2⟩

end SlotStore.Container
