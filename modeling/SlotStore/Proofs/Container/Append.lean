import SlotStore.Container.Append
import SlotStore.Proofs.Container.Allocation

/-!
Streamed appends. Whatever the producer does, its bytes go behind the end of the file in one piece,
where no slot looks; only a producer that finishes gets a region there. Sealing the end writes the
zero word that stands there already.
-/

namespace SlotStore

def AppendAct.bytes : AppendAct → Bytes
  | .write data => data
  | .flush => []

namespace AppendStream

@[simp] theorem written_flush (stream : AppendStream) (file : File) :
    (stream.flush file).1.written = stream.written := rfl

/-- What a producer is answered, and what becomes of its stream, does not depend on the file. -/
theorem answers_performAll (stream : AppendStream) (file other : File) (acts : List AppendAct) :
    (stream.performAll file acts).1 = (stream.performAll other acts).1 ∧
      (stream.performAll file acts).2.1 = (stream.performAll other acts).2.1 := by
  induction acts generalizing stream file other with
  | nil => exact ⟨rfl, rfl⟩
  | cons act rest ih =>
    have moved : (stream.perform file act).1 = (stream.perform other act).1 := by
      cases act with
      | write data =>
        unfold perform write
        simp only
        split <;> rfl
      | flush => rfl
    have onward := ih (stream.perform other act).1 (stream.perform file act).2
      (stream.perform other act).2
    simp only [performAll, moved]
    exact ⟨congrArg _ onward.1, onward.2⟩

/-- Of the bytes that a stream was given, the first lie in the file from its start on and the others
wait in the buffer. -/
structure Carries (stream : AppendStream) (start : Nat) (old : File) (given : Bytes) (file : File) :
    Prop where
  begins : stream.start = start
  laid : ∃ stored, stored.length = stream.flushed ∧ given = stored ++ stream.buffer ∧
    file = old.write start stored

variable {stream : AppendStream} {start : Nat} {old file : File} {given : Bytes}

theorem carries_start (start : Nat) (old : File) : Carries ⟨start, 0, []⟩ start old [] old :=
  ⟨rfl, [], rfl, rfl, rfl⟩

theorem Carries.accept (carries : stream.Carries start old given file) (data : Bytes) :
    Carries { stream with buffer := stream.buffer ++ data } start old (given ++ data) file := by
  obtain ⟨same, stored, length, rfl, written⟩ := carries
  exact ⟨same, stored, length, List.append_assoc .., written⟩

theorem Carries.written (carries : stream.Carries start old given file) :
    stream.written = given.length := by
  obtain ⟨_, stored, length, rfl, _⟩ := carries
  rw [AppendStream.written, List.length_append, length]

theorem Carries.agreesBelow (carries : stream.Carries start old given file)
    (held : start ≤ old.size) : File.AgreesBelow start old file := by
  obtain ⟨_, stored, _, _, rfl⟩ := carries
  exact File.AgreesBelow.write old stored held (Nat.le_refl start)

theorem Carries.file_flush (carries : stream.Carries start old given file) :
    (stream.flush file).2 = old.write start given := by
  obtain ⟨rfl, stored, length, rfl, rfl⟩ := carries
  rw [flush, ← length, File.write_write_append]

theorem Carries.flush (carries : stream.Carries start old given file) :
    (stream.flush file).1.Carries start old given (stream.flush file).2 :=
  ⟨carries.begins, given, carries.written.symm, (List.append_nil _).symm, carries.file_flush⟩

theorem Carries.perform (carries : stream.Carries start old given file) (act : AppendAct) :
    (stream.perform file act).1.Carries start old (given ++ act.bytes)
      (stream.perform file act).2 := by
  cases act with
  | write data =>
    have accepted := carries.accept data
    unfold AppendStream.perform AppendStream.write
    simp only
    split
    · exact accepted.flush
    · exact accepted
  | flush =>
    rw [AppendAct.bytes, List.append_nil]
    exact carries.flush

theorem Carries.performAll (carries : stream.Carries start old given file) (acts : List AppendAct) :
    (stream.performAll file acts).2.1.Carries start old (given ++ acts.flatMap AppendAct.bytes)
      (stream.performAll file acts).2.2 := by
  induction acts generalizing stream file given with
  | nil =>
    rw [List.flatMap_nil, List.append_nil]
    exact carries
  | cons act rest ih =>
    rw [List.flatMap_cons, ← List.append_assoc]
    exact ih (carries.perform act)

end AppendStream

/-- The outcome of a stream that came to its end, by the result of adopting its bytes. -/
def AppendOutcome.ofResult : Except Fault Nat → AppendOutcome
  | .ok index => .slot index
  | .error fault => .failed fault

theorem AppendOutcome.ofResult_eq_slot_iff {result : Except Fault Nat} {index : Nat} :
    ofResult result = .slot index ↔ result = .ok index := by
  cases result <;> simp [ofResult]

theorem AppendOutcome.ofResult_eq_failed_iff {result : Except Fault Nat} {fault : Fault} :
    ofResult result = .failed fault ↔ result = .error fault := by
  cases result <;> simp [ofResult]

namespace Container

variable {container : Container}

/-- Streamed bytes for which a capacity is granted within what a word can address get a region. -/
theorem adoptStream_of_granted {written capacity : Nat}
    (granted : alignedCapacity written = .ok capacity)
    (bounded : container.endOfFile + capacity + 16 < 2 ^ 64) : container.adoptStream written =
      (container.extended capacity).placeRegion ⟨container.endOfFile, written, capacity⟩ := by
  unfold adoptStream
  simp only [granted, appendRegion_of_bounded (legal_of_alignedCapacity granted 0).2.2.2 bounded]

theorem adoptStream_cases (container : Container) (written : Nat) :
    (∃ excess, container.adoptStream written = (.error (.overflow excess), container)) ∨
      ∃ capacity, alignedCapacity written = .ok capacity ∧
        container.endOfFile + capacity + 16 < 2 ^ 64 ∧ container.adoptStream written =
          (container.extended capacity).placeRegion ⟨container.endOfFile, written, capacity⟩ := by
  cases granted : alignedCapacity written with
  | error fault =>
    unfold adoptStream
    rw [granted, overflow_of_alignedCapacity granted]
    exact Or.inl ⟨_, rfl⟩
  | ok capacity =>
    rcases container.appendRegion_cases capacity with ⟨excess, refused⟩ | ⟨small, _⟩
    · unfold adoptStream
      exact Or.inl ⟨excess, by simp only [granted, refused]⟩
    · exact Or.inr ⟨capacity, rfl, small, adoptStream_of_granted granted small⟩

theorem Sound.adoptStream (sound : container.Sound) (written : Nat) :
    (container.adoptStream written).2.Sound := by
  rcases container.adoptStream_cases written with ⟨_, refused⟩ | ⟨capacity, granted, small, adopted⟩
  · rw [refused]
    exact sound
  · obtain ⟨room, legal⟩ := legal_of_alignedCapacity granted container.endOfFile
    rw [adopted]
    exact (sound.extended legal small).placeRegion room

theorem Spares.adoptStream (sound : container.Sound) (written index : Nat) :
    Spares index container (container.adoptStream written).2 := by
  rcases container.adoptStream_cases written with ⟨_, refused⟩ | ⟨capacity, granted, small, adopted⟩
  · rw [refused]
    exact Spares.refl index container
  · have legal := (legal_of_alignedCapacity granted container.endOfFile).2
    rw [adopted]
    exact (Spares.extended sound index legal.2.2).trans
      (Spares.placeRegion (sound.extended legal small).filled index _)

theorem Sound.sealTail_eq (sound : container.Sound) : container.sealTail = container := by
  obtain ⟨_, laid, _⟩ := sound.laid
  have low := laid.first_le
  have held := laid.held
  simp only [firstOffset] at low
  unfold Container.sealTail
  rw [File.writeInt_of_intAt (by omega) laid.ended]

theorem appendEntry_of_inFlight (busy : container.appendInFlight = true) (acts : List AppendAct)
    (ending : AppendEnd) :
    container.appendEntry acts ending = (([], .failed .appendInFlight), container) := by
  unfold appendEntry
  rw [if_pos busy]

theorem appendEntry_of_idle (idle : container.appendInFlight = false) {acts : List AppendAct}
    {notes : List Nat} {stream : AppendStream} {file : File}
    (performed : AppendStream.performAll ⟨container.endOfFile, 0, []⟩ container.file acts =
      (notes, stream, file)) (ending : AppendEnd) :
    container.appendEntry acts ending =
      match ending with
      | .abort => ((notes, .aborted), { container with file := file, appendInFlight := true })
      | .fail failure =>
        ((notes, .failed (.file failure)), { container with file := file }.sealTail)
      | .finish =>
        let adopted := { container with file := (stream.flush file).2 }.adoptStream
          (stream.flush file).1.written
        ((notes, .ofResult adopted.1), adopted.2) := by
  unfold appendEntry
  rw [if_neg (by simp [idle]), performed]
  cases ending with
  | abort => rfl
  | fail failure => rfl
  | finish =>
    simp only
    split <;> rename_i adopted <;> rw [adopted] <;> rfl

theorem carries_performAll (container : Container) (acts : List AppendAct) :
    (AppendStream.performAll ⟨container.endOfFile, 0, []⟩ container.file acts).2.1.Carries
      container.endOfFile container.file (acts.flatMap AppendAct.bytes)
      (AppendStream.performAll ⟨container.endOfFile, 0, []⟩ container.file acts).2.2 :=
  (AppendStream.carries_start container.endOfFile container.file).performAll acts

/-- The container with bytes laid over its file from the end on, which no slot holds yet. -/
def streamed (container : Container) (data : Bytes) : Container :=
  { container with file := container.file.write container.endOfFile data }

@[simp] theorem streamed_endOfFile (container : Container) (data : Bytes) :
    (container.streamed data).endOfFile = container.endOfFile := rfl

@[simp] theorem streamed_slots (container : Container) (data : Bytes) :
    (container.streamed data).slots = container.slots := rfl

/-- A producer that comes to its end has laid its bytes down behind the end of the file, where they
are adopted. -/
theorem appendEntry_of_finish (idle : container.appendInFlight = false) (acts : List AppendAct)
    {data : Bytes} (brought : acts.flatMap AppendAct.bytes = data) :
    ∃ notes, container.appendEntry acts .finish =
      ((notes, .ofResult ((container.streamed data).adoptStream data.length).1),
        ((container.streamed data).adoptStream data.length).2) := by
  have carries := container.carries_performAll acts
  rcases performed : AppendStream.performAll ⟨container.endOfFile, 0, []⟩ container.file acts with
    ⟨notes, stream, file⟩
  rw [performed, brought] at carries
  refine ⟨notes, ?_⟩
  rw [appendEntry_of_idle idle performed]
  simp only [AppendStream.written_flush, carries.file_flush, carries.written, streamed]

/-- What a streamed append answers and leaves behind. Bytes of the file apart, which below its end
do not change in a sound container, either nothing changes but whether an append is in flight, or
what was written is adopted. -/
theorem appendEntry_cases (container : Container) (acts : List AppendAct) (ending : AppendEnd) :
    ∃ notes file, (container.Sound → File.AgreesBelow container.endOfFile container.file file) ∧
      ((∃ outcome inFlight, container.appendEntry acts ending =
          ((notes, outcome), { container with file := file, appendInFlight := inFlight }) ∧
          (∀ index, outcome ≠ .slot index) ∧
          (outcome ≠ .aborted → inFlight = container.appendInFlight)) ∨
        ∃ written, container.appendEntry acts ending =
          ((notes, .ofResult ({ container with file := file }.adoptStream written).1),
            ({ container with file := file }.adoptStream written).2)) := by
  rcases Bool.eq_false_or_eq_true container.appendInFlight with busy | idle
  · exact ⟨[], container.file, fun _ => File.AgreesBelow.refl _ _, Or.inl
      ⟨.failed .appendInFlight, container.appendInFlight, appendEntry_of_inFlight busy acts ending,
        nofun, fun _ => rfl⟩⟩
  · have carries := container.carries_performAll acts
    rcases performed : AppendStream.performAll ⟨container.endOfFile, 0, []⟩ container.file acts with
      ⟨notes, stream, file⟩
    rw [performed] at carries
    have held (sound : container.Sound) : container.endOfFile ≤ container.file.size := by
      obtain ⟨_, laid, _⟩ := sound.laid
      exact laid.held
    have outcome := appendEntry_of_idle idle performed ending
    refine ⟨notes, ?_⟩
    cases ending with
    | abort =>
      exact ⟨file, fun sound => carries.agreesBelow (held sound), Or.inl
        ⟨.aborted, true, outcome, nofun, absurd rfl⟩⟩
    | fail failure =>
      refine ⟨{ container with file := file }.sealTail.file, fun sound => ?_, Or.inl
        ⟨.failed (.file failure), container.appendInFlight, outcome, nofun, fun _ => rfl⟩⟩
      have agrees := carries.agreesBelow (held sound)
      rw [(sound.agree agrees).sealTail_eq]
      exact agrees
    | finish =>
      exact ⟨(stream.flush file).2, fun sound => carries.flush.agreesBelow (held sound),
        Or.inr ⟨_, outcome⟩⟩

theorem Sound.appendEntry (sound : container.Sound) (acts : List AppendAct) (ending : AppendEnd) :
    (container.appendEntry acts ending).2.Sound := by
  obtain ⟨_, file, same, ⟨_, inFlight, left, _⟩ | ⟨written, left⟩⟩ :=
    container.appendEntry_cases acts ending
  · rw [left]
    exact (sound.agree (same sound)).inert inFlight container.settings
  · rw [left]
    exact (sound.agree (same sound)).adoptStream written

theorem Spares.appendEntry (sound : container.Sound) (acts : List AppendAct) (ending : AppendEnd)
    (index : Nat) : Spares index container (container.appendEntry acts ending).2 := by
  obtain ⟨_, file, same, ⟨_, inFlight, left, _⟩ | ⟨written, left⟩⟩ :=
    container.appendEntry_cases acts ending
  · rw [left]
    exact Spares.agree sound index (same sound)
  · rw [left]
    exact (Spares.agree sound index (same sound)).trans
      (Spares.adoptStream (sound.agree (same sound)) written index)

end Container

end SlotStore
