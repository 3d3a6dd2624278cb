import SlotStore.Proofs.Container.Runs

/-!
Views as cursors. What a reader or a writer of a slot answers to its calls, in whatever order they
come, is what a cursor over a byte string answers: for a reader the bytes in use, for a writer as many
bytes as the slot has room for.
-/

namespace SlotStore

inductive CursorAnswer where
  | bytes (held : Bytes)
  | stored (count : Nat)
  | position (pos : Nat)
  | refused (failure : FileFailure)
deriving DecidableEq, Repr

def CursorAnswer.of {Value : Type} (answer : Value → CursorAnswer) :
    Except FileFailure Value → CursorAnswer
  | .ok value => answer value
  | .error failure => .refused failure

inductive ReaderCall where
  | read (count : Nat)
  | seek (target : SeekTarget)
deriving DecidableEq, Repr

inductive WriterCall where
  | write (data : Bytes)
  | seek (target : SeekTarget)
deriving DecidableEq, Repr

/-- Calls made one after another: what they answer, and the state behind the last one. -/
def callAll {State Call : Type} (step : State → Call → CursorAnswer × State) (state : State) :
    List Call → List CursorAnswer × State
  | [] => ([], state)
  | call :: rest =>
    let later := callAll step (step state call).2 rest
    ((step state call).1 :: later.1, later.2)

/-- States that answer every call alike, and stay alike, answer all calls alike. -/
theorem callAll_of_alike {State Other Call : Type} {step : State → Call → CursorAnswer × State}
    {other : Other → Call → CursorAnswer × Other} {Alike : State → Other → Prop}
    (alike : ∀ {left right}, Alike left right → ∀ call,
      (step left call).1 = (other right call).1 ∧ Alike (step left call).2 (other right call).2)
    {left : State} {right : Other} (start : Alike left right) (calls : List Call) :
    (callAll step left calls).1 = (callAll other right calls).1 ∧
      Alike (callAll step left calls).2 (callAll other right calls).2 := by
  induction calls generalizing left right with
  | nil => exact ⟨rfl, start⟩
  | cons call rest ih =>
    obtain ⟨same, next⟩ := alike start call
    obtain ⟨others, last⟩ := ih next
    exact ⟨congrArg₂ List.cons same others, last⟩

namespace SlotReader

def call (file : File) (reader : SlotReader) : ReaderCall → CursorAnswer × SlotReader
  | .read count => (.of .bytes (reader.read file count).1, (reader.read file count).2)
  | .seek target => (.of .position (reader.seek target).1, (reader.seek target).2)

end SlotReader

namespace SlotWriter

def call (view : SlotWriter × File) : WriterCall → CursorAnswer × (SlotWriter × File)
  | .write data => (.of .stored (view.1.write view.2 data).1, (view.1.write view.2 data).2)
  | .seek target => (.of .position (view.1.seek target).1, ((view.1.seek target).2, view.2))

end SlotWriter

/-- A byte string and a position, which may lie beyond it. The mark is what targets from the end are
counted from. -/
structure Tape where
  bytes : Bytes
  pos : Nat
  mark : Nat
deriving DecidableEq, Repr

namespace Tape

/-- The next bytes, at most `count`, none at the end or beyond it. -/
def read (tape : Tape) (count : Nat) : CursorAnswer × Tape :=
  let held := (tape.bytes.drop tape.pos).take count
  (.bytes held, { tape with pos := tape.pos + held.length })

/-- Lays bytes over those from the position on, as many as there is room for. Where there is none the
slot is full for every byte. -/
def write (tape : Tape) (index : Nat) (data : Bytes) : CursorAnswer × Tape :=
  if tape.bytes.length ≤ tape.pos ∧ data ≠ [] then
    (.refused (.slotFull index tape.bytes.length), tape)
  else
    let stored := data.take (tape.bytes.length - tape.pos)
    let next := tape.pos + stored.length
    (.stored stored.length,
      ⟨tape.bytes.take tape.pos ++ stored ++ tape.bytes.drop next, next, max tape.mark next⟩)

/-- The position that is sought, which may be none. -/
def aim (tape : Tape) : SeekTarget → Int
  | .fromStart position => position
  | .fromEnd delta => tape.mark + delta
  | .fromHere delta => tape.pos + delta

/-- Goes to a position, unless that is negative or no word of 64 bits. -/
def seek (tape : Tape) (target : SeekTarget) : CursorAnswer × Tape :=
  if tape.aim target < 0 ∨ 2 ^ 64 ≤ tape.aim target then (.refused .seekOutOfRange, tape)
  else
    let pos := (tape.aim target).toNat
    (.position pos, { tape with pos := pos })

def readerCall (tape : Tape) : ReaderCall → CursorAnswer × Tape
  | .read count => tape.read count
  | .seek target => tape.seek target

def writerCall (index : Nat) (tape : Tape) : WriterCall → CursorAnswer × Tape
  | .write data => tape.write index data
  | .seek target => tape.seek target

theorem seek_eq (tape : Tape) (target : SeekTarget) :
    tape.seek target =
      match target.resolve tape.mark tape.pos with
      | .error failure => (.refused failure, tape)
      | .ok position => (.position position, { tape with pos := position }) := by
  have resolved : target.resolve tape.mark tape.pos =
      if 0 ≤ tape.aim target ∧ tape.aim target < 0x10000000000000000 then
        .ok (tape.aim target).toNat
      else .error .seekOutOfRange := by
    cases target <;> rfl
  unfold seek
  rw [resolved]
  by_cases outside : tape.aim target < 0 ∨ 2 ^ 64 ≤ tape.aim target
  · rw [if_pos outside, if_neg (by omega)]
  · rw [if_neg outside, if_pos (by omega)]

end Tape

/-- What a reader shows: the bytes in use of its region, with the mark at their end. -/
def SlotReader.tape (file : File) (reader : SlotReader) : Tape :=
  ⟨file.slice reader.region.offset reader.region.size, reader.pos, reader.region.size⟩

/-- The bytes in use of a reader's region lie in the file, and a tape is what it shows. -/
structure SlotReader.Shows (file : File) (reader : SlotReader) (tape : Tape) : Prop where
  held : reader.region.offset + reader.region.size ≤ file.size
  tape : tape = reader.tape file

namespace SlotReader.Shows

variable {file : File} {reader : SlotReader} {tape : Tape}

theorem read (shows : Shows file reader tape) (count : Nat) :
    CursorAnswer.of .bytes (reader.read file count).1 = (tape.read count).1 ∧
      Shows file (reader.read file count).2 (tape.read count).2 := by
  obtain ⟨held, rfl⟩ := shows
  have next : ((file.slice reader.region.offset reader.region.size).drop reader.pos).take count =
      file.slice (reader.region.offset + reader.pos) (min (reader.region.size - reader.pos) count) := by
    rw [File.toList_slice, File.toList_slice, List.drop_take, List.drop_drop, List.take_take,
      Nat.min_comm]
  have length : (file.slice (reader.region.offset + reader.pos)
      (min (reader.region.size - reader.pos) count)).length =
        min (reader.region.size - reader.pos) count := by
    rw [File.length_slice]
    omega
  unfold SlotReader.read Tape.read SlotReader.tape
  simp only [next, length]
  split
  · rename_i none
    have empty := List.eq_nil_of_length_eq_zero (length.trans none)
    exact ⟨congrArg CursorAnswer.bytes empty.symm, held, by rw [none]; rfl⟩
  · have within : reader.region.offset + reader.pos + min (reader.region.size - reader.pos) count ≤
        file.size := by omega
    simp only [File.read, if_pos (Or.inr within)]
    exact ⟨rfl, held, rfl⟩

theorem seek (shows : Shows file reader tape) (target : SeekTarget) :
    CursorAnswer.of .position (reader.seek target).1 = (tape.seek target).1 ∧
      Shows file (reader.seek target).2 (tape.seek target).2 := by
  obtain ⟨held, rfl⟩ := shows
  rw [Tape.seek_eq]
  simp only [SlotReader.seek, SlotReader.tape]
  cases target.resolve reader.region.size reader.pos <;> exact ⟨rfl, held, rfl⟩

theorem call (shows : Shows file reader tape) (call : ReaderCall) :
    (reader.call file call).1 = (tape.readerCall call).1 ∧
      Shows file (reader.call file call).2 (tape.readerCall call).2 := by
  cases call with
  | read count => exact shows.read count
  | seek target => exact shows.seek target

end SlotReader.Shows

/-- What a writer shows: as many bytes as its region has room for, and its own mark. -/
def SlotWriter.tape (view : SlotWriter × File) : Tape :=
  ⟨view.2.slice view.1.region.offset view.1.region.capacity, view.1.pos, view.1.highWater⟩

/-- A writer that was made over a file is still on its slot, all other bytes of the file are as they
were, and a tape is what the writer shows. -/
structure SlotWriter.Shows (made : SlotWriter) (file : File) (view : SlotWriter × File)
    (tape : Tape) : Prop where
  held : made.region.offset + made.region.capacity ≤ file.size
  index : view.1.index = made.index
  region : view.1.region = made.region
  size : view.2.size = file.size
  agrees : File.AgreesOutside made.region.offset (made.region.offset + made.region.capacity) file
    view.2
  tape : tape = SlotWriter.tape view

namespace SlotWriter.Shows

variable {made : SlotWriter} {file : File} {view : SlotWriter × File} {tape : Tape}

theorem bytes (shows : Shows made file view tape) :
    view.2.slice made.region.offset made.region.capacity = tape.bytes := by
  rw [shows.tape, SlotWriter.tape, shows.region]

theorem length_bytes (shows : Shows made file view tape) :
    tape.bytes.length = made.region.capacity := by
  have held := shows.held
  rw [← shows.bytes, File.length_slice, shows.size]
  omega

theorem slice_write (shows : Shows made file view tape) {stored : Bytes}
    (fits : stored = [] ∨ tape.pos + stored.length ≤ made.region.capacity) :
    (view.2.write (made.region.offset + tape.pos) stored).slice made.region.offset
        made.region.capacity =
      tape.bytes.take tape.pos ++ stored ++ tape.bytes.drop (tape.pos + stored.length) ∧
      (view.2.write (made.region.offset + tape.pos) stored).size = file.size := by
  have held := shows.held
  rw [← shows.size] at held ⊢
  rcases fits with rfl | fits
  · rw [File.write_nil, List.append_nil, List.length_nil, Nat.add_zero, List.take_append_drop]
    exact ⟨shows.bytes, rfl⟩
  · constructor
    · have laid := view.2.slice_write_over made.region.offset made.region.capacity tape.pos stored
        (Nat.le_of_add_right_le fits) held
      rwa [Nat.max_eq_left fits, shows.bytes] at laid
    · rw [File.size_write]
      split
      · rfl
      · omega

theorem write (shows : Shows made file view tape) (data : Bytes) :
    CursorAnswer.of .stored (view.1.write view.2 data).1 = (tape.write made.index data).1 ∧
      Shows made file (view.1.write view.2 data).2 (tape.write made.index data).2 := by
  have room := shows.length_bytes
  have inside := (view.1.logged_write view.2 data).within.agrees
  have pos : view.1.pos = tape.pos := congrArg Tape.pos shows.tape.symm
  have mark : view.1.highWater = tape.mark := congrArg Tape.mark shows.tape.symm
  rw [SlotWriter.write_eq, shows.region, pos] at inside
  rw [SlotWriter.write_eq, shows.region, shows.index, pos, mark]
  unfold Tape.write
  rw [room]
  by_cases full : made.region.capacity ≤ tape.pos ∧ data ≠ []
  · rw [if_pos full, if_pos full]
    exact ⟨rfl, shows⟩
  · rw [if_neg full] at inside
    rw [if_neg full, if_neg full]
    have short := List.length_take_le (made.region.capacity - tape.pos) data
    generalize data.take (made.region.capacity - tape.pos) = stored at inside short ⊢
    have fits : stored = [] ∨ tape.pos + stored.length ≤ made.region.capacity := by
      refine or_iff_not_imp_left.mpr fun filled => ?_
      have length := List.length_pos_iff.mpr filled
      omega
    obtain ⟨bytes, size⟩ := shows.slice_write fits
    exact ⟨rfl, shows.held, rfl, rfl, size, shows.agrees.trans inside,
      congrArg (Tape.mk · _ _) bytes.symm⟩

theorem seek (shows : Shows made file view tape) (target : SeekTarget) :
    CursorAnswer.of .position (view.1.seek target).1 = (tape.seek target).1 ∧
      Shows made file ((view.1.seek target).2, view.2) (tape.seek target).2 := by
  obtain ⟨held, index, region, size, agrees, rfl⟩ := shows
  rw [Tape.seek_eq]
  simp only [SlotWriter.seek, SlotWriter.tape]
  cases target.resolve view.1.highWater view.1.pos <;>
    exact ⟨rfl, held, index, region, size, agrees, rfl⟩

theorem call (shows : Shows made file view tape) (call : WriterCall) :
    (SlotWriter.call view call).1 = (tape.writerCall made.index call).1 ∧
      Shows made file (SlotWriter.call view call).2 (tape.writerCall made.index call).2 := by
  cases call with
  | write data => exact shows.write data
  | seek target => exact shows.seek target

end SlotWriter.Shows

namespace Container

/-- Views of a live slot are bounded cursors, whatever calls are made on them. A reader is a cursor
over the bytes that reading the slot as a whole gives. A writer is one over as many bytes as the slot
has room for, which in the end lie in the file as the cursor has left them; nothing else changes in
the file. Positions at which bytes are moved are words in the file; an empty write moves none, wherever
it is made. At a position of the file from `2 ^ 63` on it is answered that nothing was stored, where a
file system would refuse to seek and the view would be marked as failed. -/
theorem cursors_of_reachable {container : Container} (reached : Reachable container) {index : Nat}
    {region : Region} (live : container.liveRegion index = .ok region) :
    region.offset + region.capacity < 2 ^ 64 ∧
      (∃ contents reader, container.read index = .ok contents ∧ contents.length = region.size ∧
        container.reader index = .ok reader ∧ ∀ calls,
          let answered := callAll (SlotReader.call container.file) reader calls
          let expected := callAll Tape.readerCall ⟨contents, 0, region.size⟩ calls
          answered.1 = expected.1 ∧ answered.2.pos = expected.2.pos) ∧
      ∃ room writer, room = container.file.slice region.offset region.capacity ∧
        room.length = region.capacity ∧ container.writer index = .ok writer ∧ ∀ calls,
          let answered := callAll SlotWriter.call (writer, container.file) calls
          let expected := callAll (Tape.writerCall index) ⟨room, 0, 0⟩ calls
          answered.1 = expected.1 ∧ answered.2.1.pos = expected.2.pos ∧
            answered.2.2.slice region.offset region.capacity = expected.2.bytes ∧
            answered.2.2.size = container.file.size ∧
            File.AgreesOutside region.offset (region.offset + region.capacity) container.file
              answered.2.2 := by
  have here := (liveRegion_eq_ok_iff.mp live).2.2
  obtain ⟨_, laid, _⟩ := reached.sound.laid
  have high := (laid.within (laid.mem here rfl)).2
  have bounded := laid.bounded
  have stored := laid.held
  have fits := laid.size_le here rfl
  simp only [Span.next, Region.span] at high
  have held : region.offset + region.capacity ≤ container.file.size := by omega
  refine ⟨by omega, ⟨_, ⟨region, 0⟩, read_of_live reached.sound live, ?length, ?reader, ?reads⟩,
    ⟨_, ⟨index, region, 0, 0⟩, rfl, ?room, ?writer, ?writes⟩⟩
  case length =>
    rw [File.length_slice]
    omega
  case reader =>
    rw [Container.reader, live]
    rfl
  case reads =>
    intro calls
    have start : SlotReader.Shows container.file ⟨region, 0⟩
        ⟨container.file.slice region.offset region.size, 0, region.size⟩ := by
      refine ⟨?_, rfl⟩
      simp only
      omega
    obtain ⟨same, shows⟩ := callAll_of_alike SlotReader.Shows.call start calls
    exact ⟨same, congrArg Tape.pos shows.tape.symm⟩
  case room =>
    rw [File.length_slice]
    omega
  case writer => exact writer_eq_ok_iff.mpr ⟨region, live, rfl⟩
  case writes =>
    intro calls
    have start : SlotWriter.Shows ⟨index, region, 0, 0⟩ container.file
        (⟨index, region, 0, 0⟩, container.file)
        ⟨container.file.slice region.offset region.capacity, 0, 0⟩ :=
      ⟨held, rfl, rfl, rfl, .refl _ _ _, rfl⟩
    obtain ⟨same, shows⟩ := callAll_of_alike SlotWriter.Shows.call start calls
    exact ⟨same, congrArg Tape.pos shows.tape.symm, shows.bytes, shows.size, shows.agrees⟩

/-- A write that does not fit as a whole, one into a full slot, one of nothing beyond the slot, and a
target before the start. -/
theorem cursors_of_first_entry : ∃ container writer, Reachable container ∧
    container.liveRegion 1 = .ok ⟨0x238, 0, 16⟩ ∧ container.writer 1 = .ok writer ∧
      (callAll SlotWriter.call (writer, container.file) [.write (Bytes.zeros 20), .write [1],
        .seek (.fromStart 100), .write [], .seek (.fromHere (-101))]).1 =
          [.stored 16, .refused (.slotFull 1 16), .position 100, .stored 0,
            .refused .seekOutOfRange] := by
  have reached : Reachable ((create {}).newEntry 5).2 :=
    .step (reachable_create (by decide +kernel)) (.newEntry 5) rfl
  have live : ((create {}).newEntry 5).2.liveRegion 1 = .ok ⟨0x238, 0, 16⟩ := by decide +kernel
  obtain ⟨_, _, room, writer, _, length, made, answers⟩ := cursors_of_reachable reached live
  refine ⟨_, writer, reached, live, made, (answers _).1.trans ?_⟩
  simp [callAll, Tape.writerCall, Tape.write, Tape.seek, Tape.aim, length]

end Container

end SlotStore
