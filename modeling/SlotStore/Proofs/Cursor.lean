import SlotStore.Container.Cursor
import SlotStore.Proofs.File

/-!
Writing through a cursor. Every write that a writer accepts goes into a log, with its position in the
slot and the bytes that it stored: the file that is left behind is the old one with this log carried
out, the mark has risen to the furthest end in it, and stored bytes lie within the capacity. So nothing
outside the region of the slot changes.
-/

namespace SlotStore

namespace SlotWriter

/-- The furthest end of the writes in a log, or zero where there are none. -/
def furthest (log : List (Nat × Bytes)) : Nat :=
  (log.map fun step => step.1 + step.2.length).foldr max 0

theorem furthest_append (first second : List (Nat × Bytes)) :
    furthest (first ++ second) = max (furthest first) (furthest second) := by
  induction first with
  | nil => exact (Nat.max_eq_right (Nat.zero_le _)).symm
  | cons step rest ih =>
    simp only [furthest, List.cons_append, List.map_cons, List.foldr_cons] at ih ⊢
    rw [ih, Nat.max_assoc]

/-- What is stored of bytes that are written: as many as fit. Where none of several fits, the write is
refused. -/
def stores (writer : SlotWriter) (data : Bytes) : List (Nat × Bytes) :=
  if writer.region.capacity ≤ writer.pos ∧ data ≠ [] then []
  else [(writer.pos, data.take (writer.region.capacity - writer.pos))]

/-- What is stored where all of the bytes are to be written. Of no bytes no write is made at all. -/
def storesAll (writer : SlotWriter) (data : Bytes) : List (Nat × Bytes) :=
  if data = [] then [] else writer.stores data

/-- A writer has stored what a log says, and nothing else, and the log has raised its mark. -/
structure Logged (writer : SlotWriter) (file : File) (log : List (Nat × Bytes)) (moved : SlotWriter)
    (stored : File) : Prop where
  index : moved.index = writer.index
  region : moved.region = writer.region
  stored : stored = file.writeAll (log.map fun step => (writer.region.offset + step.1, step.2))
  mark : moved.highWater = max writer.highWater (furthest log)
  inside : ∀ step ∈ log, step.2 ≠ [] → step.1 + step.2.length ≤ writer.region.capacity

variable {writer : SlotWriter} {file : File}

theorem logged_refl (writer : SlotWriter) (file : File) : Logged writer file [] writer file :=
  ⟨rfl, rfl, rfl, (Nat.max_zero _).symm, nofun⟩

theorem Logged.trans {first second third : SlotWriter} {before between after : File}
    {early late : List (Nat × Bytes)} (left : Logged first before early second between)
    (right : Logged second between late third after) :
    Logged first before (early ++ late) third after where
  index := right.index.trans left.index
  region := right.region.trans left.region
  stored := by
    rw [right.stored, left.stored, left.region, List.map_append, File.writeAll_append]
  mark := by rw [right.mark, left.mark, furthest_append, Nat.max_assoc]
  inside := by
    intro step member filled
    rcases List.mem_append.mp member with here | there
    · exact left.inside step here filled
    · exact left.region ▸ right.inside step there filled

theorem write_eq (writer : SlotWriter) (file : File) (data : Bytes) :
    writer.write file data =
      if writer.region.capacity ≤ writer.pos ∧ data ≠ [] then
        (.error (.slotFull writer.index writer.region.capacity), writer, file)
      else
        let stored := data.take (writer.region.capacity - writer.pos)
        let next := writer.pos + stored.length
        (.ok stored.length, { writer with pos := next, highWater := max writer.highWater next },
          file.write (writer.region.offset + writer.pos) stored) := by
  have taken : data.take (min (writer.region.capacity - writer.pos) data.length) =
      data.take (writer.region.capacity - writer.pos) := by
    rw [← List.take_take, List.take_length]
  have full : min (writer.region.capacity - writer.pos) data.length = 0 ∧ data ≠ [] ↔
      writer.region.capacity ≤ writer.pos ∧ data ≠ [] := by
    refine and_congr_left fun filled => ?_
    have length := List.length_pos_iff.mpr filled
    omega
  unfold SlotWriter.write
  simp only [full, taken, List.length_take]

theorem logged_write (writer : SlotWriter) (file : File) (data : Bytes) :
    Logged writer file (writer.stores data) (writer.write file data).2.1
      (writer.write file data).2.2 := by
  rw [write_eq]
  unfold stores
  split
  · exact logged_refl writer file
  · refine ⟨rfl, rfl, rfl, by simp [furthest], ?_⟩
    intro step member filled
    cases List.mem_singleton.mp member
    have short := List.length_take_le (writer.region.capacity - writer.pos) data
    have length := List.length_pos_iff.mpr filled
    simp only at length ⊢
    omega

theorem logged_writeAll (writer : SlotWriter) (file : File) (data : Bytes) :
    Logged writer file (writer.storesAll data) (writer.writeAll file data).2.1
      (writer.writeAll file data).2.2 := by
  have once := writer.logged_write file data
  unfold storesAll writeAll
  by_cases empty : data = []
  · subst empty
    exact logged_refl writer file
  · simp only [if_neg empty, List.isEmpty_iff]
    rcases written : writer.write file data with ⟨failure | taken, moved, stored⟩
    · rw [written] at once
      exact once
    · rw [written] at once
      simp only
      split <;> exact once

theorem logged_seek (writer : SlotWriter) (file : File) (target : SeekTarget) :
    Logged writer file [] (writer.seek target).2 file := by
  unfold seek
  split
  · exact logged_refl writer file
  · exact ⟨rfl, rfl, rfl, (Nat.max_zero _).symm, nofun⟩

/-- A cursor stays on its slot and stores nothing outside its region. -/
structure Inside (writer : SlotWriter) (file : File) (moved : SlotWriter) (stored : File) : Prop where
  index : moved.index = writer.index
  region : moved.region = writer.region
  agrees : File.AgreesOutside writer.region.offset
    (writer.region.offset + writer.region.capacity) file stored

theorem Logged.within {log : List (Nat × Bytes)} {moved : SlotWriter} {stored : File}
    (logged : Logged writer file log moved stored) : Inside writer file moved stored := by
  refine ⟨logged.index, logged.region, logged.stored ▸ File.AgreesOutside.writeAll file ?_⟩
  intro step member filled
  obtain ⟨own, listed, rfl⟩ := List.mem_map.mp member
  have fits := logged.inside own listed filled
  exact ⟨Nat.le_add_right _ _, by simp only; omega⟩

end SlotWriter

end SlotStore
