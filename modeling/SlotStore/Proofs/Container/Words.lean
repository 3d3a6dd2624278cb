import SlotStore.Container.Loading
import SlotStore.Proofs.File

/-!
Loading in machine words. Offsets, sizes and guard words come from the file and may be any words, so
here every sum, difference and product is one of words of 64 bits, which has no result where the exact
one is no such word. A sum that the loader tests itself may be without a result; everywhere else a
missing result is missing in the whole. For a file of less than `2 ^ 63` bytes nothing is missing, and
loading is the same as with exact numbers.
-/

namespace SlotStore

namespace Word

/-- The sum of two words, where it is a word. -/
def add? (left right : Nat) : Option Nat :=
  if left + right < 2 ^ 64 then some (left + right) else none

/-- The difference of two words, where it is a word. -/
def sub? (left right : Nat) : Option Nat := if right ≤ left then some (left - right) else none

/-- The product of two words, where it is a word. -/
def mul? (left right : Nat) : Option Nat :=
  if left * right < 2 ^ 64 then some (left * right) else none

variable {left right : Nat}

theorem add?_of_lt (small : left + right < 2 ^ 64) : add? left right = some (left + right) :=
  if_pos small

theorem add?_eq_some_iff {sum : Nat} :
    add? left right = some sum ↔ left + right < 2 ^ 64 ∧ left + right = sum := by
  unfold add?
  split
  · rename_i small
    rw [Option.some.injEq, and_iff_right small]
  · rename_i large
    exact iff_of_false nofun fun word => large word.1

theorem sub?_of_le (above : right ≤ left) : sub? left right = some (left - right) := if_pos above

theorem mul?_of_lt (small : left * right < 2 ^ 64) : mul? left right = some (left * right) :=
  if_pos small

theorem all_add? {limit : Nat} (word : limit < 2 ^ 64) :
    (add? left right).all (fun sum => decide (limit < sum)) = decide (limit < left + right) := by
  by_cases small : left + right < 2 ^ 64
  · rw [add?_of_lt small]
    rfl
  · rw [add?, if_neg small]
    simp only [Option.all_none, Bool.true_eq, decide_eq_true_eq]
    omega

end Word

namespace File

theorem intAt_bounds (file : File) (pos : Nat) :
    -2 ^ 63 ≤ file.intAt pos ∧ file.intAt pos < 2 ^ 63 := by
  have low := Bytes.toNat_lt (file.slice pos 8)
  have width : (file.slice pos 8).length ≤ 8 := by
    rw [length_slice]
    exact Nat.min_le_left ..
  have word : Bytes.toNat (file.slice pos 8) < 2 ^ 64 :=
    Nat.lt_of_lt_of_le low (Nat.pow_le_pow_right (n := 256) (by decide) width)
  simp only [intAt, Bytes.toInt]
  split <;> omega

theorem natAbs_intAt_le (file : File) (pos : Nat) : (file.intAt pos).natAbs ≤ 2 ^ 63 := by
  have word := file.intAt_bounds pos
  omega

end File

namespace Container

/-- The bytes from an offset on, with a guard word behind them, end within the file. -/
def fitsInWords (file : File) (offset capacity : Nat) : Option Bool :=
  match Word.add? offset capacity with
  | none => some false
  | some stop => (Word.add? stop 8).map fun behind => decide (behind ≤ file.size)

def regionStateInWords (file : File) (row : SlotRecord) : Option (Except Damage SlotState) :=
  let offset := row.offset.toNat
  let size := row.size.toNat
  if (Word.add? offset 8).all fun stop => decide (file.size < stop) then
    some (.error (.regionPastEnd offset file.size))
  else
    (Word.sub? offset 8).bind fun leading =>
      let guard := file.intAt leading
      let capacity := guard.natAbs
      if guard = 0 ∨ capacity % granule ≠ 0 ∨ leading % granule ≠ 0 then
        some (.error (.badLeadingGuard guard offset))
      else
        (fitsInWords file offset capacity).bind fun fits =>
          if fits = false then some (.error (.regionOverruns offset capacity))
          else
            (Word.add? offset capacity).bind fun trailing =>
              if file.intAt trailing ≠ guard then
                some (.error (.guardsDiffer offset guard (file.intAt trailing)))
              else if capacity < size then
                some (.error (.sizeOverCapacity offset size capacity))
              else if 0 < guard then some (.ok (.live ⟨offset, size, capacity⟩))
              else some (.ok (.free ⟨offset, size, capacity⟩ false))

/-- The states of recorded slots from an index on. -/
def slotStatesInWords (file : File) (index : Nat) (seen : List Nat) :
    List SlotRecord → Option (Except Damage (List SlotState))
  | [] => some (.ok [])
  | row :: rest =>
    let offset := row.offset.toNat
    if offset < firstOffset then
      (slotStatesInWords file (index + 1) seen rest).map fun states => states.map (.unused :: ·)
    else if index = 0 then some (.error .sentinelTaken)
    else if offset ∈ seen then some (.error (.regionShared offset))
    else
      (regionStateInWords file row).bind fun
        | .error damage => some (.error damage)
        | .ok state =>
          (slotStatesInWords file (index + 1) (offset :: seen) rest).map fun states =>
            states.map (state :: ·)

/-- The records of the slot table that a header points at. -/
def recordedRowsInWords (file : File) (header : Header) :
    Option (Except Fault (List SlotRecord)) :=
  let count := header.slotCount.toNat
  let offset := header.tableOffset.toNat
  (Word.mul? count SlotRecord.width).bind fun length =>
    if offset < firstOffset ∨ (Word.add? offset length).all fun stop => decide (file.size < stop) then
      some (.error (.malformed (.tableOutside count offset file.size)))
    else some (SlotRecord.decodeTable (file.slice offset length) count)

/-- The container that a legal header describes. Who owns the slot table and what the root is are
questions of comparing words. -/
def ofHeaderInWords (file : File) (header : Header) (settings : ContainerSettings) :
    Option (Except Fault Container) :=
  if header.slotCount = 0 then some (ofHeader file header settings)
  else
    (recordedRowsInWords file header).bind fun
      | .error fault => some (.error fault)
      | .ok rows =>
        (slotStatesInWords file 0 [] rows).map fun
          | .error damage => .error (.malformed damage)
          | .ok states =>
            match tableOwner (SlotTable.ofStates states) header.tableOffset.toNat with
            | .error damage => .error (.malformed damage)
            | .ok tableIndex =>
              match userRoot (SlotTable.ofStates states) tableIndex header.root.toNat with
              | .error damage => .error (.malformed damage)
              | .ok root =>
                .ok {
                  file
                  slots := SlotTable.ofStates states
                  tableIndex := some tableIndex
                  root
                  endOfFile := header.endOfFile.toNat
                  tableOffset := header.tableOffset.toNat
                  recordedSlots := header.slotCount.toNat
                  dirty := false
                  appendInFlight := false
                  settings }

/-- The container stored in a file that is not empty. -/
def loadInWords (file : File) (settings : ContainerSettings) : Option (Except Fault Container) :=
  if file.size < Header.width then some (.error (.malformed (.shortFile file.size)))
  else
    match Header.decode (file.slice 0 Header.width) with
    | .error fault => some (.error fault)
    | .ok header => ofHeaderInWords file header settings

variable {file : File}

theorem fitsInWords_of_lt {offset capacity : Nat} (small : offset + capacity + 8 < 2 ^ 64) :
    fitsInWords file offset capacity = some (decide (offset + capacity + 8 ≤ file.size)) := by
  rw [fitsInWords, Word.add?_of_lt (by omega)]
  simp only
  rw [Word.add?_of_lt small]
  rfl

/-- The sum of an offset within the file and a capacity is tested, but eight more are added to it
untested. A capacity is at most `2 ^ 63`, so this is still a word. -/
theorem fitsInWords_eq (bounded : file.size < 2 ^ 63) {offset capacity : Nat}
    (inside : offset + 8 ≤ file.size) (signed : capacity ≤ 2 ^ 63) :
    fitsInWords file offset capacity = some (decide (offset + capacity + 8 ≤ file.size)) :=
  fitsInWords_of_lt (by omega)

theorem regionStateInWords_eq (bounded : file.size < 2 ^ 63) {row : SlotRecord}
    (behind : firstOffset ≤ row.offset.toNat) :
    regionStateInWords file row = some (regionState file row) := by
  have signed := file.natAbs_intAt_le (row.offset.toNat - 8)
  simp only [firstOffset] at behind
  unfold regionStateInWords regionState
  simp only [Word.all_add? (show file.size < 2 ^ 64 by omega), decide_eq_true_eq]
  by_cases past : file.size < row.offset.toNat + 8
  · simp only [if_pos past]
  · simp only [if_neg past]
    rw [Word.sub?_of_le (by omega), Option.bind_some]
    by_cases bad : file.intAt (row.offset.toNat - 8) = 0 ∨
        (file.intAt (row.offset.toNat - 8)).natAbs % granule ≠ 0 ∨
          (row.offset.toNat - 8) % granule ≠ 0
    · simp only [if_pos bad]
    · simp only [if_neg bad]
      rw [fitsInWords_eq bounded (by omega) signed, Option.bind_some]
      by_cases beyond : file.size < row.offset.toNat +
          (file.intAt (row.offset.toNat - 8)).natAbs + 8
      · rw [if_pos (by simpa using beyond), if_pos beyond]
      · rw [if_neg (by simpa using beyond), if_neg beyond, Word.add?_of_lt (by omega),
          Option.bind_some]
        simp only [apply_ite some]

theorem slotStatesInWords_eq (bounded : file.size < 2 ^ 63) (rows : List SlotRecord) (index : Nat)
    (seen : List Nat) :
    slotStatesInWords file index seen rows = some (slotStates file index seen rows) := by
  induction rows generalizing index seen with
  | nil => rfl
  | cons row rest ih =>
    simp only [slotStatesInWords, slotStates, ih]
    by_cases low : row.offset.toNat < firstOffset
    · simp only [if_pos low, Option.map_some]
    · simp only [if_neg low, regionStateInWords_eq bounded (Nat.le_of_not_lt low),
        Option.bind_some, apply_ite some]
      cases regionState file row <;> rfl

theorem recordedRowsInWords_eq (bounded : file.size < 2 ^ 63) (header : Header) :
    recordedRowsInWords file header = some (recordedRows file header) := by
  have count := header.slotCount.toNat_lt
  have width : SlotRecord.width = 16 := rfl
  unfold recordedRowsInWords recordedRows
  simp only [Word.all_add? (show file.size < 2 ^ 64 by omega), decide_eq_true_eq]
  rw [Word.mul?_of_lt (by rw [width]; omega), Option.bind_some]
  simp only [apply_ite some]

theorem ofHeaderInWords_eq (bounded : file.size < 2 ^ 63) (header : Header)
    (settings : ContainerSettings) :
    ofHeaderInWords file header settings = some (ofHeader file header settings) := by
  unfold ofHeaderInWords
  by_cases none : header.slotCount = 0
  · simp only [if_pos none]
  · unfold ofHeader
    simp only [if_neg none, recordedRowsInWords_eq bounded, Option.bind_some]
    cases recordedRows file header with
    | error fault => rfl
    | ok rows =>
      refine (congrArg (Option.map _) (slotStatesInWords_eq bounded rows 0 [])).trans ?_
      dsimp only
      cases slotStates file 0 [] rows <;> rfl

/-- Loading a file of less than `2 ^ 63` bytes, whatever they are, stays within the words. -/
theorem loadInWords_eq (bounded : file.size < 2 ^ 63) (settings : ContainerSettings) :
    loadInWords file settings = some (load file settings) := by
  unfold loadInWords load
  by_cases short : file.size < Header.width
  · simp only [if_pos short]
  · simp only [if_neg short]
    cases Header.decode (file.slice 0 Header.width) with
    | error fault => rfl
    | ok header => exact ofHeaderInWords_eq bounded header settings

end Container

end SlotStore
