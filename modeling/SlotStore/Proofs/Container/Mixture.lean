import SlotStore.Proofs.Container.Loading

/-!
A file whose slot records and whose guard words come from different containers over the same
regions. The records say where a region lies and how much of it is used, the guard words how long it
is and whether it is live; loading puts the two together.
-/

namespace SlotStore

/-- What loading makes of the row of one state and the guard words of another. -/
def SlotState.guardedBy (row guard : SlotState) : SlotState :=
  match row.region?, guard with
  | some region, .live _ => .live region
  | some region, .free _ deletable => .free region deletable
  | _, _ => .unused

namespace SlotState

variable {row guard : SlotState}

theorem region?_guardedBy (same : row.span? = guard.span?) :
    (row.guardedBy guard).region? = row.region? := by
  cases row <;> cases guard <;> first | rfl | simp at same

theorem isLive_guardedBy (same : row.span? = guard.span?) :
    (row.guardedBy guard).isLive = guard.isLive := by
  cases row <;> cases guard <;> first | rfl | simp at same

theorem guardWord_congr (same : row.span? = guard.span?) (live : row.isLive = guard.isLive) :
    row.guardWord = guard.guardWord := by
  have word {left right : Region} (equal : some left.span = some right.span) :
      signedCapacity left = signedCapacity right := by
    have capacity : left.capacity = right.capacity :=
      congrArg Span.capacity (Option.some.inj equal)
    unfold signedCapacity
    rw [capacity]
  cases row with
  | unused =>
    cases guard with
    | unused => rfl
    | live own => simp at same
    | free own deletable => simp at same
  | live region =>
    cases guard with
    | unused => simp at same
    | live own => exact congrArg some (word same)
    | free own deletable => simp [isLive] at live
  | free region deletable =>
    cases guard with
    | unused => simp at same
    | live own => simp [isLive] at live
    | free own marked =>
      exact congrArg (fun capacity => some (Int.bmod (-capacity) 0x10000000000000000)) (word same)

theorem guardWord_guardedBy (same : row.span? = guard.span?) :
    (row.guardedBy guard).guardWord = guard.guardWord := by
  refine guardWord_congr ?_ (isLive_guardedBy same)
  rw [span?, region?_guardedBy same]
  exact same

end SlotState

namespace SlotTable

/-- The rows of one table with the guard words of another. -/
def guardedBy (rows guards : SlotTable) : SlotTable := List.zipWith SlotState.guardedBy rows guards

variable {rows guards : SlotTable}

theorem map_guardedBy {Value : Type} {measure : SlotState → Value}
    (rowed : ∀ {row guard : SlotState}, row.span? = guard.span? →
      measure (row.guardedBy guard) = measure row)
    (same : rows.shape = guards.shape) :
    (rows.guardedBy guards).map measure = rows.map measure := by
  induction rows generalizing guards with
  | nil => simp [guardedBy]
  | cons row rest ih =>
    cases guards with
    | nil => cases same
    | cons guard others =>
      obtain ⟨head, tail⟩ := List.cons.inj same
      simp only [guardedBy, List.zipWith_cons_cons, List.map_cons, rowed head]
      exact congrArg _ (ih tail)

theorem shape_guardedBy (same : rows.shape = guards.shape) :
    (rows.guardedBy guards).shape = rows.shape :=
  map_guardedBy
    (fun held => by rw [SlotState.span?, SlotState.region?_guardedBy held, SlotState.span?]) same

theorem length_guardedBy (same : rows.shape = guards.shape) :
    (rows.guardedBy guards).length = rows.length :=
  length_of_shape_eq (shape_guardedBy same)

theorem getElem?_guardedBy {index : Nat} {row guard : SlotState} (rowHere : rows[index]? = some row)
    (guardHere : guards[index]? = some guard) :
    (rows.guardedBy guards)[index]? = some (row.guardedBy guard) := by
  simp [guardedBy, List.getElem?_zipWith, rowHere, guardHere]

theorem mem_guardedBy {state : SlotState} (same : rows.shape = guards.shape)
    (member : state ∈ rows.guardedBy guards) :
    ∃ row ∈ rows, ∃ guard ∈ guards, row.span? = guard.span? ∧ state = row.guardedBy guard := by
  obtain ⟨index, found⟩ := List.mem_iff_getElem?.mp member
  have shapes := congrArg (·[index]?) same
  simp only [getElem?_shape] at shapes
  rw [guardedBy, List.getElem?_zipWith] at found
  cases rowHere : rows[index]? with
  | none => simp [rowHere] at found
  | some row =>
    cases guardHere : guards[index]? with
    | none => simp [guardHere] at found
    | some guard =>
      simp only [rowHere, guardHere, Option.some.injEq, Option.map_some] at found shapes
      exact ⟨row, List.mem_of_getElem? rowHere, guard, List.mem_of_getElem? guardHere, shapes,
        found.symm⟩

end SlotTable

theorem Laid.guardedBy {file : File} {rows guards : SlotTable} {lost : List Span} {endOfFile : Nat}
    (laid : Laid file rows lost endOfFile) (same : rows.shape = guards.shape) :
    Laid file (rows.guardedBy guards) lost endOfFile := by
  refine laid.withSlots _ ?_ ?_ (SlotTable.spans_eq_of_shape_eq (SlotTable.shape_guardedBy same))
  · have bound := (List.getElem?_eq_some_iff.mp laid.sentinel).1
    have guardHere := List.getElem?_eq_getElem (SlotTable.length_of_shape_eq same ▸ bound)
    rw [SlotTable.getElem?_guardedBy laid.sentinel guardHere]
    rfl
  · intro state member region held
    obtain ⟨row, listed, guard, _, equal, rfl⟩ := SlotTable.mem_guardedBy same member
    rw [SlotState.region?_guardedBy equal] at held
    exact laid.sized row listed region held

namespace Container

/-- Both guard words of every region of a table say what its slot is. -/
def Signed (file : File) (slots : SlotTable) : Prop :=
  ∀ state ∈ slots, ∀ region guard, state.region? = some region → state.guardWord = some guard →
    file.intAt region.leadingGuard = guard ∧ file.intAt region.trailingGuard = guard

theorem written_guardedBy {base : Container} (sound : base.Sound) (saved : base.Saved)
    {rows guards : SlotTable} (rowShape : rows.shape = SlotTable.shape base.slots)
    (guardShape : guards.shape = SlotTable.shape base.slots) {file : File} {left : List Span}
    {stop : Nat} (laid : Laid file base.slots left stop)
    (header : file.slice 0 Header.width = base.file.slice 0 Header.width)
    (stored : file.slice base.tableOffset (base.slots.length * SlotRecord.width) =
      (rows.map SlotState.record).flatMap SlotRecord.encode)
    (signed : Signed file guards) :
    Written { base with file := file, slots := rows.guardedBy guards } := by
  have same : rows.shape = guards.shape := rowShape.trans guardShape.symm
  have length : (rows.guardedBy guards).length = base.slots.length :=
    (SlotTable.length_guardedBy same).trans (SlotTable.length_of_shape_eq rowShape)
  obtain ⟨index, region, _, here, offset, fits, _⟩ := saved.table
  obtain ⟨low, high⟩ := laid.within (laid.mem here rfl)
  have held := laid.held
  have bounded := laid.bounded
  simp only [Span.next, Region.span] at low high
  exact {
    header := header.trans saved.header
    ended := sound.ended
    placed := by
      simp only
      omega
    within := by
      simp only [length]
      omega
    rows := by
      simp only [length, records_eq]
      rw [stored, SlotTable.map_guardedBy (fun equal => ?_) same]
      rw [SlotState.record, SlotState.record, SlotState.region?_guardedBy equal]
    counted := saved.counted.trans length.symm
    limited := length ▸ saved.limited
    signed := by
      intro state member own word ownHeld guardWord
      obtain ⟨row, _, guard, listed, equal, rfl⟩ := SlotTable.mem_guardedBy same member
      rw [SlotState.region?_guardedBy equal] at ownHeld
      rw [SlotState.guardWord_guardedBy equal] at guardWord
      have spans : guard.span? = some own.span := by
        rw [← equal, SlotState.span?, ownHeld]
        rfl
      obtain ⟨guardRegion, guardHeld, place⟩ := Option.map_eq_some_iff.mp spans
      obtain ⟨leading, trailing⟩ := signed guard listed guardRegion word guardHeld guardWord
      simp only [Region.span, Span.mk.injEq] at place
      simp only [Region.leadingGuard, Region.trailingGuard, place.1, place.2] at leading trailing
      exact ⟨leading, trailing⟩
    root := by
      simp only [length]
      exact sound.root }

end Container

end SlotStore
