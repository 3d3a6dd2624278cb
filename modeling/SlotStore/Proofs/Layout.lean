import SlotStore.Container.Allocation
import SlotStore.Proofs.File
import SlotStore.Proofs.Tiling

/-!
The layout of a container's file: the spans of its slots tile the file behind the header, two equal
guard words around each span say how long it is, and a zero word ends the walk. The lemmas say
which writes and which changes of the slot table keep the layout.
-/

namespace SlotStore

/-- The guard words around a span are equal and their magnitude is its capacity. -/
def Guarded (file : File) (span : Span) : Prop :=
  (file.intAt (span.offset - 8)).natAbs = span.capacity ∧
    file.intAt (span.offset + span.capacity) = file.intAt (span.offset - 8)

theorem Guarded.congr {old new : File} {span : Span} (guarded : Guarded old span)
    (leading : new.intAt (span.offset - 8) = old.intAt (span.offset - 8))
    (trailing : new.intAt (span.offset + span.capacity) = old.intAt (span.offset + span.capacity)) :
    Guarded new span := by
  unfold Guarded
  rw [leading, trailing]
  exact guarded

/-- The layout of a file under a slot table. The spans of `lost` lie in the file like those of the
slots, but no slot holds them. -/
structure Laid (file : File) (slots : SlotTable) (lost : List Span) (endOfFile : Nat) : Prop where
  sentinel : slots[0]? = some .unused
  sized : ∀ state ∈ slots, ∀ region, state.region? = some region → region.size ≤ region.capacity
  tiled : ∃ order : List Span, order.Perm (slots.spans ++ lost) ∧ Tiles firstOffset order endOfFile
  legal : ∀ span ∈ slots.spans ++ lost, span.Legal
  guarded : ∀ span ∈ slots.spans ++ lost, Guarded file span
  ended : file.intAt (endOfFile - 8) = 0
  held : endOfFile ≤ file.size
  bounded : endOfFile < 2 ^ 64

namespace Laid

variable {file : File} {slots : SlotTable} {lost : List Span} {endOfFile : Nat}

theorem within (laid : Laid file slots lost endOfFile) {span : Span}
    (member : span ∈ slots.spans ++ lost) :
    firstOffset ≤ span.offset ∧ span.next ≤ endOfFile := by
  obtain ⟨order, same, tiles⟩ := laid.tiled
  exact tiles.within (same.mem_iff.mpr member)

theorem first_le (laid : Laid file slots lost endOfFile) : firstOffset ≤ endOfFile := by
  obtain ⟨_, _, tiles⟩ := laid.tiled
  exact tiles.start_le

theorem size_ne_zero (laid : Laid file slots lost endOfFile) : file.size ≠ 0 := by
  have low := laid.first_le
  have held := laid.held
  simp only [firstOffset] at low
  omega

theorem pairwise (laid : Laid file slots lost endOfFile) :
    (slots.spans ++ lost).Pairwise Span.Apart := by
  obtain ⟨order, same, tiles⟩ := laid.tiled
  have ordered : order.Pairwise Span.Apart := tiles.pairwise.imp Or.inl
  exact (same.pairwise_iff Span.Apart.symm).mp ordered

theorem eq_or_apart (laid : Laid file slots lost endOfFile) {left right : Span}
    (leftMember : left ∈ slots.spans ++ lost) (rightMember : right ∈ slots.spans ++ lost) :
    left = right ∨ left.Apart right := by
  by_cases same : left = right
  · exact Or.inl same
  · exact Or.inr (laid.pairwise.forall leftMember rightMember same)

theorem aligned (laid : Laid file slots lost endOfFile) {span : Span}
    (member : span ∈ slots.spans ++ lost) : (span.offset - 8) % granule = 0 := by
  obtain ⟨order, same, tiles⟩ := laid.tiled
  have low := (laid.within member).1
  have step := tiles.aligned (fun span inOrder => laid.legal span (same.mem_iff.mp inOrder))
    (same.mem_iff.mpr member)
  simp only [firstOffset, granule] at low step ⊢
  omega

theorem mem (_laid : Laid file slots lost endOfFile) {index : Nat} {state : SlotState}
    {region : Region} (found : slots[index]? = some state) (held : state.region? = some region) :
    region.span ∈ slots.spans ++ lost :=
  List.mem_append_left lost (SlotTable.mem_spans found held)

theorem size_le (laid : Laid file slots lost endOfFile) {index : Nat} {state : SlotState}
    {region : Region} (found : slots[index]? = some state) (held : state.region? = some region) :
    region.size ≤ region.capacity :=
  laid.sized state (List.mem_of_getElem? found) region held

theorem apart (laid : Laid file slots lost endOfFile) {left right : Nat}
    {leftState rightState : SlotState} {leftRegion rightRegion : Region}
    (leftFound : slots[left]? = some leftState) (leftHeld : leftState.region? = some leftRegion)
    (rightFound : slots[right]? = some rightState)
    (rightHeld : rightState.region? = some rightRegion) (different : left ≠ right) :
    leftRegion.span.Apart rightRegion.span :=
  SlotTable.relation_of_ne Span.Apart.symm (List.pairwise_append.mp laid.pairwise).1 leftFound
    (by simp [SlotState.span?, leftHeld]) rightFound (by simp [SlotState.span?, rightHeld]) different

theorem pos (laid : Laid file slots lost endOfFile) {index : Nat} {state : SlotState}
    {region : Region} (found : slots[index]? = some state) (held : state.region? = some region) :
    0 < index := by
  rcases Nat.eq_zero_or_pos index with zero | positive
  · subst zero
    have unused := Option.some.inj (laid.sentinel.symm.trans found)
    subst unused
    cases held
  · exact positive

/-- Another file with the same guard words and a zero word at the end keeps the layout. -/
theorem withFile (laid : Laid file slots lost endOfFile) {new : File}
    (grown : file.size ≤ new.size)
    (leading : ∀ span ∈ slots.spans ++ lost,
      new.intAt (span.offset - 8) = file.intAt (span.offset - 8))
    (trailing : ∀ span ∈ slots.spans ++ lost,
      new.intAt (span.offset + span.capacity) = file.intAt (span.offset + span.capacity))
    (ended : new.intAt (endOfFile - 8) = 0) : Laid new slots lost endOfFile where
  sentinel := laid.sentinel
  sized := laid.sized
  tiled := laid.tiled
  legal := laid.legal
  guarded := fun span member =>
    (laid.guarded span member).congr (leading span member) (trailing span member)
  ended := ended
  held := Nat.le_trans laid.held grown
  bounded := laid.bounded

theorem agree (laid : Laid file slots lost endOfFile) {new : File}
    (same : File.AgreesBelow endOfFile file new) : Laid new slots lost endOfFile := by
  have low := laid.first_le
  simp only [firstOffset] at low
  refine laid.withFile same.size_le ?_ ?_ ?_
  · intro span member
    obtain ⟨_, high⟩ := laid.within member
    simp only [Span.next] at high
    exact same.intAt (by omega)
  · intro span member
    obtain ⟨_, high⟩ := laid.within member
    simp only [Span.next] at high
    exact same.intAt (by omega)
  · rw [same.intAt (by omega), laid.ended]

theorem leading_outside (laid : Laid file slots lost endOfFile) {span own : Span}
    (member : span ∈ slots.spans ++ lost) (ownMember : own ∈ slots.spans ++ lost) :
    span.offset ≤ own.offset ∨ own.offset + own.capacity ≤ span.offset - 8 := by
  rcases laid.eq_or_apart member ownMember with same | before | behind
  · exact Or.inl (Nat.le_of_eq (congrArg Span.offset same))
  · simp only [Span.next] at before
    omega
  · simp only [Span.next] at behind
    omega

theorem trailing_outside (laid : Laid file slots lost endOfFile) {span own : Span}
    (member : span ∈ slots.spans ++ lost) (ownMember : own ∈ slots.spans ++ lost) :
    span.offset + span.capacity + 8 ≤ own.offset ∨
      own.offset + own.capacity ≤ span.offset + span.capacity := by
  rcases laid.eq_or_apart member ownMember with same | before | behind
  · subst same
    exact Or.inr (Nat.le_refl _)
  · simp only [Span.next] at before
    omega
  · simp only [Span.next] at behind
    omega

theorem fill (laid : Laid file slots lost endOfFile) {own : Span}
    (ownMember : own ∈ slots.spans ++ lost) {new : File}
    (inside : File.AgreesOutside own.offset (own.offset + own.capacity) file new) :
    Laid new slots lost endOfFile := by
  have held := laid.held
  have ownHigh := (laid.within ownMember).2
  simp only [Span.next] at ownHigh
  refine laid.withFile inside.size_le ?_ ?_ ?_
  · intro span member
    have outside := laid.leading_outside member ownMember
    obtain ⟨low, high⟩ := laid.within member
    simp only [firstOffset, Span.next] at low high
    exact inside.intAt (by omega) (by omega)
  · intro span member
    have outside := laid.trailing_outside member ownMember
    have high := (laid.within member).2
    simp only [Span.next] at high
    exact inside.intAt (by omega) (by omega)
  · rw [← laid.ended]
    exact inside.intAt (by omega) (by omega)

/-- Another table keeps the layout if the spans of its slots and those without a slot are the same
altogether. -/
theorem recast (laid : Laid file slots lost endOfFile) {new : SlotTable} {left : List Span}
    (sentinel : new[0]? = some .unused)
    (sized : ∀ state ∈ new, ∀ region, state.region? = some region → region.size ≤ region.capacity)
    (same : (new.spans ++ left).Perm (slots.spans ++ lost)) : Laid file new left endOfFile := by
  obtain ⟨order, ordered, tiles⟩ := laid.tiled
  exact {
    sentinel := sentinel
    sized := sized
    tiled := ⟨order, ordered.trans same.symm, tiles⟩
    legal := fun span member => laid.legal span (same.mem_iff.mp member)
    guarded := fun span member => laid.guarded span (same.mem_iff.mp member)
    ended := laid.ended
    held := laid.held
    bounded := laid.bounded }

theorem withSlots (laid : Laid file slots lost endOfFile) (new : SlotTable)
    (sentinel : new[0]? = some .unused)
    (sized : ∀ state ∈ new, ∀ region, state.region? = some region → region.size ≤ region.capacity)
    (same : new.spans = slots.spans) : Laid file new lost endOfFile :=
  laid.recast sentinel sized (by rw [same])

/-- Under a shorter table the regions of the slots behind it are without a slot. -/
theorem truncate (laid : Laid file slots lost endOfFile) {fewer : SlotTable} {behind : List Span}
    (sentinel : fewer[0]? = some .unused)
    (sized : ∀ state ∈ fewer, ∀ region,
      state.region? = some region → region.size ≤ region.capacity)
    (shape : slots.shape = fewer.shape ++ behind.map some) :
    Laid file fewer (behind ++ lost) endOfFile :=
  laid.recast sentinel sized (by rw [SlotTable.spans_eq_append shape, List.append_assoc])

theorem restate (laid : Laid file slots lost endOfFile) {index : Nat} {old new : SlotState}
    (found : slots[index]? = some old) (same : new.span? = old.span?)
    (fits : ∀ region, new.region? = some region → region.size ≤ region.capacity) :
    Laid file (slots.set index new) lost endOfFile := by
  refine laid.withSlots _ ?_ ?_ (SlotTable.spans_set found same)
  · rcases Nat.eq_zero_or_pos index with zero | positive
    · subst zero
      have unused := Option.some.inj (laid.sentinel.symm.trans found)
      subst unused
      cases new with
      | unused =>
        obtain ⟨bound, _⟩ := List.getElem?_eq_some_iff.mp found
        simp [bound]
      | live region => simp at same
      | free region deletable => simp at same
    · rw [List.getElem?_set_ne (by omega)]
      exact laid.sentinel
  · intro state member region held
    rcases List.mem_or_eq_of_mem_set member with old | fresh
    · exact laid.sized state old region held
    · subst fresh
      exact fits region held

/-- A lost span may be given to an unused slot. -/
theorem adopt {span : Span} (laid : Laid file slots (span :: lost) endOfFile) {index : Nat}
    {new : SlotState} (behind : 0 < index) (found : slots[index]? = some .unused)
    (same : new.span? = some span)
    (fits : ∀ region, new.region? = some region → region.size ≤ region.capacity) :
    Laid file (slots.set index new) lost endOfFile := by
  have moved : (SlotTable.spans (slots.set index new) ++ lost).Perm
      (slots.spans ++ span :: lost) :=
    ((SlotTable.spans_set_unused found same).append_right lost).trans List.perm_middle.symm
  refine laid.recast ?_ ?_ moved
  · rw [List.getElem?_set_ne (by omega)]
    exact laid.sentinel
  · intro state member region held
    rcases List.mem_or_eq_of_mem_set member with old | fresh
    · exact laid.sized state old region held
    · subst fresh
      exact fits region held

/-- The writes that append a region lay down its guard words and a new end, and nothing else. -/
theorem appended (file : File) {endOfFile capacity : Nat} (low : 8 ≤ endOfFile)
    (held : endOfFile ≤ file.size) (small : capacity < 2 ^ 63) :
    let new := file.writeAll (Container.appendWrites endOfFile capacity)
    endOfFile + capacity + 16 ≤ new.size ∧ File.AgreesBelow (endOfFile - 8) file new ∧
      new.intAt (endOfFile - 8) = capacity ∧ new.intAt (endOfFile + capacity) = capacity ∧
      new.intAt (endOfFile + capacity + 8) = 0 := by
  intro new
  let first := file.write (endOfFile + capacity + 8) (Bytes.ofInt 0)
  let second := first.write (endOfFile + capacity) (Bytes.ofInt capacity)
  have last : new = second.write (endOfFile - 8) (Bytes.ofInt capacity) := rfl
  have word (value : Int) : (Bytes.ofInt value).length = 8 := Bytes.length_ofInt value
  have filled (value : Int) : Bytes.ofInt value ≠ [] := by
    intro empty
    have length := word value
    rw [empty] at length
    cases length
  have firstSize : file.size ≤ first.size := File.size_le_write file _ _
  have firstEnd : endOfFile + capacity + 16 ≤ first.size := by
    have reached := File.end_le_write file (endOfFile + capacity + 8) _ (filled 0)
    rw [word] at reached
    exact reached
  have secondSize : first.size ≤ second.size := File.size_le_write first _ _
  have newSize : second.size ≤ new.size := last ▸ File.size_le_write second _ _
  refine ⟨by omega, ?_, ?_, ?_, ?_⟩
  · have beyond : File.AgreesBelow (endOfFile - 8) file first :=
      File.AgreesBelow.write file _ (by omega) (by omega)
    have again : File.AgreesBelow (endOfFile - 8) first second :=
      File.AgreesBelow.write first _ (by omega) (by omega)
    exact (beyond.trans again).trans (last ▸ File.AgreesBelow.write second _ (by omega) (by omega))
  · apply File.intAt_of_slice _ (by omega) (by omega)
    rw [last]
    exact File.slice_write_self second _ _
  · apply File.intAt_of_slice _ (by omega) (by omega)
    rw [last, File.slice_write_of_disjoint second _ _ _ _ (by rw [word]; omega)]
    exact File.slice_write_self first _ _
  · apply File.intAt_of_slice _ (by decide) (by decide)
    rw [last, File.slice_write_of_disjoint second _ _ _ _ (by rw [word]; omega),
      File.slice_write_of_disjoint first _ _ _ _ (by rw [word]; omega)]
    exact File.slice_write_self file _ _

/-- An appended region joins the layout, at first without a slot. -/
theorem extend (laid : Laid file slots lost endOfFile) {capacity : Nat}
    (legal : Span.Legal ⟨endOfFile, capacity⟩) (bounded : endOfFile + capacity + 16 < 2 ^ 64) :
    Laid (file.writeAll (Container.appendWrites endOfFile capacity)) slots
      (⟨endOfFile, capacity⟩ :: lost) (endOfFile + capacity + 16) := by
  have low := laid.first_le
  simp only [firstOffset] at low
  obtain ⟨size, agree, leading, trailing, ended⟩ :=
    appended file (by omega) laid.held legal.2.2
  have swap {span : Span} : span ∈ slots.spans ++ ⟨endOfFile, capacity⟩ :: lost ↔
      span = ⟨endOfFile, capacity⟩ ∨ span ∈ slots.spans ++ lost := by
    rw [List.perm_middle.mem_iff, List.mem_cons]
  obtain ⟨order, ordered, tiles⟩ := laid.tiled
  exact {
    sentinel := laid.sentinel
    sized := laid.sized
    tiled := by
      refine ⟨order ++ [⟨endOfFile, capacity⟩], ?_, tiles.append (tiles_single endOfFile capacity)⟩
      exact (List.perm_append_singleton _ order).trans
        ((ordered.cons _).trans List.perm_middle.symm)
    legal := by
      intro span member
      rcases swap.mp member with fresh | old
      · exact fresh ▸ legal
      · exact laid.legal span old
    guarded := by
      intro span member
      rcases swap.mp member with fresh | old
      · subst fresh
        exact ⟨by rw [leading]; rfl, by rw [leading, trailing]⟩
      · obtain ⟨_, high⟩ := laid.within old
        simp only [Span.next] at high
        exact (laid.guarded span old).congr (agree.intAt (by omega)) (agree.intAt (by omega))
    ended := ended
    held := size
    bounded := bounded }

end Laid

end SlotStore
