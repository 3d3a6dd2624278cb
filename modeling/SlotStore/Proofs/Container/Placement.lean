import SlotStore.Proofs.Container.Runs

/-!
Placement of regions, apart from what the file holds. Once the spans of the slots tile the file, every
operation keeps them so, and a region that is handed out touches none of the others. Nothing is
asked here of the guard words, so this also holds of containers over a file that someone else writes to.
-/

namespace SlotStore.Container

/-- The spans of the slots tile the file, together with spans that no slot holds. -/
structure Placed (container : Container) : Prop where
  sentinel : container.slots[0]? = some .unused
  tiled : ∃ order lost : List Span,
    order.Perm (container.slots.spans ++ lost) ∧ Tiles firstOffset order container.endOfFile

/-- A live slot whose region touches that of no other slot. -/
def Separate (container : Container) (index : Nat) : Prop :=
  ∃ region, container.slots[index]? = some (.live region) ∧
    ∀ (other : Nat) (state : SlotState) (held : Region), other ≠ index →
      container.slots[other]? = some state → state.region? = some held →
        region.span.Apart held.span

variable {container : Container}

namespace Placed

theorem filled (placed : container.Placed) : container.slots ≠ [] :=
  SlotTable.filled_of_sentinel placed.sentinel

theorem separate (placed : container.Placed) {index : Nat} {region : Region}
    (live : container.slots[index]? = some (.live region)) : container.Separate index := by
  refine ⟨region, live, fun other state held different found holds => ?_⟩
  obtain ⟨order, lost, same, tiles⟩ := placed.tiled
  have ordered : order.Pairwise Span.Apart := tiles.pairwise.imp Or.inl
  have pairwise := (same.pairwise_iff Span.Apart.symm).mp ordered
  exact SlotTable.relation_of_ne Span.Apart.symm (List.pairwise_append.mp pairwise).1 live rfl found
    (by simp [SlotState.span?, holds]) different.symm

theorem distinct (placed : container.Placed) : (container.slots.spans.map Span.offset).Nodup := by
  obtain ⟨order, lost, same, tiles⟩ := placed.tiled
  have listed := (same.map Span.offset).nodup_iff.mp tiles.distinct
  rw [List.map_append] at listed
  exact (List.nodup_append.mp listed).1

theorem of_shape_eq (placed : container.Placed) {new : Container}
    (shape : SlotTable.shape new.slots = SlotTable.shape container.slots)
    (stop : new.endOfFile = container.endOfFile) : new.Placed := by
  obtain ⟨order, lost, same, tiles⟩ := placed.tiled
  refine ⟨?_, order, lost, by rw [SlotTable.spans_eq_of_shape_eq shape]; exact same, stop ▸ tiles⟩
  have unheld : (SlotTable.shape new.slots)[0]? = some none := by
    rw [shape, SlotTable.getElem?_shape, placed.sentinel]
    rfl
  rw [SlotTable.getElem?_shape] at unheld
  obtain ⟨state, found, none⟩ := Option.map_eq_some_iff.mp unheld
  rw [found, SlotState.region?_eq_none_iff.mp (Option.map_eq_none_iff.mp none)]

theorem withFile (placed : container.Placed) (file : File) :
    Placed { container with file := file } :=
  placed.of_shape_eq rfl rfl

theorem setState (placed : container.Placed) {index : Nat} {old new : SlotState}
    (found : container.slots[index]? = some old) (same : new.span? = old.span?) :
    (container.setState index new).Placed :=
  placed.of_shape_eq (SlotTable.shape_set found same) rfl

theorem setSize (placed : container.Placed) (index size : Nat) :
    (container.setSize index size).Placed := by
  cases found : container.slots[index]? with
  | none =>
    unfold Container.setSize
    simp only [found]
    exact placed
  | some state =>
    cases held : state.region? with
    | none =>
      cases SlotState.region?_eq_none_iff.mp held
      unfold Container.setSize
      simp only [found]
      exact placed
    | some region =>
      rw [setSize_eq container found held]
      refine placed.setState found ?_
      cases state <;> rfl

theorem restated (placed : container.Placed) {index : Nat} {new : Container}
    (restated : Restated index container new) : new.Placed := by
  rcases restated with rfl | ⟨before, after, region, user, old, same, rfl⟩
  · exact placed
  · exact placed.setState (slotOf_eq_ok_iff.mp user).2.2.1 (by simp [SlotState.span?, old, same])

theorem write (placed : container.Placed) (index : Nat) (data : Bytes) (pos : Nat) :
    (container.write index data pos).2.Placed := by
  rcases container.write_cases index data pos with ⟨_, refused⟩ | ⟨region, _, _, written⟩
  · rw [refused]
    exact placed
  · rw [written]
    exact (placed.withFile _).setSize index _

theorem view (placed : container.Placed) (index : Nat) (acts : List WriterAct) :
    (container.view index acts).Placed := by
  rcases container.view_cases index acts with same | ⟨_, moved, new, _, _, viewed⟩
  · rw [same]
    exact placed
  · rw [viewed]
    exact (placed.withFile new).setSize _ _

theorem setRoot (placed : container.Placed) (index : Nat) :
    (container.setRoot index).2.Placed := by
  rcases container.setRoot_cases index with ⟨_, refused⟩ | ⟨_, _, anchored⟩
  · rw [refused]
    exact placed
  · rw [anchored]
    exact placed.of_shape_eq rfl rfl

/-- A region at the end of the file joins the tiling, with a slot or without one. -/
theorem placeRegion (placed : container.Placed) (capacity size : Nat) :
    ((container.extended capacity).placeRegion ⟨container.endOfFile, size, capacity⟩).2.Placed := by
  obtain ⟨order, lost, same, tiles⟩ := placed.tiled
  have onward : Tiles firstOffset (order ++ [⟨container.endOfFile, capacity⟩])
      (container.endOfFile + capacity + 16) := tiles.append (tiles_single _ capacity)
  have grown := (List.perm_append_singleton (⟨container.endOfFile, capacity⟩ : Span) order).trans
    (same.cons ⟨container.endOfFile, capacity⟩)
  rcases (container.extended capacity).placeRegion_cases ⟨container.endOfFile, size, capacity⟩ with
    ⟨index, slots, taken, done⟩ | ⟨_, refused⟩
  · rw [done]
    rw [extended_slots] at taken
    have got := SlotTable.acquired placed.filled taken
    refine ⟨?_, _, lost, grown.trans ?_, onward⟩
    · rw [List.getElem?_set_ne (Nat.ne_of_gt got.pos)]
      exact got.same 0 _ placed.sentinel
    · have joined := SlotTable.spans_set_unused got.unused
        (SlotState.span?_live ⟨container.endOfFile, size, capacity⟩)
      rw [SlotTable.spans_acquire taken] at joined
      exact (joined.symm.append_right lost)
  · rw [refused]
    exact ⟨placed.sentinel, _, _ :: lost, grown.trans List.perm_middle.symm, onward⟩

theorem newEntry (placed : container.Placed) (size : Nat) :
    (container.newEntry size).2.Placed := by
  rcases container.newEntry_cases size with
    ⟨_, refused⟩ | ⟨_, _, _, found, _, reused⟩ | ⟨capacity, _, _, appended⟩
  · rw [refused]
    exact placed
  · rw [reused]
    exact placed.setState found rfl
  · rw [appended]
    exact placed.placeRegion capacity 0

theorem adoptStream (placed : container.Placed) (written : Nat) :
    (container.adoptStream written).2.Placed := by
  rcases container.adoptStream_cases written with ⟨_, refused⟩ | ⟨capacity, _, _, adopted⟩
  · rw [refused]
    exact placed
  · rw [adopted]
    exact placed.placeRegion capacity written

theorem releaseTable (placed : container.Placed) : container.releaseTable.Placed := by
  unfold Container.releaseTable
  split
  · rename_i reserved table
    obtain ⟨index, named, here⟩ := tableRegion?_eq_some_iff.mp table
    cases reserved.symm.trans named
    exact placed.of_shape_eq (SlotTable.shape_set here rfl) rfl
  · exact placed.of_shape_eq rfl rfl

theorem moveTable (placed : container.Placed) : container.moveTable.2.Placed := by
  obtain ⟨size, ⟨_, _, refused⟩ | ⟨index, _, moved⟩⟩ := container.moveTable_cases
  · rw [refused]
    exact placed.releaseTable.newEntry size
  · rw [moved]
    exact (placed.releaseTable.newEntry size).of_shape_eq rfl rfl

theorem flush (placed : container.Placed) : container.flush.2.Placed :=
  of_flush (fun _ placed => placed.moveTable) (fun _ index size placed => placed.setSize index size)
    (fun _ _ slots _ stop placed => placed.of_shape_eq (by rw [slots]) stop) placed

end Placed

theorem placeRegion_ok {region : Region} {index : Nat} {new : Container}
    (filled : container.slots ≠ []) (placed : container.placeRegion region = (.ok index, new)) :
    new.slots[index]? = some (.live region) := by
  rcases container.placeRegion_cases region with ⟨other, slots, taken, done⟩ | ⟨_, refused⟩
  · have got := SlotTable.acquired filled taken
    rw [placed] at done
    cases done
    have bound := (List.getElem?_eq_some_iff.mp got.unused).1
    simp [bound]
  · rw [placed] at refused
    cases refused

theorem Placed.separate_newEntry (placed : container.Placed) {size index : Nat} {new : Container}
    (made : container.newEntry size = (.ok index, new)) : new.Separate index := by
  have after := placed.newEntry size
  rw [made] at after
  rcases container.newEntry_cases size with
    ⟨_, refused⟩ | ⟨other, region, _, found, _, reused⟩ | ⟨capacity, _, _, appended⟩
  · rw [made] at refused
    cases refused
  · rw [made] at reused
    cases reused
    have bound := (List.getElem?_eq_some_iff.mp found).1
    have here : (container.setState index (.live { region with size := 0 })).slots[index]? =
        some (.live { region with size := 0 }) := by simp [Container.setState, bound]
    exact after.separate here
  · rw [made] at appended
    exact after.separate (placeRegion_ok (by simpa using placed.filled) appended.symm)

theorem Placed.appendEntry (placed : container.Placed) (acts : List AppendAct)
    (ending : AppendEnd) : (container.appendEntry acts ending).2.Placed := by
  obtain ⟨_, file, _, ⟨_, _, left, _⟩ | ⟨written, left⟩⟩ := container.appendEntry_cases acts ending
  · rw [left]
    exact placed.of_shape_eq rfl rfl
  · rw [left]
    exact (placed.withFile file).adoptStream written

theorem Placed.separate_appendEntry (placed : container.Placed) {acts : List AppendAct}
    {ending : AppendEnd} {notes : List Nat} {index : Nat} {new : Container}
    (made : container.appendEntry acts ending = ((notes, .slot index), new)) :
    new.Separate index := by
  have after := placed.appendEntry acts ending
  rw [made] at after
  obtain ⟨_, file, _, ⟨_, _, left, none, _⟩ | ⟨written, left⟩⟩ :=
    container.appendEntry_cases acts ending
  · cases made.symm.trans left
    exact absurd rfl (none index)
  · obtain ⟨answer, moved⟩ := Prod.mk.inj (made.symm.trans left)
    have slot := AppendOutcome.ofResult_eq_slot_iff.mp (Prod.mk.inj answer).2.symm
    have adopted : { container with file := file }.adoptStream written = (.ok index, new) :=
      Prod.ext slot moved.symm
    rcases Container.adoptStream_cases { container with file := file } written with
      ⟨_, refused⟩ | ⟨capacity, _, _, done⟩
    · cases adopted.symm.trans refused
    · rw [adopted] at done
      exact after.separate (placeRegion_ok (by simpa using placed.filled) done.symm)

end SlotStore.Container
