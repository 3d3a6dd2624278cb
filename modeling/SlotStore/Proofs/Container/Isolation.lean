import SlotStore.Proofs.Container.Runs

/-!
Isolation of slots: whatever is done to a container, a live slot that is not itself written or given
up keeps its region and its contents.
-/

namespace SlotStore

/-- The operation writes to the slot or takes it from the live ones. -/
def ContainerAct.Touches (index : Nat) : ContainerAct → Prop
  | .view other _ | .write other _ _ | .release other | .delete other => other = index
  | _ => False

namespace Container

variable {container : Container}

theorem entry_of_live {index : Nat} {region : Region}
    (live : container.liveRegion index = .ok region) :
    container.entrySize index = .ok region.size ∧
      container.entryCapacity index = .ok region.capacity := by
  obtain ⟨nonzero, free, here⟩ := liveRegion_eq_ok_iff.mp live
  have user : container.slotOf index = .ok (.live region) :=
    slotOf_eq_ok_iff.mpr ⟨nonzero, free, here, by simp⟩
  simp [entrySize, entryCapacity, regionOf, user, SlotState.region?, Except.map]

theorem Spares.read {index : Nat} (sound : container.Sound) {next : Container}
    (spares : Spares index container next) (after : next.Sound) {region : Region}
    (live : container.liveRegion index = .ok region) :
    next.liveRegion index = .ok region ∧ next.read index = container.read index := by
  obtain ⟨still, same⟩ := spares region live
  obtain ⟨_, laid, _⟩ := sound.laid
  have fits := laid.size_le (liveRegion_eq_ok_iff.mp live).2.2 rfl
  refine ⟨still, ?_⟩
  rw [read_of_live after still, read_of_live sound live, ← File.take_slice _ _ fits, same,
    File.take_slice _ _ fits]

theorem claim_of_live {index : Nat} {region : Region}
    (live : container.liveRegion index = .ok region) :
    container.claim index = (.ok (), container) := by
  obtain ⟨nonzero, free, here⟩ := liveRegion_eq_ok_iff.mp live
  have user : container.slotOf index = .ok (.live region) :=
    slotOf_eq_ok_iff.mpr ⟨nonzero, free, here, by simp⟩
  simp only [claim, user]

/-- Every operation spares the live slots that it does not touch. -/
theorem Spares.perform (sound : container.Sound) {act : ContainerAct} {next : Container}
    (performed : container.perform act = some next) {index : Nat}
    (elsewhere : ¬act.Touches index) : Spares index container next := by
  cases act with
  | newEntry size => exact Option.some.inj performed ▸ Spares.newEntry sound size index
  | append acts ending =>
    exact Option.some.inj performed ▸ Spares.appendEntry sound acts ending index
  | view other acts => exact Option.some.inj performed ▸ Spares.view sound acts elsewhere
  | write other data pos => exact Option.some.inj performed ▸ Spares.write sound data pos elsewhere
  | release other =>
    exact Option.some.inj performed ▸ Spares.restated (restated_release _ other) elsewhere
  | claim other =>
    intro region live
    have changed : next = (container.claim other).2 := (Option.some.inj performed).symm
    by_cases same : other = index
    · subst same
      rw [changed, claim_of_live live]
      exact ⟨live, rfl⟩
    · rw [changed]
      exact Spares.restated (restated_claim _ other) same region live
  | delete other =>
    exact Option.some.inj performed ▸ Spares.restated (restated_delete _ other) elsewhere
  | setRoot other => exact Option.some.inj performed ▸ Spares.setRoot container index other
  | validate =>
    rw [← Option.some.inj performed, sound.validate_eq]
    exact Spares.refl index container
  | flush => exact Option.some.inj performed ▸ Spares.flush sound index
  | reopen settings => exact Spares.reopen sound performed index

/-- A live user slot of a container that can be reached keeps its region, its size and its contents
under every operation that does not touch it, and what is written into it within its capacity is
read back over the old contents. -/
theorem isolation_of_reachable (reached : Reachable container) {index : Nat} {region : Region}
    (live : container.liveRegion index = .ok region) :
    (∀ (act : ContainerAct) (next : Container), container.perform act = some next →
      ¬act.Touches index → next.liveRegion index = .ok region ∧
        next.read index = container.read index ∧
        next.entrySize index = container.entrySize index ∧
        next.entryCapacity index = container.entryCapacity index) ∧
      ∃ bytes, container.read index = .ok bytes ∧ bytes.length = region.size ∧
        ∀ (data : Bytes) (pos : Nat), pos ≤ region.size → pos + data.length ≤ region.capacity →
          (container.write index data pos).1 = .ok () ∧
            (container.write index data pos).2.read index =
              .ok (bytes.take pos ++ data ++ bytes.drop (pos + data.length)) := by
  have sound := reached.sound
  have held := read_of_live sound live
  refine ⟨?_, _, held, ?_, ?_⟩
  · intro act next performed elsewhere
    obtain ⟨still, same⟩ :=
      (Spares.perform sound performed elsewhere).read sound (sound.perform performed) live
    obtain ⟨size, capacity⟩ := entry_of_live live
    obtain ⟨sizeAfter, capacityAfter⟩ := entry_of_live still
    exact ⟨still, same, sizeAfter.trans size.symm, capacityAfter.trans capacity.symm⟩
  · obtain ⟨_, laid, _⟩ := sound.laid
    have here := (liveRegion_eq_ok_iff.mp live).2.2
    have fits := laid.size_le here rfl
    have high := (laid.within (laid.mem here rfl)).2
    have fileHeld := laid.held
    simp only [Span.next, Region.span] at high
    rw [File.length_slice]
    omega
  · exact fun data pos start fits => read_write sound live start fits held

theorem isolation_of_first_entry :
    ((create {}).newEntry 5).2.liveRegion 1 = .ok ⟨0x238, 0, 16⟩ ∧
      (((create {}).newEntry 5).2.flush).2.read 1 = ((create {}).newEntry 5).2.read 1 := by
  have reached : Reachable ((create {}).newEntry 5).2 :=
    .step (reachable_create (by decide +kernel)) (.newEntry 5) rfl
  have live : ((create {}).newEntry 5).2.liveRegion 1 = .ok ⟨0x238, 0, 16⟩ := by decide +kernel
  exact ⟨live, ((isolation_of_reachable reached live).1 .flush _ rfl id).2.1⟩

end Container

end SlotStore
