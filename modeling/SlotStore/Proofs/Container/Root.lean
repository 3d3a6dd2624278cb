import SlotStore.Proofs.Container.Growing
import SlotStore.Proofs.Container.Keeping
import SlotStore.Proofs.Container.Persistence

/-!
The root. It always names a slot in use, but nothing keeps the slot of a root from being released,
and a flush may take a released slot for the slot table. Where no flush begins while the root's slot
is free, the root is never the table's slot, and what is flushed can be opened again.
-/

namespace SlotStore.Container

/-- The root, if there is one, is not the slot of the slot table. -/
def UserRoot (container : Container) : Prop :=
  ∀ index, container.root = some index → container.tableIndex ≠ some index

/-- The slot of the root, if there is one, is live. -/
def LiveRoot (container : Container) : Prop :=
  ∀ index, container.root = some index → ∃ region, container.slots[index]? = some (.live region)

variable {container : Container}

theorem adoptStream_root (container : Container) (written : Nat) :
    (container.adoptStream written).2.root = container.root := by
  rcases container.adoptStream_cases written with ⟨_, refused⟩ | ⟨capacity, _, _, adopted⟩
  · rw [refused]
  · rw [adopted, placeRegion_root, extended_root]

theorem appendEntry_root (container : Container) (acts : List AppendAct) (ending : AppendEnd) :
    (container.appendEntry acts ending).2.root = container.root := by
  obtain ⟨_, _, _, ⟨_, _, left, _⟩ | ⟨_, left⟩⟩ := container.appendEntry_cases acts ending
  · rw [left]
  · rw [left, adoptStream_root]

theorem view_root (container : Container) (index : Nat) (acts : List WriterAct) :
    (container.view index acts).root = container.root := by
  rcases container.view_cases index acts with same | ⟨_, _, _, _, _, viewed⟩
  · rw [same]
  · rw [viewed, closeWriter, setSize_root]

theorem write_root (container : Container) (index : Nat) (data : Bytes) (pos : Nat) :
    (container.write index data pos).2.root = container.root := by
  rcases container.write_cases index data pos with ⟨_, refused⟩ | ⟨_, _, _, written⟩
  · rw [refused]
  · rw [written, setSize_root]

theorem Restated.root {index : Nat} {new : Container} (restated : Restated index container new) :
    new.root = container.root := by
  rcases restated with rfl | ⟨_, _, _, _, _, _, rfl⟩ <;> rfl

theorem flush_root (sound : container.Sound) : container.flush.2.root = container.root := by
  cases dirty : container.dirty with
  | false => rw [flush_of_clean dirty]
  | true =>
    rcases flush_cases sound dirty with ⟨_, _, moved⟩ | ⟨_, _, _, moved, _, written⟩
    · exact moved.root
    · rw [written]
      exact moved.root

/-- An operation that stores nothing leaves the root alone, or makes a live user slot the root. -/
theorem root_perform (sound : container.Sound) {act : ContainerAct} {next : Container}
    (performed : container.perform act = some next) (unstored : ¬act.Stores) :
    next.root = container.root ∨
      ∃ index region, container.liveRegion index = .ok region ∧ next.root = some index := by
  cases act with
  | newEntry size =>
    exact Or.inl (Option.some.inj performed ▸ (newEntry_frame container size).2.1)
  | append acts ending =>
    exact Or.inl (Option.some.inj performed ▸ appendEntry_root _ acts ending)
  | view index acts => exact Or.inl (Option.some.inj performed ▸ view_root container index acts)
  | write index data pos =>
    exact Or.inl (Option.some.inj performed ▸ write_root container index data pos)
  | release index =>
    exact Or.inl (Option.some.inj performed ▸ (restated_release container index).root)
  | claim index => exact Or.inl (Option.some.inj performed ▸ (restated_claim container index).root)
  | delete index =>
    exact Or.inl (Option.some.inj performed ▸ (restated_delete container index).root)
  | setRoot index =>
    rw [← Option.some.inj performed]
    rcases container.setRoot_cases index with ⟨_, refused⟩ | ⟨region, live, anchored⟩
    · exact Or.inl (by rw [refused])
    · exact Or.inr ⟨index, region, live, by rw [anchored]⟩
  | validate =>
    rw [← Option.some.inj performed, sound.validate_eq]
    exact Or.inl rfl
  | flush => exact absurd trivial unstored
  | reopen settings => exact absurd trivial unstored

/-- A flush spares live user slots, so it does not take the slot of a live root for the table. -/
theorem UserRoot.flush (user : container.UserRoot) (sound : container.Sound)
    (live : container.LiveRoot) : container.flush.2.UserRoot := by
  intro index anchored
  rw [flush_root sound] at anchored
  obtain ⟨region, here⟩ := live index anchored
  have held : container.liveRegion index = .ok region :=
    liveRegion_eq_ok_iff.mpr ⟨Nat.ne_of_gt (sound.root index anchored).1, user index anchored, here⟩
  exact (liveRegion_eq_ok_iff.mp (Spares.flush sound index region held).1).2.1

/-- Every operation keeps the root off the slot table, a flush while the root's slot is live. -/
theorem UserRoot.perform (user : container.UserRoot) (sound : container.Sound)
    (filled : SlotTable.Filled container.slots) {act : ContainerAct} {next : Container}
    (performed : container.perform act = some next)
    (live : act = .flush → container.LiveRoot) : next.UserRoot := by
  cases act with
  | flush => exact Option.some.inj performed ▸ user.flush sound (live rfl)
  | reopen settings =>
    obtain ⟨_, flushed, apart, rfl⟩ := (reopen_eq_some_iff sound).mp performed
    intro index anchored reserved
    exact apart index reserved ((flush_root sound).symm.trans anchored)
  | _ =>
    have table := (grows_perform sound filled performed id).table
    intro index anchored
    rw [table]
    rcases root_perform sound performed id with same | ⟨other, region, held, set⟩
    · exact user index (same ▸ anchored)
    · cases set.symm.trans anchored
      exact (liveRegion_eq_ok_iff.mp held).2.1

/-- The containers that operations lead to from a new one, if no flush begins while the slot of the
root is free. -/
inductive Rooted : Container → Prop where
  | created {settings : ContainerSettings} {container : Container} {file : File}
      (opened : openFile .empty settings = (.ok container, file)) : Rooted container
  | step {container next : Container} (rooted : Rooted container) (act : ContainerAct)
      (performed : container.perform act = some next)
      (live : act = .flush → container.LiveRoot) : Rooted next

theorem Rooted.reachable (rooted : Rooted container) : Reachable container := by
  induction rooted with
  | created opened => exact .created opened
  | step _ act performed _ reached => exact .step reached act performed

theorem Rooted.userRoot (rooted : Rooted container) : container.UserRoot := by
  induction rooted with
  | created opened =>
    rename_i settings _ _
    obtain ⟨legal, _⟩ := openFile_ok opened
    rw [openFile_empty legal] at opened
    rw [← Except.ok.inj (Prod.mk.inj opened).1]
    exact fun index anchored => nomatch anchored
  | step rooted act performed live user =>
    exact user.perform rooted.reachable.sound rooted.reachable.filled performed live

/-- The root of a container that can be reached is a slot in use behind the sentinel. -/
theorem Reachable.root_used (reached : Reachable container) {index : Nat}
    (anchored : container.root = some index) : 0 < index ∧ ∃ state region,
      container.slots[index]? = some state ∧ state.region? = some region := by
  obtain ⟨behind, bound⟩ := reached.sound.root index anchored
  have here := List.getElem?_eq_getElem bound
  obtain ⟨region, held⟩ := reached.filled.used behind here
  exact ⟨behind, _, region, here, held⟩

/-- Where no flush begins while the root's slot is free, the root is a slot in use that is not the
table's own, and every flush of a live root that succeeds leaves a file that gives the container
back. -/
theorem root_of_rooted (rooted : Rooted container) :
    (∀ index, container.root = some index → 0 < index ∧ container.tableIndex ≠ some index ∧
      ∃ state region, container.slots[index]? = some state ∧ state.region? = some region) ∧
      (container.LiveRoot → ∀ settings flushed, ContainerSettings.check settings = .ok () →
        container.flush = (.ok (), flushed) → flushed.GivenBack settings) := by
  have reached := rooted.reachable
  have user := rooted.userRoot
  refine ⟨fun index anchored => ?_, fun live settings flushed legal stored => ?_⟩
  · obtain ⟨behind, used⟩ := reached.root_used anchored
    exact ⟨behind, user index anchored, used⟩
  · have after := user.flush reached.sound live
    have sound := reached.sound.flush
    rw [stored] at after sound
    exact givenBack_of_clean sound (flush_ok reached.sound stored).1
      (fun index reserved anchored => after index anchored reserved) legal

theorem root_of_first_entry :
    Rooted ((((create {}).newEntry 5).2.setRoot 1).2.release 1).2 ∧
      ((((create {}).newEntry 5).2.setRoot 1).2.release 1).2.root = some 1 ∧
        ((((create {}).newEntry 5).2.setRoot 1).2.release 1).2.tableIndex ≠ some 1 := by
  have rooted : Rooted ((((create {}).newEntry 5).2.setRoot 1).2.release 1).2 :=
    .step (.step (.step (.created (openFile_empty (by decide +kernel))) (.newEntry 5) rfl
      (fun same => nomatch same)) (.setRoot 1) rfl (fun same => nomatch same)) (.release 1) rfl
      (fun same => nomatch same)
  have anchored : ((((create {}).newEntry 5).2.setRoot 1).2.release 1).2.root = some 1 := by
    decide +kernel
  exact ⟨rooted, anchored, ((root_of_rooted rooted).1 1 anchored).2.1⟩

/-- A released root with room for the slot table becomes the slot of the table, and the file that
the flush leaves behind is refused. -/
theorem flush_of_released_root_fails :
    Reachable (((((create {}).newEntry 1000).2.setRoot 1).2.release 1).2.flush).2 ∧
      (((((create {}).newEntry 1000).2.setRoot 1).2.release 1).2.flush).1 = .ok () ∧
      (((((create {}).newEntry 1000).2.setRoot 1).2.release 1).2.flush).2.root = some 1 ∧
      (((((create {}).newEntry 1000).2.setRoot 1).2.release 1).2.flush).2.tableIndex = some 1 ∧
      openFile (((((create {}).newEntry 1000).2.setRoot 1).2.release 1).2.flush).2.file {} =
        (.error (.malformed (.rootNotUser 1)),
          (((((create {}).newEntry 1000).2.setRoot 1).2.release 1).2.flush).2.file) := by
  have legal : ContainerSettings.check {} = .ok () := by decide +kernel
  have reached : Reachable (((((create {}).newEntry 1000).2.setRoot 1).2.release 1).2.flush).2 :=
    .step (.step (.step (.step (reachable_create legal) (.newEntry 1000) rfl)
      (.setRoot 1) rfl) (.release 1) rfl) .flush rfl
  have reserved : (((((create {}).newEntry 1000).2.setRoot 1).2.release 1).2.flush).2.tableIndex =
      some 1 := by decide +kernel
  have anchored : (((((create {}).newEntry 1000).2.setRoot 1).2.release 1).2.flush).2.root =
      some 1 := by decide +kernel
  exact ⟨reached, by decide +kernel, anchored, reserved,
    openFile_of_load_error legal reached.sound.size_ne_zero
      (load_of_reserved_root reached.sound (by decide +kernel) reserved anchored {})⟩

end SlotStore.Container
