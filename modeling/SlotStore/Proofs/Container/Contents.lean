import SlotStore.Proofs.Container.Invariant
import SlotStore.Proofs.Cursor

/-!
Reading and writing slots. A write stays inside its region, so it spares every other live user slot,
and what is read back is what was there with the new bytes laid over it.
-/

namespace SlotStore

namespace Container

variable {container : Container}

/-- The bytes of a live user slot are read where they lie in the file, if there are any. -/
theorem read_of_held {index : Nat} {region : Region}
    (live : container.liveRegion index = .ok region)
    (held : region.size = 0 ∨ region.offset + region.size ≤ container.file.size) :
    container.read index = .ok (container.file.slice region.offset region.size) := by
  unfold Container.read File.read
  rw [live]
  simp only
  rw [if_pos held]
  rfl

theorem read_of_live (sound : container.Sound) {index : Nat} {region : Region}
    (live : container.liveRegion index = .ok region) :
    container.read index = .ok (container.file.slice region.offset region.size) := by
  obtain ⟨lost, laid, _⟩ := sound.laid
  obtain ⟨_, _, here⟩ := liveRegion_eq_ok_iff.mp live
  have high := (laid.within (laid.mem here rfl)).2
  have size := laid.size_le here rfl
  have held := laid.held
  simp only [Span.next, Region.span] at high
  exact read_of_held live (Or.inr (by omega))

theorem liveRegion_of_read {index : Nat} {bytes : Bytes}
    (read : container.read index = .ok bytes) :
    ∃ region, container.liveRegion index = .ok region ∧ bytes.length = region.size := by
  unfold Container.read at read
  split at read
  · cases read
  · rename_i region live
    refine ⟨region, live, ?_⟩
    unfold File.read at read
    split at read
    · rename_i held
      cases read
      rw [File.length_slice]
      omega
    · cases read

/-- The container after the bytes of a live slot were changed and a size recorded. -/
theorem rewrite_eq {index : Nat} {region : Region}
    (here : container.slots[index]? = some (.live region)) (new : File) (size : Nat) :
    { container with file := new }.setSize index size = { container with
      file := new
      slots := container.slots.set index (.live { region with size := min size region.capacity })
      dirty := true } := by
  rw [setSize_eq { container with file := new } here rfl]
  rfl

theorem Sound.rewrite (sound : container.Sound) {index : Nat} {region : Region} {new : File}
    (here : container.slots[index]? = some (.live region))
    (inside : File.AgreesOutside region.offset (region.offset + region.capacity) container.file new)
    (size : Nat) : ({ container with file := new }.setSize index size).Sound := by
  rw [rewrite_eq here]
  refine sound.dirtied ?_ ?_ rfl (List.length_set ..) rfl
  · intro lost laid
    refine (laid.fill (laid.mem here rfl) inside).restate here rfl ?_
    intro resized held
    cases held
    exact Nat.min_le_right _ _
  · intro other reserved
    have bound := (List.getElem?_eq_some_iff.mp here).1
    obtain ⟨held, found⟩ := sound.table other reserved
    by_cases hit : index = other
    · subst hit
      exact ⟨{ region with size := min size region.capacity }, by simp [bound]⟩
    · exact ⟨held, by simp [List.getElem?_set_ne hit, found]⟩

theorem Spares.rewrite (sound : container.Sound) {index other : Nat} {region : Region} {new : File}
    (here : container.slots[other]? = some (.live region))
    (inside : File.AgreesOutside region.offset (region.offset + region.capacity) container.file new)
    (size : Nat) (different : other ≠ index) :
    Spares index container ({ container with file := new }.setSize other size) := by
  intro held live
  obtain ⟨nonzero, free, found⟩ := liveRegion_eq_ok_iff.mp live
  obtain ⟨lost, laid, _⟩ := sound.laid
  have apart := laid.apart here rfl found rfl different
  have high := (laid.within (laid.mem found rfl)).2
  have fileHeld := laid.held
  simp only [Span.Apart, Span.next, Region.span] at apart high
  rw [rewrite_eq here]
  refine ⟨liveRegion_eq_ok_iff.mpr ⟨nonzero, free, ?_⟩, inside.same _ _ (by omega) (by omega)⟩
  simp [List.getElem?_set_ne different, found]

/-- The slot after its bytes were changed and a size recorded, which is cut to its capacity. -/
theorem liveRegion_rewrite {index : Nat} {region : Region}
    (live : container.liveRegion index = .ok region) (new : File) (size : Nat) :
    ({ container with file := new }.setSize index size).liveRegion index =
      .ok { region with size := min size region.capacity } := by
  obtain ⟨nonzero, free, here⟩ := liveRegion_eq_ok_iff.mp live
  have bound := (List.getElem?_eq_some_iff.mp here).1
  rw [rewrite_eq here]
  refine liveRegion_eq_ok_iff.mpr ⟨nonzero, free, ?_⟩
  simp [bound]

theorem liveRegion_rewrite_of_fits {index : Nat} {region : Region}
    (live : container.liveRegion index = .ok region) (new : File) {size : Nat}
    (fits : size ≤ region.capacity) :
    ({ container with file := new }.setSize index size).liveRegion index =
      .ok { region with size := size } := by
  rw [liveRegion_rewrite live, Nat.min_eq_left fits]

theorem write_of_fits {index : Nat} {region : Region}
    (live : container.liveRegion index = .ok region) {data : Bytes} {pos : Nat}
    (fits : pos + data.length ≤ region.capacity) : container.write index data pos = (.ok (),
      { container with file := container.file.write (region.offset + pos) data }.setSize
        index (max region.size (pos + data.length))) := by
  unfold Container.write
  rw [live]
  simp only
  rw [if_neg (by omega)]

theorem write_cases (container : Container) (index : Nat) (data : Bytes) (pos : Nat) :
    (∃ fault, container.write index data pos = (.error fault, container)) ∨
      ∃ region, container.liveRegion index = .ok region ∧ pos + data.length ≤ region.capacity ∧
        container.write index data pos = (.ok (),
          { container with file := container.file.write (region.offset + pos) data }.setSize
            index (max region.size (pos + data.length))) := by
  unfold Container.write
  cases container.liveRegion index with
  | error fault => exact Or.inl ⟨fault, rfl⟩
  | ok region =>
    simp only
    split
    · exact Or.inl ⟨_, rfl⟩
    · exact Or.inr ⟨region, rfl, by omega, rfl⟩

private theorem inside_of_fits (file : File) {region : Region} {pos : Nat} {data : Bytes}
    (fits : pos + data.length ≤ region.capacity) :
    File.AgreesOutside region.offset (region.offset + region.capacity) file
      (file.write (region.offset + pos) data) :=
  File.AgreesOutside.write file (by omega) (by omega)

theorem Sound.write (sound : container.Sound) (index : Nat) (data : Bytes) (pos : Nat) :
    (container.write index data pos).2.Sound := by
  rcases container.write_cases index data pos with ⟨_, refused⟩ | ⟨region, live, fits, written⟩
  · rw [refused]
    exact sound
  · rw [written]
    exact sound.rewrite (liveRegion_eq_ok_iff.mp live).2.2 (inside_of_fits _ fits) _

theorem Spares.write (sound : container.Sound) {index other : Nat} (data : Bytes) (pos : Nat)
    (different : other ≠ index) : Spares index container (container.write other data pos).2 := by
  rcases container.write_cases other data pos with ⟨_, refused⟩ | ⟨region, live, fits, written⟩
  · rw [refused]
    exact Spares.refl index container
  · rw [written]
    exact Spares.rewrite sound (liveRegion_eq_ok_iff.mp live).2.2 (inside_of_fits _ fits) _ different

/-- Bytes written into a slot from inside its contents on, or from their end on, are read back over
the old ones. -/
theorem read_write (sound : container.Sound) {index : Nat} {region : Region}
    (live : container.liveRegion index = .ok region) {data : Bytes} {pos : Nat}
    (start : pos ≤ region.size) (fits : pos + data.length ≤ region.capacity) {bytes : Bytes}
    (held : container.read index = .ok bytes) :
    (container.write index data pos).1 = .ok () ∧
      (container.write index data pos).2.read index =
        .ok (bytes.take pos ++ data ++ bytes.drop (pos + data.length)) := by
  have here := (liveRegion_eq_ok_iff.mp live).2.2
  obtain ⟨lost, laid, _⟩ := sound.laid
  have high := (laid.within (laid.mem here rfl)).2
  have size := laid.size_le here rfl
  have fileHeld := laid.held
  simp only [Span.next, Region.span] at high
  rw [read_of_live sound live] at held
  cases held
  have after := liveRegion_rewrite_of_fits live
    (container.file.write (region.offset + pos) data) (Nat.max_le.mpr ⟨size, fits⟩)
  have soundAfter := sound.rewrite here (inside_of_fits container.file fits)
    (max region.size (pos + data.length))
  rw [write_of_fits live fits]
  refine ⟨rfl, ?_⟩
  rw [read_of_live soundAfter after, rewrite_eq here]
  simp only
  rw [File.slice_write_over container.file _ region.size pos data start (by omega)]

theorem Sound.closeWriter (sound : container.Sound) {writer moved : SlotWriter} {new : File}
    (here : container.slots[writer.index]? = some (.live writer.region))
    (inside : SlotWriter.Inside writer container.file moved new) :
    (container.closeWriter moved new).Sound := by
  unfold Container.closeWriter
  rw [inside.index]
  exact sound.rewrite here inside.agrees _

theorem Spares.closeWriter (sound : container.Sound) {writer moved : SlotWriter} {new : File}
    (here : container.slots[writer.index]? = some (.live writer.region))
    (inside : SlotWriter.Inside writer container.file moved new) {index : Nat}
    (different : writer.index ≠ index) : Spares index container (container.closeWriter moved new) := by
  unfold Container.closeWriter
  rw [inside.index]
  exact Spares.rewrite sound here inside.agrees _ different

theorem writer_eq_ok_iff {index : Nat} {writer : SlotWriter} :
    container.writer index = .ok writer ↔
      ∃ region, container.liveRegion index = .ok region ∧ writer = ⟨index, region, 0, 0⟩ := by
  unfold Container.writer
  cases container.liveRegion index with
  | error fault => simp [Except.map]
  | ok region => simp [Except.map, eq_comm]

/-- Filling a slot is refused at once, or comes to a use of a writer on that slot. -/
theorem fill_cases (container : Container) (index : Nat) (data : Bytes) :
    (∃ fault, container.fill index data = (.error fault, container)) ∨
      ∃ writer moved new, container.writer index = .ok writer ∧
        SlotWriter.Inside writer container.file moved new ∧
        (container.fill index data).2 = container.closeWriter moved new := by
  unfold fill
  cases made : container.writer index with
  | error fault => exact Or.inl ⟨fault, rfl⟩
  | ok writer =>
    have inside := (writer.logged_writeAll container.file data).within
    refine Or.inr ⟨writer, _, _, rfl, inside, ?_⟩
    simp only
    split <;> rename_i written <;> rw [written]

theorem Sound.fill (sound : container.Sound) (index : Nat) (data : Bytes) :
    (container.fill index data).2.Sound := by
  rcases container.fill_cases index data with ⟨_, refused⟩ | ⟨writer, _, _, made, inside, filled⟩
  · rw [refused]
    exact sound
  · obtain ⟨region, live, rfl⟩ := writer_eq_ok_iff.mp made
    rw [filled]
    exact sound.closeWriter (liveRegion_eq_ok_iff.mp live).2.2 inside

theorem Spares.fill (sound : container.Sound) {index other : Nat} (data : Bytes)
    (different : other ≠ index) : Spares index container (container.fill other data).2 := by
  rcases container.fill_cases other data with ⟨_, refused⟩ | ⟨writer, _, _, made, inside, filled⟩
  · rw [refused]
    exact Spares.refl index container
  · obtain ⟨region, live, rfl⟩ := writer_eq_ok_iff.mp made
    rw [filled]
    exact Spares.closeWriter sound (liveRegion_eq_ok_iff.mp live).2.2 inside different

theorem fill_of_fits {index : Nat} {region : Region}
    (live : container.liveRegion index = .ok region) {data : Bytes}
    (fits : data.length ≤ region.capacity) :
    container.fill index data = (.ok (),
      { container with file := container.file.write region.offset data }.setSize
        index data.length) := by
  have made : container.writer index = .ok ⟨index, region, 0, 0⟩ :=
    writer_eq_ok_iff.mpr ⟨region, live, rfl⟩
  have whole : min region.capacity data.length = data.length := Nat.min_eq_right fits
  unfold Container.fill
  rw [made]
  by_cases empty : data = []
  · subst empty
    simp [SlotWriter.writeAll, closeWriter]
  · have some : data.length ≠ 0 := fun none => empty (List.length_eq_zero_iff.mp none)
    simp [SlotWriter.writeAll, SlotWriter.write, closeWriter, empty, whole]

/-- Bytes that a live slot was filled with are read back, whatever else the file holds. -/
theorem read_fill {index : Nat} {region : Region}
    (live : container.liveRegion index = .ok region) {data : Bytes}
    (fits : data.length ≤ region.capacity) :
    (container.fill index data).2.liveRegion index = .ok { region with size := data.length } ∧
      (container.fill index data).2.read index = .ok data := by
  have here := (liveRegion_eq_ok_iff.mp live).2.2
  have after := liveRegion_rewrite_of_fits live (container.file.write region.offset data) fits
  have held : data.length = 0 ∨
      region.offset + data.length ≤ (container.file.write region.offset data).size := by
    refine or_iff_not_imp_left.mpr fun filled => ?_
    exact File.end_le_write _ _ _ fun empty => filled (List.length_eq_zero_iff.mpr empty)
  rw [fill_of_fits live fits]
  refine ⟨after, ?_⟩
  rw [read_of_held after (by rw [rewrite_eq here]; exact held), rewrite_eq here]
  exact congrArg Except.ok (File.slice_write_self ..)

/-- The second container is the first one, at most with another state over the region of a user
slot. -/
def Restated (index : Nat) (old new : Container) : Prop :=
  new = old ∨ ∃ before after region, old.slotOf index = .ok before ∧
    before.region? = some region ∧ after.region? = some region ∧ new = old.setState index after

theorem restated_release (container : Container) (index : Nat) :
    Restated index container (container.release index).2 := by
  unfold release
  split
  · exact Or.inl rfl
  · rename_i region found
    exact Or.inr ⟨_, .free region false, region, found, rfl, rfl, rfl⟩
  · exact Or.inl rfl

theorem restated_claim (container : Container) (index : Nat) :
    Restated index container (container.claim index).2 := by
  unfold claim
  split
  · exact Or.inl rfl
  · rename_i region _ found
    exact Or.inr ⟨_, .live region, region, found, rfl, rfl, rfl⟩
  · exact Or.inl rfl

theorem restated_delete (container : Container) (index : Nat) :
    Restated index container (container.delete index).2 := by
  unfold delete
  split
  · exact Or.inl rfl
  · rename_i region found
    exact Or.inr ⟨_, .free region true, region, found, rfl, rfl, rfl⟩
  · rename_i region _ found
    exact Or.inr ⟨_, .free region true, region, found, rfl, rfl, rfl⟩
  · exact Or.inl rfl

/-! Releasing, claiming and deleting a slot fail only where users may not name it. -/

theorem release_answer (container : Container) (index : Nat) :
    (container.release index).1 = (container.slotOf index).map fun _ => () := by
  unfold release
  cases container.slotOf index with
  | error fault => rfl
  | ok state => cases state <;> rfl

theorem claim_answer (container : Container) (index : Nat) :
    (container.claim index).1 = (container.slotOf index).map fun _ => () := by
  unfold claim
  cases container.slotOf index with
  | error fault => rfl
  | ok state => cases state <;> rfl

theorem delete_answer (container : Container) (index : Nat) :
    (container.delete index).1 = (container.slotOf index).map fun _ => () := by
  unfold delete
  cases container.slotOf index with
  | error fault => rfl
  | ok state => cases state <;> rfl

theorem Restated.eq_of_error {index : Nat} {attempt : Attempt Container Unit} {fault : Fault}
    {new : Container} (restated : Restated index container attempt.2)
    (answer : attempt.1 = (container.slotOf index).map fun _ => ())
    (refused : attempt = (.error fault, new)) : new = container := by
  subst refused
  rcases restated with same | ⟨_, _, _, user, _⟩
  · exact same
  · rw [user] at answer
    cases answer

theorem release_error_eq {index : Nat} {fault : Fault} {new : Container}
    (refused : container.release index = (.error fault, new)) : new = container :=
  (restated_release container index).eq_of_error (release_answer container index) refused

theorem claim_error_eq {index : Nat} {fault : Fault} {new : Container}
    (refused : container.claim index = (.error fault, new)) : new = container :=
  (restated_claim container index).eq_of_error (claim_answer container index) refused

theorem delete_error_eq {index : Nat} {fault : Fault} {new : Container}
    (refused : container.delete index = (.error fault, new)) : new = container :=
  (restated_delete container index).eq_of_error (delete_answer container index) refused

theorem Sound.restated (sound : container.Sound) {index : Nat} {new : Container}
    (restated : Restated index container new) : new.Sound := by
  rcases restated with rfl | ⟨before, after, region, user, old, same, rfl⟩
  · exact sound
  · obtain ⟨_, free, here, _⟩ := slotOf_eq_ok_iff.mp user
    obtain ⟨_, laid, _⟩ := sound.laid
    refine sound.setState here (by simp [SlotState.span?, old, same]) ?_ ?_
    · intro held holds
      cases Option.some.inj (same.symm.trans holds)
      exact laid.size_le here old
    · exact fun reserved => absurd reserved free

theorem Spares.restated {index other : Nat} {new : Container}
    (restated : Restated other container new) (different : other ≠ index) :
    Spares index container new := by
  rcases restated with rfl | ⟨_, after, _, _, _, _, rfl⟩
  · exact Spares.refl index _
  · exact Spares.setState container different after

/-- Releasing a slot changes the contents of no other, not even in a container that is damaged. -/
theorem read_release {slot other : Nat} {bytes : Bytes}
    (read : container.read slot = .ok bytes) (different : other ≠ slot) :
    (container.release other).2.read slot = .ok bytes := by
  obtain ⟨region, live, _⟩ := liveRegion_of_read read
  have restated := restated_release container other
  have still := (Spares.restated restated different region live).1
  have file : (container.release other).2.file = container.file := by
    rcases restated with same | ⟨_, _, _, _, _, _, changed⟩
    · rw [same]
    · rw [changed]
      rfl
  simp only [Container.read, live, still, file] at read ⊢
  exact read

theorem setRoot_cases (container : Container) (index : Nat) :
    (∃ fault, container.setRoot index = (.error fault, container)) ∨
      ∃ region, container.liveRegion index = .ok region ∧ container.setRoot index =
        (.ok (), { container with root := some index, dirty := true }) := by
  unfold setRoot
  cases container.liveRegion index with
  | error fault => exact Or.inl ⟨fault, rfl⟩
  | ok region => exact Or.inr ⟨region, rfl, rfl⟩

theorem Sound.setRoot (sound : container.Sound) (index : Nat) :
    (container.setRoot index).2.Sound := by
  rcases container.setRoot_cases index with ⟨_, refused⟩ | ⟨region, live, anchored⟩
  · rw [refused]
    exact sound
  · obtain ⟨nonzero, _, here⟩ := liveRegion_eq_ok_iff.mp live
    rw [anchored]
    exact {
      laid := sound.laid
      table := sound.table
      root := by
        intro other same
        cases same
        exact ⟨Nat.pos_of_ne_zero nonzero, (List.getElem?_eq_some_iff.mp here).1⟩
      limited := sound.limited
      saved := fun clean => absurd clean (by simp) }

theorem Spares.setRoot (container : Container) (index other : Nat) :
    Spares index container (container.setRoot other).2 := by
  rcases container.setRoot_cases other with ⟨_, refused⟩ | ⟨region, _, anchored⟩
  · rw [refused]
    exact Spares.refl index container
  · rw [anchored]
    exact fun held live => ⟨live, rfl⟩

end Container

end SlotStore
