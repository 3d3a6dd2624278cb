import SlotStore.Proofs.Container.Isolation

/-!
What an owner of several slots relies on: a step that keeps the invariant and the root and spares
each of the owner's slots. Beside it stand the outcomes of an owner's own operations.
-/

namespace SlotStore.Container

/-- A step to a sound container with the same root that spares the listed slots. -/
structure Keeps (owned : List Nat) (old new : Container) : Prop where
  sound : new.Sound
  root : new.root = old.root
  spares : ∀ slot ∈ owned, Spares slot old new

variable {container : Container} {owned : List Nat}

theorem Keeps.refl (sound : container.Sound) (owned : List Nat) : Keeps owned container container :=
  ⟨sound, rfl, fun slot _ => Spares.refl slot container⟩

theorem Keeps.trans {first second third : Container} (left : Keeps owned first second)
    (right : Keeps owned second third) : Keeps owned first third :=
  ⟨right.sound, right.root.trans left.root,
    fun slot member => (left.spares slot member).trans (right.spares slot member)⟩

theorem Keeps.mono {old new : Container} (keeps : Keeps owned old new) {fewer : List Nat}
    (listed : fewer ⊆ owned) : Keeps fewer old new :=
  ⟨keeps.sound, keeps.root, fun slot member => keeps.spares slot (listed member)⟩

theorem Keeps.read {new : Container} (keeps : Keeps owned container new) (sound : container.Sound)
    {slot : Nat} (member : slot ∈ owned) {region : Region}
    (live : container.liveRegion slot = .ok region) :
    new.liveRegion slot = .ok region ∧ new.read slot = container.read slot :=
  (keeps.spares slot member).read sound keeps.sound live

theorem keeps_newEntry (sound : container.Sound) (owned : List Nat) (size : Nat) :
    Keeps owned container (container.newEntry size).2 :=
  ⟨sound.newEntry size, (newEntry_frame container size).2.1,
    fun slot _ => Spares.newEntry sound size slot⟩

/-- A slot that is handed out was no live user slot, and is one now, with room for the request. -/
theorem newEntry_live (sound : container.Sound) {size slot : Nat} {new : Container}
    (made : container.newEntry size = (.ok slot, new)) :
    (∀ region, container.liveRegion slot ≠ .ok region) ∧
      ∃ region, new.liveRegion slot = .ok region ∧ size ≤ region.capacity := by
  obtain ⟨fresh, positive, _, region, here, _, room⟩ := newEntry_ok sound made
  have table : new.tableIndex = container.tableIndex := by
    have frame := (newEntry_frame container size).1
    rw [made] at frame
    exact frame
  refine ⟨fun region live => fresh region (liveRegion_eq_ok_iff.mp live).2.2, region,
    liveRegion_eq_ok_iff.mpr ⟨Nat.ne_of_gt positive, fun reserved => ?_, here⟩, room⟩
  obtain ⟨other, held⟩ := sound.table slot (table ▸ reserved)
  exact fresh other held

theorem length_of_read (sound : container.Sound) {slot : Nat} {region : Region}
    (live : container.liveRegion slot = .ok region) {bytes : Bytes}
    (held : container.read slot = .ok bytes) :
    bytes.length = region.size ∧ region.size ≤ region.capacity := by
  obtain ⟨_, same, length⟩ := liveRegion_of_read held
  cases Except.ok.inj (live.symm.trans same)
  obtain ⟨_, laid, _⟩ := sound.laid
  exact ⟨length, laid.size_le (liveRegion_eq_ok_iff.mp live).2.2 rfl⟩

theorem read_newEntry (sound : container.Sound) {size slot : Nat} {new : Container}
    (made : container.newEntry size = (.ok slot, new)) : new.read slot = .ok [] := by
  have soundNew := sound.newEntry size
  rw [made] at soundNew
  obtain ⟨_, region, live, _⟩ := newEntry_live sound made
  obtain ⟨_, _, _, other, here, empty, _⟩ := newEntry_ok sound made
  cases SlotState.live.inj (Option.some.inj ((liveRegion_eq_ok_iff.mp live).2.2.symm.trans here))
  have held := read_of_live soundNew live
  have none := (length_of_read soundNew live held).1
  rw [held, List.eq_nil_of_length_eq_zero (none.trans empty)]

@[simp] theorem setSize_root (container : Container) (slot size : Nat) :
    (container.setSize slot size).root = container.root := by
  unfold setSize
  split <;> rfl

theorem keeps_fill (sound : container.Sound) {slot : Nat} (apart : slot ∉ owned) (data : Bytes) :
    Keeps owned container (container.fill slot data).2 := by
  refine ⟨sound.fill slot data, ?_, fun other member => ?_⟩
  · rcases container.fill_cases slot data with ⟨_, refused⟩ | ⟨_, _, _, _, _, filled⟩
    · rw [refused]
    · rw [filled, closeWriter, setSize_root]
  · exact Spares.fill sound data fun same => apart (same ▸ member)

theorem fits_of_fill_ok {slot : Nat} {data : Bytes}
    (filled : (container.fill slot data).1 = .ok ()) :
    ∃ region, container.liveRegion slot = .ok region ∧ data.length ≤ region.capacity := by
  unfold fill at filled
  cases made : container.writer slot with
  | error fault =>
    rw [made] at filled
    cases filled
  | ok writer =>
    obtain ⟨region, live, rfl⟩ := writer_eq_ok_iff.mp made
    refine ⟨region, live, Nat.le_of_not_lt fun excess => ?_⟩
    have some : data ≠ [] := fun empty => by simp [empty] at excess
    have cut : min region.capacity data.length = region.capacity :=
      Nat.min_eq_left (Nat.le_of_lt excess)
    have positive : 0 < data.length := List.length_pos_iff.mpr some
    rw [made] at filled
    by_cases none : region.capacity = 0
    · simp [SlotWriter.writeAll, SlotWriter.write, some, none] at filled
    · simp [SlotWriter.writeAll, SlotWriter.write, some, cut, excess, none] at filled

theorem read_of_fill_ok {slot : Nat} {data : Bytes} {new : Container}
    (filled : container.fill slot data = (.ok (), new)) :
    (∃ region, new.liveRegion slot = .ok region) ∧ new.read slot = .ok data := by
  obtain ⟨region, live, fits⟩ := fits_of_fill_ok (congrArg Prod.fst filled)
  have contents := read_fill live fits
  rw [filled] at contents
  exact ⟨⟨_, contents.1⟩, contents.2⟩

theorem keeps_release (sound : container.Sound) {slot : Nat} (apart : slot ∉ owned) :
    Keeps owned container (container.release slot).2 := by
  have restated := restated_release container slot
  refine ⟨sound.restated restated, ?_, fun other member =>
    Spares.restated restated fun same => apart (same ▸ member)⟩
  rcases restated with same | ⟨_, _, _, _, _, _, changed⟩
  · rw [same]
  · rw [changed]
    rfl

theorem release_of_live {slot : Nat} {region : Region}
    (live : container.liveRegion slot = .ok region) :
    (container.release slot).1 = .ok () := by
  obtain ⟨nonzero, free, here⟩ := liveRegion_eq_ok_iff.mp live
  have user : container.slotOf slot = .ok (.live region) :=
    slotOf_eq_ok_iff.mpr ⟨nonzero, free, here, by simp⟩
  simp only [release, user]

theorem keeps_flush (sound : container.Sound) (owned : List Nat) :
    Keeps owned container container.flush.2 :=
  ⟨sound.flush, root_flush sound, fun slot _ => Spares.flush sound slot⟩

theorem keeps_reloaded (sound : container.Sound) (clean : container.dirty = false)
    (owned : List Nat) (settings : ContainerSettings) :
    Keeps owned container (container.reloaded settings) :=
  ⟨sound.reloaded clean settings, rfl, fun slot _ => Spares.reloaded container settings slot⟩

end SlotStore.Container
