import SlotStore.Proofs.Archive.Invariant

/-!
Changes to an archive in memory. A change that succeeds is made to the map as well; one that is
refused leaves the map alone, whatever it has done to the container.
-/

namespace SlotStore

/-- The changed map where an operation succeeded, the old one where it failed. -/
def KeyMap.after {Value : Type} (map : KeyMap) (result : Except Fault Value) (changed : KeyMap) :
    KeyMap :=
  match result with
  | .ok _ => changed
  | .error _ => map

theorem ArchiveSettings.check_compression {settings : ArchiveSettings}
    (legal : settings.check = .ok ()) : settings.compression.check = .ok () := by
  unfold ArchiveSettings.check at legal
  split at legal
  · cases legal
  · split at legal
    · cases legal
    · exact legal

namespace Archive

variable {archive : Archive} {map : KeyMap}

theorem mem_ownedBeside {key other : ContentKey} (different : other ≠ key) {entry : ArchiveEntry}
    (found : archive.catalog.lookup? other = some entry) : entry.slot ∈ archive.ownedBeside key := by
  obtain ⟨member, same⟩ := Catalog.mem_of_lookup? found
  have listed : entry.slot ∈ (archive.catalog.without key).slots :=
    List.mem_map_of_mem (Catalog.mem_without_iff.mpr ⟨member, same ▸ different⟩)
  exact List.mem_cons_of_mem _ (List.mem_append_right _ listed)

theorem ownedBeside_subset (archive : Archive) (key : ContentKey) :
    archive.ownedBeside key ⊆ archive.owned :=
  (archive.ownedBeside_sublist key).subset

theorem Holds.live_beside (holds : archive.Holds map) {key : ContentKey} {new : Container}
    (keeps : Container.Keeps (archive.ownedBeside key) archive.container new) {slot : Nat}
    (member : slot ∈ archive.ownedBeside key) : ∃ region, new.liveRegion slot = .ok region :=
  (holds.read keeps member (archive.ownedBeside_subset key member)).1

theorem Holds.beside (holds : archive.Holds map) {key other : ContentKey} (different : other ≠ key)
    {new : Container} (keeps : Container.Keeps (archive.ownedBeside key) archive.container new) :
    Option.Rel (Backs new) (archive.catalog.lookup? other) (map other) := by
  refine related_of_related (holds.contents other) fun entry blob found backs => ?_
  exact backs.keep
    (holds.read keeps (mem_ownedBeside different found) (mem_owned_of_lookup? found)).2

theorem Holds.forget (holds : archive.Holds map) (key : ContentKey) {new : Container}
    (keeps : Container.Keeps (archive.ownedBeside key) archive.container new) :
    Holds { archive with
      container := new, catalog := archive.catalog.without key, dirty := true } (map.erase key) where
  sound := keeps.sound
  anchored := keeps.root.trans holds.anchored
  distinct := holds.distinct.sublist (archive.ownedBeside_sublist key)
  live := fun _ member => holds.live_beside keeps member
  sorted := holds.sorted.without key
  contents := by
    intro other
    simp only [Catalog.lookup?_without, KeyMap.erase]
    split
    · exact .none
    · rename_i different
      exact holds.beside different keeps
  recorded := nofun
  legal := holds.legal

/-- An entry whose slot is live, serves nothing else and holds the blob may take the place of what
its key named. -/
theorem Holds.put (holds : archive.Holds map) (entry : ArchiveEntry) {blob : Bytes}
    {new : Container}
    (keeps : Container.Keeps (archive.ownedBeside entry.key) archive.container new)
    (apart : entry.slot ∉ archive.ownedBeside entry.key)
    (live : ∃ region, new.liveRegion entry.slot = .ok region) (backs : Backs new entry blob) :
    Holds { archive with
      container := new, catalog := archive.catalog.put entry, dirty := true }
      (map.insert entry.key blob) where
  sound := keeps.sound
  anchored := keeps.root.trans holds.anchored
  distinct := by
    refine (owned_put archive new entry).nodup_iff.mpr (List.nodup_cons.mpr ⟨apart, ?_⟩)
    exact holds.distinct.sublist (archive.ownedBeside_sublist entry.key)
  live := by
    intro slot member
    rcases List.mem_cons.mp ((owned_put archive new entry).mem_iff.mp member) with rfl | other
    · exact live
    · exact holds.live_beside keeps other
  sorted := holds.sorted.put entry
  contents := by
    intro other
    simp only [Catalog.lookup?_put, KeyMap.insert]
    split
    · exact .some backs
    · rename_i different
      exact holds.beside different keeps
  recorded := nofun
  legal := holds.legal

/-- The slot for a stored form is the entry's own, where that has room, or a new one. -/
theorem Holds.chooseSlot_cases (holds : archive.Holds map) (key : ContentKey) (length : Nat) :
    (∃ entry region, archive.catalog.lookup? key = some entry ∧
      archive.container.liveRegion entry.slot = .ok region ∧ length ≤ region.capacity ∧
        chooseSlot archive.container (archive.catalog.lookup? key) length =
          (.ok entry.slot, archive.container)) ∨
    chooseSlot archive.container (archive.catalog.lookup? key) length =
      archive.container.newEntry length := by
  unfold Archive.chooseSlot
  cases found : archive.catalog.lookup? key with
  | none => exact Or.inr rfl
  | some entry =>
    obtain ⟨region, live⟩ := holds.live entry.slot (mem_owned_of_lookup? found)
    simp only [(Container.entry_of_live live).2]
    split
    · rename_i room
      exact Or.inl ⟨entry, region, rfl, live, room, rfl⟩
    · exact Or.inr rfl

/-- A slot is chosen without harm to the slots in use. Where one is chosen it serves no other entry,
and it is live with room for the stored form. -/
theorem Holds.chooseSlot (holds : archive.Holds map) (key : ContentKey) (length : Nat) :
    Container.Keeps archive.owned archive.container
        (chooseSlot archive.container (archive.catalog.lookup? key) length).2 ∧
      ∀ slot new, chooseSlot archive.container (archive.catalog.lookup? key) length =
        (.ok slot, new) → slot ∉ archive.ownedBeside key ∧
          ∃ region, new.liveRegion slot = .ok region ∧ length ≤ region.capacity := by
  rcases holds.chooseSlot_cases key length with ⟨entry, region, found, live, room, own⟩ | fresh
  · rw [own]
    refine ⟨Container.Keeps.refl holds.sound archive.owned, fun slot new chosen => ?_⟩
    obtain ⟨same, rfl⟩ := Prod.mk.inj chosen
    cases Except.ok.inj same
    exact ⟨holds.not_mem_ownedBeside found, region, live, room⟩
  · rw [fresh]
    refine ⟨Container.keeps_newEntry holds.sound archive.owned length, fun slot new made => ?_⟩
    obtain ⟨unheld, room⟩ := Container.newEntry_live holds.sound made
    refine ⟨fun member => ?_, room⟩
    obtain ⟨region, live⟩ := holds.live slot (archive.ownedBeside_subset key member)
    exact unheld region live

theorem Holds.chooseSlot_error (holds : archive.Holds map) {key : ContentKey} {length : Nat}
    {fault : Fault} {new : Container}
    (refused : Archive.chooseSlot archive.container (archive.catalog.lookup? key) length =
      (.error fault, new)) : archive.container.newEntry length = (.error fault, new) := by
  rcases holds.chooseSlot_cases key length with ⟨_, _, _, _, _, own⟩ | fresh
  · rw [own] at refused
    cases (Prod.mk.inj refused).1
  · exact fresh.symm.trans refused

/-- Once the bytes are in another slot, the slot of the entry they replace can be released. It is
still live, as the fill lost no slot in use. -/
theorem Holds.leaveSlot (holds : archive.Holds map) {key : ContentKey} {entry : ArchiveEntry}
    (found : archive.catalog.lookup? key = some entry) {slot : Nat} (different : entry.slot ≠ slot)
    {new full : Container} (keeps : Container.Keeps archive.owned archive.container new)
    {stored : Bytes} (filled : new.fill slot stored = (.ok (), full)) :
    (full.release entry.slot).1 = .ok () ∧
      Container.Keeps (slot :: archive.ownedBeside key) full (full.release entry.slot).2 := by
  obtain ⟨own, live⟩ := (holds.read keeps (mem_owned_of_lookup? found)
    (mem_owned_of_lookup? found)).1
  have other : slot ∉ [entry.slot] := by simpa using Ne.symm different
  have filling := Container.keeps_fill keeps.sound other stored
  rw [filled] at filling
  have still := (filling.read keeps.sound (List.mem_singleton.mpr rfl) live).1
  have left := holds.not_mem_ownedBeside found
  have unused : entry.slot ∉ slot :: archive.ownedBeside key := by simp [different, left]
  exact ⟨Container.release_of_live still, Container.keeps_release filling.sound unused⟩

/-- Bytes that fit the chosen slot are stored there, and the slot that the entry leaves is
released. -/
theorem Holds.storeIn (holds : archive.Holds map) {key : ContentKey} {slot : Nat} {new : Container}
    (keeps : Container.Keeps archive.owned archive.container new)
    (apart : slot ∉ archive.ownedBeside key) {region : Region}
    (live : new.liveRegion slot = .ok region) {stored : Bytes}
    (fits : stored.length ≤ region.capacity) :
    ∃ after, Archive.storeIn new (archive.catalog.lookup? key) slot stored = (.ok (), after) ∧
      Container.Keeps (archive.ownedBeside key) archive.container after ∧
        (∃ region, after.liveRegion slot = .ok region) ∧ after.read slot = .ok stored := by
  rcases filled : new.fill slot stored with ⟨result, full⟩
  have accepted := Container.fill_of_fits live fits
  rw [filled] at accepted
  cases (Prod.mk.inj accepted).1
  obtain ⟨liveFull, readFull⟩ := Container.read_of_fill_ok filled
  have beside := Container.keeps_fill keeps.sound apart stored
  rw [filled] at beside
  have kept := (keeps.mono (archive.ownedBeside_subset key)).trans beside
  unfold Archive.storeIn
  rw [filled]
  cases found : archive.catalog.lookup? key with
  | none => exact ⟨full, rfl, kept, liveFull, readFull⟩
  | some entry =>
    by_cases same : entry.slot = slot
    · exact ⟨full, by simp [same], kept, liveFull, readFull⟩
    · have moved : (entry.slot != slot) = true := by simpa using same
      simp only [Option.all_some, moved, if_true]
      obtain ⟨released, releasing⟩ := holds.leaveSlot found same keeps filled
      obtain ⟨regionFull, liveRegionFull⟩ := liveFull
      obtain ⟨liveAfter, readAfter⟩ :=
        releasing.read beside.sound (List.mem_cons_self ..) liveRegionFull
      exact ⟨(full.release entry.slot).2, Prod.ext released rfl,
        kept.trans (releasing.mono (List.subset_cons_self ..)), ⟨_, liveAfter⟩,
        readAfter.trans readFull⟩

/-- What is stored is in the chosen slot; the slot of an entry that moved there is released. -/
theorem storeIn_ok {container after : Container} {existing : Option ArchiveEntry} {slot : Nat}
    {stored : Bytes} (done : Archive.storeIn container existing slot stored = (.ok (), after)) :
    ∃ full, container.fill slot stored = (.ok (), full) ∧
      ((∀ entry, existing = some entry → entry.slot = slot) ∧ after = full ∨
        ∃ entry, existing = some entry ∧ entry.slot ≠ slot ∧
          after = (full.release entry.slot).2) := by
  unfold Archive.storeIn at done
  rcases filled : container.fill slot stored with ⟨_ | _, full⟩
  · rw [filled] at done
    cases done
  · rw [filled] at done
    refine ⟨full, rfl, ?_⟩
    cases existing with
    | none =>
      cases done
      exact Or.inl ⟨nofun, rfl⟩
    | some entry =>
      by_cases same : entry.slot = slot
      · simp only [Option.all_some, same, bne_self_eq_false, Bool.false_eq_true, if_false] at done
        cases done
        exact Or.inl ⟨fun _ found => Option.some.inj found ▸ same, rfl⟩
      · simp only [Option.all_some, bne_iff_ne.mpr same, if_true] at done
        exact Or.inr ⟨entry, rfl, same, (congrArg Prod.snd done).symm⟩

/-- A write is refused without harm to the slots in use, or puts an entry for the blob. -/
theorem Holds.write_cases (holds : archive.Holds map) (key : ContentKey) {blob : Bytes}
    (short : blob.length < 2 ^ 63) (overwrite : Bool) :
    (∃ fault new, archive.write key blob overwrite = (.error fault, { archive with container := new }) ∧
      Container.Keeps archive.owned archive.container new ∧ (new = archive.container ∨
        ∃ length, Archive.chooseSlot archive.container (archive.catalog.lookup? key) length =
          (.error fault, new))) ∨
    ∃ slot new, archive.write key blob overwrite = (.ok (), { archive with
        container := new, catalog := archive.catalog.put ⟨key, slot, blob.length⟩, dirty := true }) ∧
      Container.Keeps (archive.ownedBeside key) archive.container new ∧
        slot ∉ archive.ownedBeside key ∧ (∃ region, new.liveRegion slot = .ok region) ∧
          Backs new ⟨key, slot, blob.length⟩ blob ∧ ∃ length allocated stored,
            Archive.chooseSlot archive.container (archive.catalog.lookup? key) length =
              (.ok slot, allocated) ∧
            Archive.storeIn allocated (archive.catalog.lookup? key) slot stored = (.ok (), new) := by
  have stands := standsFor_packBlob (ArchiveSettings.check_compression holds.legal) blob
  obtain ⟨harmless, choice⟩ := holds.chooseSlot key
    (packBlob archive.settings.compression blob).1.length
  unfold Archive.write
  simp only
  split
  · exact Or.inl ⟨_, archive.container, rfl, Container.Keeps.refl holds.sound _, Or.inl rfl⟩
  · rcases chosen : Archive.chooseSlot archive.container (archive.catalog.lookup? key)
      (packBlob archive.settings.compression blob).1.length with ⟨fault | slot, new⟩
    · rw [chosen] at harmless
      exact Or.inl ⟨fault, new, rfl, harmless, Or.inr ⟨_, chosen⟩⟩
    · rw [chosen] at harmless
      obtain ⟨apart, region, live, fits⟩ := choice slot new chosen
      obtain ⟨after, stored, kept, liveAfter, readAfter⟩ := holds.storeIn harmless apart live fits
      refine Or.inr ⟨slot, after, ?_, kept, apart, liveAfter, ⟨rfl, short, _, readAfter, stands⟩,
        _, new, _, chosen, stored⟩
      simp only [stored]

theorem Holds.write (holds : archive.Holds map) (key : ContentKey) {blob : Bytes}
    (short : blob.length < 2 ^ 63) (overwrite : Bool) :
    (archive.write key blob overwrite).2.Holds
      (map.after (archive.write key blob overwrite).1 (map.insert key blob)) := by
  rcases holds.write_cases key short overwrite with
    ⟨fault, new, refused, keeps, _⟩ | ⟨slot, new, written, keeps, apart, live, backs, _⟩
  · rw [refused]
    exact holds.step keeps
  · rw [written]
    exact holds.put _ keeps apart live backs

theorem put_cases (archive : Archive) (blob : Bytes) : (archive.put blob).2 = archive ∨
    (archive.put blob).2 = (archive.write (ContentKey.digest blob) blob false).2 := by
  unfold Archive.put
  simp only
  split
  · exact Or.inl rfl
  · rcases archive.write (ContentKey.digest blob) blob false with ⟨_ | _, next⟩
    · exact Or.inr rfl
    · exact Or.inr rfl

/-- Storing a blob under its digest changes the map only where the digest is new. -/
theorem Holds.putBlob (holds : archive.Holds map) {blob : Bytes} (short : blob.length < 2 ^ 63) :
    (archive.put blob).2.Holds (map.after (archive.put blob).1
      (if (map (ContentKey.digest blob)).isSome then map
        else map.insert (ContentKey.digest blob) blob)) := by
  have present := holds.shows.has (ContentKey.digest blob)
  have written := holds.write (ContentKey.digest blob) short false
  unfold Archive.put
  rw [← present]
  simp only
  split
  · exact holds
  · rcases outcome : archive.write (ContentKey.digest blob) blob false with ⟨fault | _, next⟩
    · rw [outcome] at written
      exact written
    · rw [outcome] at written
      exact written

theorem Holds.delete_cases (holds : archive.Holds map) (key : ContentKey) :
    (archive.catalog.lookup? key = none ∧
      archive.delete key = (.error (.keyNotFound key), archive)) ∨
    ∃ entry region, archive.catalog.lookup? key = some entry ∧
      archive.container.liveRegion entry.slot = .ok region ∧
        archive.delete key = (.ok (), { archive with
          container := (archive.container.release entry.slot).2
          catalog := archive.catalog.without key
          dirty := true }) := by
  unfold Archive.delete
  cases found : archive.catalog.lookup? key with
  | none => exact Or.inl ⟨rfl, rfl⟩
  | some entry =>
    obtain ⟨region, live⟩ := holds.live entry.slot (mem_owned_of_lookup? found)
    have released := Container.release_of_live live
    refine Or.inr ⟨entry, region, rfl, live, ?_⟩
    rcases outcome : archive.container.release entry.slot with ⟨result, new⟩
    rw [outcome] at released
    cases released
    simp only [outcome]

theorem Holds.delete (holds : archive.Holds map) (key : ContentKey) :
    (archive.delete key).2.Holds (map.after (archive.delete key).1 (map.erase key)) := by
  rcases holds.delete_cases key with ⟨_, refused⟩ | ⟨entry, _, found, _, deleted⟩
  · rw [refused]
    exact holds
  · rw [deleted]
    exact holds.forget key (Container.keeps_release holds.sound (holds.not_mem_ownedBeside found))

theorem delete_error_eq {key : ContentKey} {fault : Fault} {next : Archive}
    (refused : archive.delete key = (.error fault, next)) : next = archive := by
  unfold Archive.delete at refused
  split at refused
  · exact (congrArg Prod.snd refused).symm
  · split at refused
    · rename_i failed
      cases refused
      rw [Container.release_error_eq failed]
    · cases refused

theorem KeyMap.insert_erase {old new : ContentKey} {blob : Bytes} (held : map old = some blob) :
    (map.erase old).insert new blob = map.rename old new := by
  funext other
  simp only [KeyMap.insert, KeyMap.erase, KeyMap.rename, held]

theorem replaceKey_cases (archive : Archive) (old new : ContentKey) :
    (∃ fault, archive.replaceKey old new = (.error fault, archive)) ∨
    ∃ entry, archive.catalog.lookup? old = some entry ∧ archive.catalog.lookup? new = none ∧
      archive.replaceKey old new = (.ok (), { archive with
        catalog := (archive.catalog.without old).put { entry with key := new }
        dirty := true }) := by
  unfold Archive.replaceKey
  cases found : archive.catalog.lookup? old with
  | none => exact Or.inl ⟨_, rfl⟩
  | some entry =>
    simp only
    split
    · exact Or.inl ⟨_, rfl⟩
    · rename_i unused
      exact Or.inr ⟨entry, rfl, by simpa [Catalog.has] using unused, rfl⟩

theorem replaceKey_error_eq {old new : ContentKey} {fault : Fault} {next : Archive}
    (refused : archive.replaceKey old new = (.error fault, next)) : next = archive := by
  rcases archive.replaceKey_cases old new with ⟨_, same⟩ | ⟨_, _, _, replaced⟩
  · exact congrArg Prod.snd (refused.symm.trans same)
  · cases refused.symm.trans replaced

theorem ownedBeside_without {new : ContentKey} (absent : archive.catalog.lookup? new = none)
    (old : ContentKey) (dirty : Bool) :
    ownedBeside { archive with catalog := archive.catalog.without old, dirty := dirty } new =
      archive.ownedBeside old := by
  have missing : (archive.catalog.without old).lookup? new = none := by simp [absent]
  simp only [ownedBeside, Catalog.without_of_lookup?_none missing]

theorem Holds.replaceKey (holds : archive.Holds map) (old new : ContentKey) :
    (archive.replaceKey old new).2.Holds
      (map.after (archive.replaceKey old new).1 (map.rename old new)) := by
  rcases archive.replaceKey_cases old new with ⟨_, refused⟩ | ⟨entry, found, absent, replaced⟩
  · rw [refused]
    exact holds
  · obtain ⟨blob, held, backs⟩ := holds.backs found
    have apart := holds.not_mem_ownedBeside found
    have forgotten := holds.forget old (Container.Keeps.refl holds.sound _)
    have renamed := forgotten.put { entry with key := new }
      (Container.Keeps.refl holds.sound _) (by rw [ownedBeside_without absent]; exact apart)
      (holds.live entry.slot (mem_owned_of_lookup? found))
      ⟨backs.size, backs.short, backs.stored⟩
    rw [KeyMap.insert_erase held] at renamed
    rw [replaced]
    exact renamed

theorem Holds.isSome_lookup? (holds : archive.Holds map) (key : ContentKey) :
    (archive.catalog.lookup? key).isSome = (map key).isSome :=
  holds.shows.has key

theorem Holds.overflow_of_chooseSlot (holds : archive.Holds map) {key : ContentKey} {length : Nat}
    {fault : Fault} {new : Container}
    (refused : Archive.chooseSlot archive.container (archive.catalog.lookup? key) length =
      (.error fault, new)) : ∃ excess, fault = .overflow excess :=
  Container.overflow_of_newEntry (holds.chooseSlot_error refused)

theorem Holds.collision (holds : archive.Holds map) {key : ContentKey} (taken : map key ≠ none)
    (blob : Bytes) : archive.write key blob false = (.error (.keyCollision key), archive) := by
  have present : (archive.catalog.lookup? key).isSome = true := by
    rw [holds.isSome_lookup?, Option.isSome_iff_ne_none]
    exact taken
  unfold Archive.write
  simp only
  rw [if_pos ⟨present, trivial⟩]

/-- A write that does not collide succeeds, unless a new slot would overflow something. -/
theorem Holds.written (holds : archive.Holds map) {key : ContentKey} (overwrite : Bool)
    (allowed : map key = none ∨ overwrite = true) (blob : Bytes) :
    (archive.write key blob overwrite).1 = .ok () ∨
      ∃ excess, (archive.write key blob overwrite).1 = .error (.overflow excess) := by
  have admitted : ¬((archive.catalog.lookup? key).isSome = true ∧ overwrite = false) := by
    rw [holds.isSome_lookup?]
    rcases allowed with absent | allowed
    · simp [absent]
    · simp [allowed]
  obtain ⟨harmless, choice⟩ := holds.chooseSlot key
    (packBlob archive.settings.compression blob).1.length
  unfold Archive.write
  simp only
  rw [if_neg admitted]
  rcases chosen : Archive.chooseSlot archive.container (archive.catalog.lookup? key)
    (packBlob archive.settings.compression blob).1.length with ⟨fault | slot, new⟩
  · obtain ⟨excess, rfl⟩ := holds.overflow_of_chooseSlot chosen
    exact Or.inr ⟨excess, rfl⟩
  · rw [chosen] at harmless
    obtain ⟨apart, region, live, fits⟩ := choice slot new chosen
    obtain ⟨after, stored, _⟩ := holds.storeIn harmless apart live fits
    refine Or.inl ?_
    simp only [stored]

/-- Storing a blob under its digest succeeds, unless the digest is new and overflows something. -/
theorem Holds.stored (holds : archive.Holds map) (blob : Bytes) :
    (archive.put blob).1 = .ok (ContentKey.digest blob) ∨ map (ContentKey.digest blob) = none ∧
      ∃ excess, (archive.put blob).1 = .error (.overflow excess) := by
  have known := holds.shows.has (ContentKey.digest blob)
  unfold Archive.put
  simp only [known]
  split
  · exact Or.inl rfl
  · rename_i unknown
    have absent : map (ContentKey.digest blob) = none := by simpa using unknown
    rcases outcome : archive.write (ContentKey.digest blob) blob false with ⟨result, next⟩
    have settled := holds.written false (Or.inl absent) blob
    rw [outcome] at settled
    rcases settled with done | ⟨excess, failed⟩
    · cases done
      exact Or.inl rfl
    · cases failed
      exact Or.inr ⟨absent, excess, rfl⟩

theorem Holds.deleted (holds : archive.Holds map) (key : ContentKey) :
    (archive.delete key).1 = if map key = none then .error (.keyNotFound key) else .ok () := by
  rcases holds.delete_cases key with ⟨missing, refused⟩ | ⟨entry, _, found, _, deleted⟩
  · simp [refused, holds.absent missing]
  · obtain ⟨blob, held, _⟩ := holds.backs found
    simp [deleted, held]

theorem Holds.replaced (holds : archive.Holds map) (old new : ContentKey) :
    (archive.replaceKey old new).1 =
      if map old = none then .error (.keyNotFound old)
      else if map new = none then .ok () else .error (.keyCollision new) := by
  have target := holds.isSome_lookup? new
  unfold Archive.replaceKey
  cases found : archive.catalog.lookup? old with
  | none => simp [holds.absent found]
  | some entry =>
    obtain ⟨blob, held, _⟩ := holds.backs found
    simp only [Catalog.has, target, held, reduceCtorEq, if_false]
    cases map new <;> simp

/-- Which operations succeed is a matter of the map alone, but for what overflows. -/
structure Answers (archive : Archive) (map : KeyMap) : Prop where
  collision : ∀ key blob, map key ≠ none →
    (archive.write key blob false).1 = .error (.keyCollision key)
  write : ∀ key blob overwrite, map key = none ∨ overwrite = true →
    (archive.write key blob overwrite).1 = .ok () ∨
      ∃ excess, (archive.write key blob overwrite).1 = .error (.overflow excess)
  put : ∀ blob, (archive.put blob).1 = .ok (ContentKey.digest blob) ∨
    map (ContentKey.digest blob) = none ∧ ∃ excess, (archive.put blob).1 = .error (.overflow excess)
  delete : ∀ key, (archive.delete key).1 =
    if map key = none then .error (.keyNotFound key) else .ok ()
  replaceKey : ∀ old new, (archive.replaceKey old new).1 =
    if map old = none then .error (.keyNotFound old)
    else if map new = none then .ok () else .error (.keyCollision new)

theorem Holds.answers (holds : archive.Holds map) : archive.Answers map where
  collision := fun _ blob taken => congrArg Prod.fst (holds.collision taken blob)
  write := fun _ blob overwrite allowed => holds.written overwrite allowed blob
  put := holds.stored
  delete := holds.deleted
  replaceKey := holds.replaced

end Archive

end SlotStore
