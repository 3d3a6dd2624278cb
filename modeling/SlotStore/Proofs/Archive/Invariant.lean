import SlotStore.Archive
import SlotStore.Proofs.Archive.Catalog
import SlotStore.Proofs.Compression
import SlotStore.Proofs.Container.Keeping

/-!
What holds of every archive: its slots are live and no two of its uses share one, and each entry's
slot holds a stored form of the blob that an abstract map has under the key.
-/

namespace SlotStore

abbrev KeyMap := ContentKey → Option Bytes

namespace KeyMap

def empty : KeyMap := fun _ => none

def insert (map : KeyMap) (key : ContentKey) (blob : Bytes) : KeyMap :=
  fun other => if other = key then some blob else map other

def erase (map : KeyMap) (key : ContentKey) : KeyMap :=
  fun other => if other = key then none else map other

def rename (map : KeyMap) (old new : ContentKey) : KeyMap :=
  fun other => if other = new then map old else if other = old then none else map other

end KeyMap

/-- An entry's slot holds a stored form of a blob, and the entry tells the blob's length. -/
structure Backs (container : Container) (entry : ArchiveEntry) (blob : Bytes) : Prop where
  size : entry.uncompressedSize = blob.length
  short : blob.length < 2 ^ 63
  stored : ∃ stored, container.read entry.slot = .ok stored ∧ StandsFor stored blob

theorem Backs.keep {container new : Container} {entry : ArchiveEntry} {blob : Bytes}
    (backs : Backs container entry blob) (same : new.read entry.slot = container.read entry.slot) :
    Backs new entry blob := by
  obtain ⟨stored, read, stands⟩ := backs.stored
  exact ⟨backs.size, backs.short, stored, same.trans read, stands⟩

namespace Archive

/-- The slots that an archive uses: the anchor's, the header table's, and one for each entry. -/
def owned (archive : Archive) : List Nat :=
  archive.rootSlot :: (archive.headerTable.toList ++ archive.catalog.slots)

/-- The slots in use but for the one that a key names. -/
def ownedBeside (archive : Archive) (key : ContentKey) : List Nat :=
  archive.rootSlot :: (archive.headerTable.toList ++ (archive.catalog.without key).slots)

/-- Anchor and header table are stored as the archive has them. -/
structure Recorded (archive : Archive) : Prop where
  few : archive.catalog.length < 2 ^ 32
  anchor : archive.container.read archive.rootSlot =
    .ok (RootRecord.ofArchive archive.catalog.length (archive.headerTable.getD 0)).encode
  table : archive.catalog ≠ [] → ∃ slot, archive.headerTable = some slot ∧
    archive.container.read slot = .ok archive.catalog.encode

/-- The invariant of archives, for the map that they stand for. -/
structure Holds (archive : Archive) (map : KeyMap) : Prop where
  sound : archive.container.Sound
  anchored : archive.container.root = some archive.rootSlot
  distinct : archive.owned.Nodup
  live : ∀ slot ∈ archive.owned, ∃ region, archive.container.liveRegion slot = .ok region
  sorted : archive.catalog.Sorted
  contents : ∀ key, Option.Rel (Backs archive.container) (archive.catalog.lookup? key) (map key)
  recorded : archive.dirty = false → archive.Recorded
  legal : archive.settings.check = .ok ()

variable {archive : Archive} {map : KeyMap}

theorem mem_owned_of_lookup? {key : ContentKey} {entry : ArchiveEntry}
    (found : archive.catalog.lookup? key = some entry) : entry.slot ∈ archive.owned := by
  have listed : entry.slot ∈ archive.catalog.slots :=
    List.mem_map_of_mem (Catalog.mem_of_lookup? found).1
  exact List.mem_cons_of_mem _ (List.mem_append_right _ listed)

theorem ownedBeside_sublist (archive : Archive) (key : ContentKey) :
    (archive.ownedBeside key).Sublist archive.owned :=
  List.Sublist.cons_cons _ ((List.filter_sublist.map _).append_left _)

theorem owned_perm (archive : Archive) {slots others : List Nat} {slot : Nat}
    (perm : slots.Perm (slot :: others)) :
    (archive.rootSlot :: (archive.headerTable.toList ++ slots)).Perm
      (slot :: archive.rootSlot :: (archive.headerTable.toList ++ others)) :=
  ((perm.append_left _).trans List.perm_middle).cons _ |>.trans (List.Perm.swap ..)

theorem Holds.not_mem_ownedBeside (holds : archive.Holds map) {key : ContentKey}
    {entry : ArchiveEntry} (found : archive.catalog.lookup? key = some entry) :
    entry.slot ∉ archive.ownedBeside key := by
  have perm := archive.owned_perm (holds.sorted.slots_perm found)
  exact (List.nodup_cons.mp (perm.nodup_iff.mp holds.distinct)).1

theorem owned_put (archive : Archive) (container : Container) (entry : ArchiveEntry) :
    (owned { archive with
      container := container, catalog := archive.catalog.put entry, dirty := true }).Perm
      (entry.slot :: archive.ownedBeside entry.key) :=
  archive.owned_perm (Catalog.slots_put_perm archive.catalog entry)

theorem related_of_related {Value : Type} {first second : ArchiveEntry → Value → Prop}
    {entry : Option ArchiveEntry} {value : Option Value} (related : Option.Rel first entry value)
    (step : ∀ found held, entry = some found → first found held → second found held) :
    Option.Rel second entry value := by
  cases related with
  | some held => exact .some (step _ _ rfl held)
  | none => exact .none

theorem exists_of_related {Value : Type} {stands : ArchiveEntry → Value → Prop}
    {entry : ArchiveEntry} {value : Option Value} (related : Option.Rel stands (some entry) value) :
    ∃ held, value = some held ∧ stands entry held := by
  cases related with
  | some held => exact ⟨_, rfl, held⟩

theorem isSome_of_related {Value : Type} {stands : ArchiveEntry → Value → Prop}
    {entry : Option ArchiveEntry} {value : Option Value} (related : Option.Rel stands entry value) :
    entry.isSome = value.isSome := by
  cases related <;> rfl

theorem Holds.backs (holds : archive.Holds map) {key : ContentKey} {entry : ArchiveEntry}
    (found : archive.catalog.lookup? key = some entry) :
    ∃ blob, map key = some blob ∧ Backs archive.container entry blob :=
  exists_of_related (found ▸ holds.contents key)

theorem Holds.absent (holds : archive.Holds map) {key : ContentKey}
    (missing : archive.catalog.lookup? key = none) : map key = none := by
  have same := isSome_of_related (holds.contents key)
  rw [missing] at same
  exact Option.isNone_iff_eq_none.mp (by simpa using same.symm)

theorem Holds.read (holds : archive.Holds map) {owned : List Nat} {new : Container}
    (keeps : Container.Keeps owned archive.container new) {slot : Nat} (inside : slot ∈ owned)
    (member : slot ∈ archive.owned) : (∃ region, new.liveRegion slot = .ok region) ∧
      new.read slot = archive.container.read slot := by
  obtain ⟨region, live⟩ := holds.live slot member
  obtain ⟨still, same⟩ := keeps.read holds.sound inside live
  exact ⟨⟨region, still⟩, same⟩

theorem Recorded.keep (recorded : archive.Recorded) {new : Container}
    (same : ∀ slot ∈ archive.owned, new.read slot = archive.container.read slot) :
    Recorded { archive with container := new } where
  few := recorded.few
  anchor := (same _ (List.mem_cons_self ..)).trans recorded.anchor
  table := by
    intro filled
    obtain ⟨slot, named, read⟩ := recorded.table filled
    refine ⟨slot, named, (same slot ?_).trans read⟩
    simp [owned, named]

/-- A step of the container that keeps the slots in use does not matter to the archive. -/
theorem Holds.step (holds : archive.Holds map) {new : Container}
    (keeps : Container.Keeps archive.owned archive.container new) :
    Holds { archive with container := new } map where
  sound := keeps.sound
  anchored := keeps.root.trans holds.anchored
  distinct := holds.distinct
  live := fun _ member => (holds.read keeps member member).1
  sorted := holds.sorted
  contents := by
    intro key
    refine related_of_related (holds.contents key) fun entry blob found backs => ?_
    have member := mem_owned_of_lookup? found
    exact backs.keep (holds.read keeps member member).2
  recorded := fun clean =>
    (holds.recorded clean).keep fun _ member => (holds.read keeps member member).2
  legal := holds.legal

/-- A reader of the archive sees exactly the map: its blobs, its keys, and their order. -/
structure Shows (archive : Archive) (map : KeyMap) : Prop where
  get : ∀ key, archive.get key = match map key with
    | some blob => .ok blob
    | none => .error (.keyNotFound key)
  has : ∀ key, archive.catalog.has key = (map key).isSome
  keys : ∀ key, key ∈ archive.catalog.keys ↔ map key ≠ none
  increasing : archive.catalog.keys.Pairwise fun left right => left.bytes < right.bytes

theorem get_of_backs {key : ContentKey} {entry : ArchiveEntry} {blob : Bytes}
    (found : archive.catalog.lookup? key = some entry)
    (backs : Backs archive.container entry blob) : archive.get key = .ok blob := by
  obtain ⟨stored, read, stands⟩ := backs.stored
  have whole := stands.read
  unfold Archive.get
  rw [found]
  simp only
  rw [read, backs.size]
  simp only
  split
  · rename_i same
    rw [if_pos same] at whole
    rw [Except.ok.inj whole]
  · rename_i differs
    rw [if_neg differs] at whole
    rw [whole]
    rfl

theorem Holds.shows (holds : archive.Holds map) : archive.Shows map := by
  have each (key : ContentKey) : archive.get key = (match map key with
      | some blob => .ok blob
      | none => .error (.keyNotFound key)) ∧ archive.catalog.has key = (map key).isSome := by
    unfold Catalog.has
    cases found : archive.catalog.lookup? key with
    | none =>
      rw [holds.absent found]
      simp [Archive.get, found]
    | some entry =>
      obtain ⟨blob, held, backs⟩ := holds.backs found
      rw [held]
      exact ⟨get_of_backs found backs, rfl⟩
  refine ⟨fun key => (each key).1, fun key => (each key).2, fun key => ?_, holds.sorted.keys⟩
  rw [Catalog.mem_keys_iff, (each key).2, Option.isSome_iff_ne_none]

end Archive

end SlotStore
