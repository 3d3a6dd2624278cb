import SlotStore.Archive.Catalog
import SlotStore.Proofs.Record

/-!
Catalogs as finite maps: entries with strictly increasing keys, what lookups find after a change,
which slots are named, and the stored form, which is read back entry by entry.
-/

namespace SlotStore

namespace ContentKey

def Before (left right : ContentKey) : Prop := left.bytes < right.bytes

theorem Before.trans {first second third : ContentKey} (left : first.Before second)
    (right : second.Before third) : first.Before third :=
  List.lt_trans left right

theorem Before.ne {left right : ContentKey} (before : left.Before right) : left ≠ right := by
  rintro rfl
  exact List.lt_irrefl left.bytes before

theorem before_of_le {left right : ContentKey} (le : left.le right = true)
    (different : left ≠ right) : left.Before right := by
  have below : left.bytes ≤ right.bytes := by simpa [ContentKey.le] using le
  exact Std.lt_of_le_of_ne below fun same => different (ContentKey.ext same)

theorem before_of_not_le {left right : ContentKey} (above : ¬left.le right = true) :
    right.Before left := by
  have notLe : ¬left.bytes ≤ right.bytes := by simpa [ContentKey.le] using above
  exact List.not_le.mp notLe

end ContentKey

namespace Catalog

/-- The keys increase, so each occurs once. -/
def Sorted (catalog : Catalog) : Prop :=
  catalog.Pairwise fun left right => left.key.Before right.key

/-- The slots that entries name, in key order. -/
def slots (catalog : Catalog) : List Nat := catalog.map (·.slot)

variable {catalog : Catalog}

theorem mem_without_iff {key : ContentKey} {entry : ArchiveEntry} :
    entry ∈ catalog.without key ↔ entry ∈ catalog ∧ entry.key ≠ key := by
  simp [without]

theorem place_perm (entry : ArchiveEntry) (catalog : Catalog) :
    (place entry catalog).Perm (entry :: catalog) := by
  induction catalog with
  | nil => exact List.Perm.refl _
  | cons head rest ih =>
    unfold place
    split
    · exact List.Perm.refl _
    · exact (ih.cons head).trans (List.Perm.swap entry head rest)

theorem mem_place_iff {entry other : ArchiveEntry} :
    other ∈ place entry catalog ↔ other = entry ∨ other ∈ catalog :=
  (place_perm entry catalog).mem_iff.trans List.mem_cons

theorem Sorted.without (sorted : catalog.Sorted) (key : ContentKey) :
    (catalog.without key).Sorted :=
  List.Pairwise.filter _ sorted

theorem Sorted.place (sorted : catalog.Sorted) {entry : ArchiveEntry}
    (fresh : ∀ other ∈ catalog, other.key ≠ entry.key) : (place entry catalog).Sorted := by
  induction catalog with
  | nil => exact List.pairwise_singleton _ entry
  | cons head rest ih =>
    obtain ⟨below, ordered⟩ := List.pairwise_cons.mp sorted
    have different := fresh head (List.mem_cons_self ..)
    unfold Catalog.place
    split
    · rename_i le
      have first := ContentKey.before_of_le le different.symm
      refine List.pairwise_cons.mpr ⟨fun other member => ?_, sorted⟩
      rcases List.mem_cons.mp member with rfl | later
      · exact first
      · exact first.trans (below other later)
    · rename_i above
      have later := ContentKey.before_of_not_le above
      refine List.pairwise_cons.mpr ⟨fun other member => ?_,
        ih ordered fun other member => fresh other (List.mem_cons_of_mem _ member)⟩
      rcases mem_place_iff.mp member with rfl | old
      · exact later
      · exact below other old

theorem Sorted.put (sorted : catalog.Sorted) (entry : ArchiveEntry) : (catalog.put entry).Sorted :=
  (sorted.without entry.key).place fun _ member => (mem_without_iff.mp member).2

theorem Sorted.keys (sorted : catalog.Sorted) : catalog.keys.Pairwise ContentKey.Before :=
  List.pairwise_map.mpr sorted

theorem mem_of_lookup? {key : ContentKey} {entry : ArchiveEntry}
    (found : catalog.lookup? key = some entry) : entry ∈ catalog ∧ entry.key = key := by
  unfold lookup? at found
  exact ⟨List.mem_of_find?_eq_some found, by simpa using List.find?_some found⟩

theorem lookup?_eq_none_iff {key : ContentKey} :
    catalog.lookup? key = none ↔ ∀ entry ∈ catalog, entry.key ≠ key := by
  simp [lookup?]

theorem mem_keys_iff {key : ContentKey} : key ∈ catalog.keys ↔ catalog.has key = true := by
  simp [keys, has, lookup?]

theorem Sorted.lookup? (sorted : catalog.Sorted) {entry : ArchiveEntry} (member : entry ∈ catalog) :
    catalog.lookup? entry.key = some entry := by
  unfold Catalog.lookup?
  induction catalog with
  | nil => cases member
  | cons head rest ih =>
    obtain ⟨below, ordered⟩ := List.pairwise_cons.mp sorted
    rcases List.mem_cons.mp member with rfl | later
    · simp
    · rw [List.find?_cons_of_neg (by simpa using (below entry later).ne)]
      exact ih ordered later

@[simp] theorem lookup?_without (catalog : Catalog) (key other : ContentKey) :
    (catalog.without key).lookup? other = if other = key then none else catalog.lookup? other := by
  unfold lookup? without
  rw [List.find?_filter]
  split
  · rename_i same
    subst same
    simp
  · rename_i different
    congr 1
    funext entry
    by_cases hit : entry.key = other
    · simp [hit, different]
    · simp [hit]

theorem lookup?_place (entry : ArchiveEntry) (other : ContentKey)
    (fresh : catalog.lookup? entry.key = none) :
    (place entry catalog).lookup? other =
      if other = entry.key then some entry else catalog.lookup? other := by
  induction catalog with
  | nil => simp [place, lookup?, eq_comm]
  | cons head rest ih =>
    have different : head.key ≠ entry.key :=
      lookup?_eq_none_iff.mp fresh head (List.mem_cons_self ..)
    have absent : Catalog.lookup? rest entry.key = none :=
      lookup?_eq_none_iff.mpr fun old member =>
        lookup?_eq_none_iff.mp fresh old (List.mem_cons_of_mem _ member)
    have step (tail : Catalog) : Catalog.lookup? (head :: tail) other =
        if other = head.key then some head else Catalog.lookup? tail other := by
      by_cases hit : head.key = other
      · simp [Catalog.lookup?, hit]
      · simp [Catalog.lookup?, hit, Ne.symm hit]
    unfold place
    split
    · by_cases hit : entry.key = other
      · simp [Catalog.lookup?, hit]
      · simp [Catalog.lookup?, hit, Ne.symm hit]
    · rw [step, step, ih absent]
      by_cases hit : other = head.key
      · simp [hit, different]
      · simp [hit]

@[simp] theorem lookup?_put (catalog : Catalog) (entry : ArchiveEntry) (other : ContentKey) :
    (catalog.put entry).lookup? other =
      if other = entry.key then some entry else catalog.lookup? other := by
  rw [put, lookup?_place entry other (by simp), lookup?_without]
  split <;> simp_all

theorem slots_put_perm (catalog : Catalog) (entry : ArchiveEntry) :
    (catalog.put entry).slots.Perm (entry.slot :: (catalog.without entry.key).slots) :=
  (place_perm entry (catalog.without entry.key)).map _

theorem without_of_lookup?_none {key : ContentKey} (absent : catalog.lookup? key = none) :
    catalog.without key = catalog := by
  refine List.filter_eq_self.mpr fun entry member => ?_
  simpa using lookup?_eq_none_iff.mp absent entry member

/-- A catalog is any one of its entries and the catalog without that entry's key. -/
theorem Sorted.perm_cons_without (sorted : catalog.Sorted) {entry : ArchiveEntry}
    (member : entry ∈ catalog) : List.Perm catalog (entry :: catalog.without entry.key) := by
  induction catalog with
  | nil => cases member
  | cons head rest ih =>
    obtain ⟨below, ordered⟩ := List.pairwise_cons.mp sorted
    rcases List.mem_cons.mp member with rfl | later
    · have others : Catalog.without rest entry.key = rest :=
        List.filter_eq_self.mpr fun other member => by simpa using (below other member).ne.symm
      have gone : Catalog.without (entry :: rest) entry.key = Catalog.without rest entry.key := by
        simp [Catalog.without]
      rw [gone, others]
    · have kept : Catalog.without (head :: rest) entry.key =
          head :: Catalog.without rest entry.key := by
        simp [Catalog.without, (below entry later).ne]
      rw [kept]
      exact ((ih ordered later).cons head).trans (List.Perm.swap ..)

theorem Sorted.slots_perm (sorted : catalog.Sorted) {key : ContentKey} {entry : ArchiveEntry}
    (found : catalog.lookup? key = some entry) :
    catalog.slots.Perm (entry.slot :: (catalog.without key).slots) := by
  obtain ⟨member, rfl⟩ := mem_of_lookup? found
  exact (sorted.perm_cons_without member).map _

/-- Slot and length of every entry fit the fields of a record. -/
def Recordable (catalog : Catalog) : Prop :=
  ∀ entry ∈ catalog, entry.slot < 2 ^ 32 ∧ entry.uncompressedSize < 2 ^ 64

theorem ofRecord_record {entry : ArchiveEntry} (slot : entry.slot < 2 ^ 32)
    (size : entry.uncompressedSize < 2 ^ 64) : ArchiveEntry.ofRecord entry.record = entry := by
  obtain ⟨key, index, length⟩ := entry
  simp only [ArchiveEntry.ofRecord, ArchiveEntry.record, ArchiveEntry.mk.injEq, true_and]
  exact ⟨toNat_word32 slot, toNat_word64 size⟩

@[simp] theorem length_encode (catalog : Catalog) :
    catalog.encode.length = catalog.length * HashRecord.width :=
  length_packed (fun entry => entry.record.length_encode) catalog

/-- What is left to read behind one record is read into the catalog with its entry. -/
theorem readRecords_cons (row : HashRecord) (count : Nat) (rest : Bytes) :
    readRecords catalog (count + 1) (row.encode ++ rest) =
      if catalog.has row.key then .error (.keyCollision row.key)
      else readRecords (catalog.put (.ofRecord row)) count rest := by
  have behind : (row.encode ++ rest).drop HashRecord.width = rest :=
    List.drop_left' (HashRecord.length_encode _)
  rw [readRecords, HashRecord.decode_encode, behind]

/-- Records with new keys, all of them different, add one entry each; then what follows is read. -/
theorem Sorted.readRecords (sorted : catalog.Sorted) {rows : List HashRecord}
    (distinct : (rows.map (·.key)).Nodup) (fresh : ∀ row ∈ rows, catalog.lookup? row.key = none) :
    ∃ grown : Catalog, grown.Sorted ∧ grown.Perm (rows.map .ofRecord ++ catalog) ∧
      ∀ count rest, readRecords catalog (rows.length + count)
        (rows.flatMap HashRecord.encode ++ rest) = Catalog.readRecords grown count rest := by
  induction rows generalizing catalog with
  | nil =>
    refine ⟨catalog, sorted, .refl _, fun count rest => ?_⟩
    rw [List.length_nil, Nat.zero_add, List.flatMap_nil, List.nil_append]
  | cons row others ih =>
    obtain ⟨single, distinct⟩ := List.nodup_cons.mp distinct
    have absent : catalog.lookup? (ArchiveEntry.ofRecord row).key = none :=
      fresh row (List.mem_cons_self ..)
    have later (other : HashRecord) (member : other ∈ others) :
        (catalog.put (.ofRecord row)).lookup? other.key = none := by
      have different : other.key ≠ row.key := fun same =>
        single (List.mem_map.mpr ⟨other, member, same⟩)
      rw [lookup?_put]
      exact (if_neg different).trans <| fresh other (List.mem_cons_of_mem _ member)
    obtain ⟨grown, ordered, same, reads⟩ := ih (sorted.put _) distinct later
    have put : (catalog.put (.ofRecord row)).Perm (.ofRecord row :: catalog) := by
      rw [Catalog.put, without_of_lookup?_none absent]
      exact place_perm _ catalog
    refine ⟨grown, ordered, same.trans ((put.append_left _).trans List.perm_middle), ?_⟩
    intro count rest
    rw [List.flatMap_cons, List.append_assoc, List.length_cons, Nat.add_right_comm,
      readRecords_cons, if_neg (by rw [has, fresh row (List.mem_cons_self ..)]; nofun), reads]

theorem decode_packed (rows : List HashRecord) (rest : Bytes) :
    decode (rows.flatMap HashRecord.encode ++ rest) rows.length =
      Catalog.readRecords [] rows.length (rows.flatMap HashRecord.encode ++ rest) := by
  have enough : ¬(rows.flatMap HashRecord.encode ++ rest).length < rows.length * HashRecord.width := by
    rw [List.length_append, HashRecord.length_encodeAll]
    omega
  exact if_neg enough

/-- A table that starts with records under different keys is decoded to their entries. -/
theorem decode_of_distinct {table : Bytes} {rows : List HashRecord}
    (packed : rows.flatMap HashRecord.encode <+: table) (distinct : (rows.map (·.key)).Nodup) :
    ∃ catalog, decode table rows.length = .ok catalog ∧ catalog.Sorted ∧
      catalog.Perm (rows.map .ofRecord) := by
  obtain ⟨rest, rfl⟩ := packed
  have empty : Sorted [] := List.Pairwise.nil
  obtain ⟨grown, sorted, same, reads⟩ := empty.readRecords distinct fun _ _ => rfl
  rw [List.append_nil] at same
  refine ⟨grown, ?_, sorted, same⟩
  exact (decode_packed rows rest).trans (reads 0 rest)

theorem Sorted.eq_of_perm (sorted : catalog.Sorted) {other : Catalog} (ordered : other.Sorted)
    (same : List.Perm catalog other) : catalog = other :=
  same.eq_of_pairwise (fun _ _ _ _ left right => absurd rfl (left.trans right).ne) sorted ordered

theorem Sorted.decode_encode (sorted : catalog.Sorted) (fits : catalog.Recordable) (rest : Bytes) :
    decode (catalog.encode ++ rest) catalog.length = .ok catalog := by
  have packed : (catalog.map (·.record)).flatMap HashRecord.encode <+: catalog.encode ++ rest := by
    rw [List.flatMap_map]
    exact List.prefix_append ..
  have distinct : ((catalog.map (·.record)).map (·.key)).Nodup := by
    rw [List.map_map]
    exact sorted.keys.imp ContentKey.Before.ne
  have entries : (catalog.map (·.record)).map .ofRecord = catalog := by
    rw [List.map_map]
    exact (List.map_congr_left fun entry member =>
      ofRecord_record (fits entry member).1 (fits entry member).2).trans (List.map_id _)
  obtain ⟨found, decoded, ordered, same⟩ := decode_of_distinct packed distinct
  rw [entries] at same
  rwa [List.length_map, ordered.eq_of_perm sorted same] at decoded

end Catalog

end SlotStore
