import SlotStore.Proofs.Blocks
import SlotStore.Proofs.Container.Runs

/-!
An append that is cut off. Its writes put the terminator behind the new region, then the trailing guard,
and only then the leading guard in the place of the old terminator. Until the last one is done a scan
stops where it stopped before, whatever bytes lie behind; afterwards it finds the new region and stops
at the new terminator.
-/

namespace SlotStore

/-- Guarded spans follow one another from the first offset on, and a zero word stands behind them. -/
structure Chained (file : File) (order : List Span) (endOfFile : Nat) : Prop where
  tiles : Tiles firstOffset order endOfFile
  legal : ∀ span ∈ order, span.Legal
  guarded : ∀ span ∈ order, Guarded file span
  ended : file.intAt (endOfFile - 8) = 0
  held : endOfFile ≤ file.size

theorem Laid.exists_chained {file : File} {slots : SlotTable} {lost : List Span} {endOfFile : Nat}
    (laid : Laid file slots lost endOfFile) : ∃ order, Chained file order endOfFile := by
  obtain ⟨order, same, tiles⟩ := laid.tiled
  exact ⟨order, tiles, fun span member => laid.legal span (same.mem_iff.mp member),
    fun span member => laid.guarded span (same.mem_iff.mp member), laid.ended, laid.held⟩

namespace Chained

variable {file new : File} {order : List Span} {endOfFile capacity : Nat}

theorem low (chained : Chained file order endOfFile) : firstOffset ≤ endOfFile :=
  chained.tiles.start_le

/-- The scan finds the spans of a chain in their order. -/
theorem scan (chained : Chained file order endOfFile) :
    Scan.ofFile file = .ok ⟨order.map (Span.scanned file), endOfFile - 8⟩ := by
  have walked := walk_of_tiles chained.tiles (by decide) chained.legal chained.guarded chained.ended
    chained.held
  unfold Scan.ofFile
  rw [show firstGuard = firstOffset - 8 from rfl, walked]
  rfl

theorem words_congr (chained : Chained file order endOfFile)
    (same : ∀ pos, pos + 8 ≤ endOfFile - 8 → new.intAt pos = file.intAt pos) :
    (∀ span ∈ order, Guarded new span) ∧
      order.map (Span.scanned new) = order.map (Span.scanned file) := by
  -- the last guard word ends where the terminator begins
  have words {span : Span} (member : span ∈ order) :
      new.intAt (span.offset - 8) = file.intAt (span.offset - 8) ∧
        new.intAt (span.offset + span.capacity) = file.intAt (span.offset + span.capacity) := by
    obtain ⟨start, high⟩ := chained.tiles.within member
    simp only [firstOffset, Span.next] at start high
    exact ⟨same _ (by omega), same _ (by omega)⟩
  refine ⟨fun span member => (chained.guarded span member).congr (words member).1 (words member).2,
    List.map_congr_left fun span member => ?_⟩
  rw [Span.scanned, Span.scanned, (words member).1]

/-- A file that holds the same words below the end of a chain holds the chain, and the scan sees no
difference. -/
theorem congr (chained : Chained file order endOfFile) (held : endOfFile ≤ new.size)
    (same : ∀ pos, pos + 8 ≤ endOfFile → new.intAt pos = file.intAt pos) :
    Chained new order endOfFile ∧ Scan.ofFile new = Scan.ofFile file := by
  have low := chained.low
  simp only [firstOffset] at low
  obtain ⟨guarded, scanned⟩ := chained.words_congr fun pos below => same pos (by omega)
  have kept : Chained new order endOfFile :=
    ⟨chained.tiles, chained.legal, guarded, (same _ (by omega)).trans chained.ended, held⟩
  exact ⟨kept, by rw [kept.scan, chained.scan, scanned]⟩

theorem write (chained : Chained file order endOfFile) {pos : Nat} (beyond : endOfFile ≤ pos)
    (data : Bytes) : Chained (file.write pos data) order endOfFile ∧
      Scan.ofFile (file.write pos data) = Scan.ofFile file := by
  have agrees := File.AgreesBelow.write file data chained.held beyond
  exact chained.congr (Nat.le_trans chained.held agrees.size_le) fun pos below => agrees.intAt below

/-- All writes of an append put one more span, which is live, behind a chain. -/
theorem scan_appended (chained : Chained file order endOfFile)
    (legal : Span.Legal ⟨endOfFile, capacity⟩) :
    Scan.ofFile (file.writeAll (Container.appendWrites endOfFile capacity)) =
      .ok ⟨order.map (Span.scanned file) ++ [⟨endOfFile, capacity, true⟩],
        endOfFile + capacity + 16 - 8⟩ := by
  have low := chained.low
  simp only [firstOffset] at low
  obtain ⟨held, agrees, leading, trailing, ended⟩ :=
    Laid.appended file (by omega) chained.held legal.2.2
  obtain ⟨guarded, scanned⟩ := chained.words_congr fun pos below => agrees.intAt below
  have longer : Chained (file.writeAll (Container.appendWrites endOfFile capacity))
      (order ++ [⟨endOfFile, capacity⟩]) (endOfFile + capacity + 16) := {
    tiles := chained.tiles.append (tiles_single endOfFile capacity)
    legal := List.forall_mem_append.mpr ⟨chained.legal, List.forall_mem_singleton.mpr legal⟩
    guarded := List.forall_mem_append.mpr ⟨guarded,
      List.forall_mem_singleton.mpr ⟨by rw [leading]; rfl, by rw [leading, trailing]⟩⟩
    ended := ended
    held := held }
  have positive : (0 : Int) < capacity := Int.natCast_pos.mpr legal.1
  have live : Span.scanned (file.writeAll (Container.appendWrites endOfFile capacity))
      ⟨endOfFile, capacity⟩ = ⟨endOfFile, capacity, true⟩ := by
    rw [Span.scanned, leading, decide_eq_true positive]
  rw [longer.scan, List.map_append, scanned, List.map_singleton, live]

/-- Of the writes of an append only the last one is seen by the scan. -/
theorem scan_torn (chained : Chained file order endOfFile) (legal : Span.Legal ⟨endOfFile, capacity⟩)
    {done : List (Nat × Bytes)} (begun : done <+: Container.appendWrites endOfFile capacity) :
    Scan.ofFile (file.writeAll done) =
      if done.length < 3 then Scan.ofFile file
      else .ok ⟨order.map (Span.scanned file) ++ [⟨endOfFile, capacity, true⟩],
        endOfFile + capacity + 16 - 8⟩ := by
  -- the terminator and the trailing guard lie behind the chain; only the leading guard is in it
  have first := chained.write (Nat.le_add_right endOfFile (capacity + 8)) (Bytes.ofInt 0)
  have second := first.1.write (Nat.le_add_right endOfFile capacity) (Bytes.ofInt capacity)
  rw [List.prefix_iff_eq_take] at begun
  match length : done.length with
  | 0 =>
    rw [length] at begun
    rw [begun]
    rfl
  | 1 =>
    rw [length] at begun
    rw [begun]
    exact first.2
  | 2 =>
    rw [length] at begun
    rw [begun]
    exact second.2.trans first.2
  | more + 3 =>
    rw [length] at begun
    rw [begun, if_neg (by omega), List.take_of_length_le (Nat.le_add_left 3 more)]
    exact chained.scan_appended legal

end Chained

namespace Container

variable {container : Container} {capacity : Nat}

/-- The writes that appending a region carries out; none where it is refused. -/
def appendSteps (container : Container) (capacity : Nat) : List (Nat × Bytes) :=
  match (container.appendRegion capacity).1 with
  | .ok _ => appendWrites container.endOfFile capacity
  | .error _ => []

theorem appendSteps_eq (container : Container) (capacity : Nat) :
    container.appendSteps capacity =
      if capacity < 2 ^ 63 ∧ container.endOfFile + capacity + 16 < 2 ^ 64 then
        appendWrites container.endOfFile capacity
      else [] := by
  split
  · rename_i small
    simp only [appendSteps, appendRegion_of_bounded small.1 small.2]
  · rename_i large
    rcases container.appendRegion_cases capacity with ⟨excess, refused⟩ | ⟨bounded, accepted⟩
    · simp only [appendSteps, refused]
    · unfold appendRegion at accepted
      simp only at accepted
      rw [if_neg (by omega), if_pos (by omega)] at accepted
      cases (Prod.mk.inj accepted).1

theorem file_appendRegion (container : Container) (capacity : Nat) :
    (container.appendRegion capacity).2.file =
      container.file.writeAll (container.appendSteps capacity) := by
  rcases container.appendRegion_cases capacity with ⟨excess, refused⟩ | ⟨bounded, accepted⟩
  · simp only [appendSteps, refused]
    rfl
  · simp only [appendSteps, accepted, extended_file]

/-- The container with any bytes in its file from the end of its regions on. -/
def withTail (container : Container) (tail : Bytes) : Container :=
  { container with file := .ofBytes (container.file.toList.take container.endOfFile ++ tail) }

@[simp] theorem withTail_endOfFile (container : Container) (tail : Bytes) :
    (container.withTail tail).endOfFile = container.endOfFile := rfl

theorem intAt_withTail (held : container.endOfFile ≤ container.file.size) (tail : Bytes) {pos : Nat}
    (below : pos + 8 ≤ container.endOfFile) :
    (container.withTail tail).file.intAt pos = container.file.intAt pos := by
  have length : (container.file.toList.take container.endOfFile).length = container.endOfFile := by
    rw [List.length_take, File.length_toList, Nat.min_eq_left held]
  have same : (container.withTail tail).file.slice pos 8 = container.file.slice pos 8 := by
    rw [File.toList_slice, File.toList_slice, List.take_drop, List.take_drop, withTail,
      File.toList_ofBytes, List.take_append_of_le_length (by omega), List.take_take,
      Nat.min_eq_left (by omega)]
  exact congrArg Bytes.toInt same

theorem le_size_withTail (held : container.endOfFile ≤ container.file.size) (tail : Bytes) :
    container.endOfFile ≤ (container.withTail tail).file.size := by
  rw [withTail, ← File.length_toList, File.toList_ofBytes, List.length_append, List.length_take,
    File.length_toList, Nat.min_eq_left held]
  exact Nat.le_add_right ..

/-- An append is torn without a trace. Whatever bytes lie in the file from the end of the regions on,
and however many of its writes were carried out, in their order, a scan succeeds, in words as well.
Until the last write is done it finds the regions that it found before and stops eight bytes before the
old end; after the last one it finds one more, live and of the capacity that was asked for, and stops
eight bytes before the new end. The writes are three where their positions are words and the capacity
is a signed one, otherwise none, and together they are what the append leaves in the file. -/
theorem scan_of_torn_append (reached : Reachable container) (positive : 0 < capacity)
    (whole : capacity % 16 = 0) :
    ∃ regions, Scan.ofFile container.file = .ok ⟨regions, container.endOfFile - 8⟩ ∧
      ∀ (tail : Bytes) (stale : Container), container.withTail tail = stale →
        (∀ done, done <+: stale.appendSteps capacity →
          Scan.ofFile (stale.file.writeAll done) =
              .ok (if done.length < 3 then ⟨regions, container.endOfFile - 8⟩
                else ⟨regions ++ [⟨container.endOfFile, capacity, true⟩],
                  (stale.appendRegion capacity).2.endOfFile - 8⟩) ∧
            ((stale.file.writeAll done).size < 2 ^ 63 →
              Scan.ofFileInWords (stale.file.writeAll done) =
                some (Scan.ofFile (stale.file.writeAll done)))) ∧
        (stale.appendSteps capacity).length =
          (if capacity < 2 ^ 63 ∧ container.endOfFile + capacity + 16 < 2 ^ 64 then 3 else 0) ∧
        (stale.appendRegion capacity).2.file =
          stale.file.writeAll (stale.appendSteps capacity) := by
  obtain ⟨_, laid, _⟩ := reached.sound.laid
  obtain ⟨order, chained⟩ := laid.exists_chained
  refine ⟨order.map (Span.scanned container.file), chained.scan, ?_⟩
  rintro tail stale rfl
  obtain ⟨kept, same⟩ := chained.congr (le_size_withTail chained.held tail)
    fun pos below => intAt_withTail chained.held tail below
  have before := same.trans chained.scan
  have regions := Scan.mk.inj (Except.ok.inj (kept.scan.symm.trans before))
  have found {done : List (Nat × Bytes)}
      (begun : done <+: (container.withTail tail).appendSteps capacity) :
      Scan.ofFile ((container.withTail tail).file.writeAll done) =
        .ok (if done.length < 3 then
            ⟨order.map (Span.scanned container.file), container.endOfFile - 8⟩
          else ⟨order.map (Span.scanned container.file) ++ [⟨container.endOfFile, capacity, true⟩],
            ((container.withTail tail).appendRegion capacity).2.endOfFile - 8⟩) := by
    rw [appendSteps_eq, withTail_endOfFile] at begun
    split at begun
    · rename_i small
      have accepted : (container.withTail tail).appendRegion capacity =
          (.ok ⟨container.endOfFile, 0, capacity⟩, (container.withTail tail).extended capacity) :=
        appendRegion_of_bounded small.1 small.2
      rw [kept.scan_torn ⟨positive, whole, small.1⟩ begun, before, regions.1, accepted]
      split <;> rfl
    · rw [List.prefix_nil.mp begun]
      exact before
  refine ⟨fun done begun => ⟨found begun, fun bounded => ?_⟩, ?_, file_appendRegion _ _⟩
  · rw [found begun]
    exact Scan.ofFileInWords_of_ok bounded (found begun)
  · rw [appendSteps_eq, withTail_endOfFile]
    split <;> rfl

/-- A region is appended behind the first one over bytes that are no zeros. Without the last write it
is not found, with it it is. -/
theorem scan_of_append_over_stale_bytes : ∃ container stale, Reachable container ∧
    container.withTail (List.replicate 100 0xff) = stale ∧
      (∀ count < 3, Scan.ofFile (stale.file.writeAll ((stale.appendSteps 32).take count)) =
        .ok ⟨[⟨0x238, 16, true⟩], 0x250⟩) ∧
      Scan.ofFile (stale.appendRegion 32).2.file =
        .ok ⟨[⟨0x238, 16, true⟩, ⟨0x258, 32, true⟩], 0x280⟩ := by
  have reached : Reachable ((create {}).newEntry 5).2 :=
    .step (reachable_create (by decide +kernel)) (.newEntry 5) rfl
  have stop : ((create {}).newEntry 5).2.endOfFile = 0x258 := by decide +kernel
  have before : Scan.ofFile ((create {}).newEntry 5).2.file = .ok ⟨[⟨0x238, 16, true⟩], 0x250⟩ := by
    have laid := laid_create {}
    have empty : Chained (create {}).file [] 0x238 := ⟨rfl, nofun, nofun, laid.ended, laid.held⟩
    rw [newEntry_of_no_fit (show alignedCapacity 5 = .ok 16 from rfl) rfl (by decide),
      placeRegion_file, extended_file]
    exact empty.scan_appended ⟨by decide, rfl, by decide⟩
  generalize ((create {}).newEntry 5).2 = container at reached stop before
  obtain ⟨regions, found, torn⟩ := @scan_of_torn_append _ 32 reached (by decide) rfl
  obtain ⟨stale, same⟩ : ∃ stale, container.withTail (List.replicate 100 0xff) = stale := ⟨_, rfl⟩
  obtain ⟨scanned, three, left⟩ := torn _ stale same
  rw [stop] at found scanned three
  rw [if_pos (by decide)] at three
  have regions := (Scan.mk.inj (Except.ok.inj (found.symm.trans before))).1
  have longer : (stale.appendRegion 32).2.endOfFile = 0x288 := by
    rw [appendRegion_of_bounded (by decide) (by rw [← same, withTail_endOfFile, stop]; decide), ← same]
    exact congrArg (· + 32 + 16) stop
  refine ⟨container, stale, reached, same, fun count cut => ?_, ?_⟩
  · have torn := (scanned _ (List.take_prefix count (stale.appendSteps 32))).1
    rw [if_pos (Nat.lt_of_le_of_lt (List.length_take_le ..) cut), regions] at torn
    exact torn
  · have whole := (scanned _ (List.prefix_refl _)).1
    rw [if_neg (by rw [three]; decide), regions, longer] at whole
    rw [left]
    exact whole

end Container

end SlotStore
