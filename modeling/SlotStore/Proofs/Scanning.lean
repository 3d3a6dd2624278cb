import SlotStore.Scan
import SlotStore.Proofs.Layout

/-!
The guard walk. A walk over guarded spans that tile the file finds all of them, and whatever a walk
finds that comes to its end are guarded spans that tile the file, from the first offset to behind the
word that it stopped at.
-/

namespace SlotStore

def ScannedRegion.span (region : ScannedRegion) : Span := ⟨region.offset, region.capacity⟩

/-- What the walk reports of a guarded span. -/
def Span.scanned (file : File) (span : Span) : ScannedRegion :=
  ⟨span.offset, span.capacity, decide (0 < file.intAt (span.offset - 8))⟩

@[simp] theorem Span.scanned_offset (file : File) (span : Span) :
    (span.scanned file).offset = span.offset := rfl

@[simp] theorem map_span_scanned (file : File) (order : List Span) :
    (order.map (Span.scanned file)).map ScannedRegion.span = order := by
  rw [List.map_map]
  exact List.map_id order

/-- The walk over guarded spans that tile the file finds all of them, up to the zero word. -/
theorem walk_of_tiles {file : File} {start stop : Nat} {order : List Span}
    (tiles : Tiles start order stop) (low : 8 ≤ start) (legal : ∀ span ∈ order, span.Legal)
    (guarded : ∀ span ∈ order, Guarded file span) (ended : file.intAt (stop - 8) = 0)
    (held : stop ≤ file.size) :
    Scan.walk file (start - 8) = .ok (order.map (Span.scanned file), stop - 8) := by
  have lifted : start - 8 + 8 = start := by omega
  induction order generalizing start with
  | nil =>
    cases tiles
    unfold Scan.walk
    rw [dif_pos (by omega)]
    simp [ended]
  | cons span rest ih =>
    obtain ⟨here, behind⟩ := tiles
    have later := behind.start_le
    have ⟨positive, whole, _⟩ := legal span (by simp)
    have ⟨leading, trailing⟩ := guarded span (by simp)
    have forth := ih behind (by simp only [Span.next]; omega)
      (fun other member => legal other (by simp [member]))
      (fun other member => guarded other (by simp [member])) (by simp only [Span.next]; omega)
    have nonzero : file.intAt (start - 8) ≠ 0 := by
      intro zero
      rw [here, zero] at leading
      simp only [Int.natAbs_zero] at leading
      omega
    have onward : start + span.capacity + 8 = span.next - 8 := by
      simp only [Span.next]
      omega
    simp only [Span.next] at later
    rw [here] at leading trailing
    unfold Scan.walk
    rw [dif_pos (by omega)]
    simp only [lifted, leading]
    rw [if_neg nonzero, if_neg (by omega), if_neg (by omega), if_neg (by rw [trailing]; simp),
      onward, forth]
    simp [Span.scanned, here]

/-- A walk that comes to its end has stopped at once, or has passed one guarded region and comes to
its end behind it. -/
theorem walk_ok {file : File} {pos : Nat} {regions : List ScannedRegion} {stop : Nat}
    (walked : Scan.walk file pos = .ok (regions, stop)) :
    (regions = [] ∧ stop = pos) ∨ ∃ (region : ScannedRegion) (rest : List ScannedRegion),
      regions = region :: rest ∧ region.offset = pos + 8 ∧ 0 < region.capacity ∧
        region.capacity % granule = 0 ∧ Guarded file region.span ∧
          region.live = decide (0 < file.intAt pos) ∧
            Scan.walk file (region.span.next - 8) = .ok (rest, stop) := by
  unfold Scan.walk at walked
  split at walked
  · simp only at walked
    split at walked
    · cases walked
      exact Or.inl ⟨rfl, rfl⟩
    · rename_i nonzero
      split at walked
      · cases walked
      · rename_i whole
        split at walked
        · cases walked
        · split at walked
          · cases walked
          · rename_i same
            split at walked
            · cases walked
            · rename_i rest ended onward
              obtain ⟨rfl, rfl⟩ := Prod.mk.inj (Except.ok.inj walked)
              refine Or.inr ⟨⟨pos + 8, (file.intAt pos).natAbs, decide (0 < file.intAt pos)⟩, rest,
                rfl, rfl, Int.natAbs_pos.mpr nonzero, not_not.mp whole, ⟨?_, ?_⟩, rfl, ?_⟩
              · simp only [ScannedRegion.span, Nat.add_sub_cancel]
              · simpa only [ScannedRegion.span, Nat.add_sub_cancel] using not_not.mp same
              · have behind : pos + 8 + (file.intAt pos).natAbs + 16 - 8 =
                    pos + 8 + (file.intAt pos).natAbs + 8 := by omega
                simp only [ScannedRegion.span, Span.next]
                rw [behind]
                exact onward
  · cases walked
    exact Or.inl ⟨rfl, rfl⟩

/-- A walk that comes to its end finds spans that follow one another, from behind the guard word that
it starts at to behind the one that it stops at. -/
theorem tiles_of_walk {file : File} {pos : Nat} {regions : List ScannedRegion} {stop : Nat}
    (walked : Scan.walk file pos = .ok (regions, stop)) :
    Tiles (pos + 8) (regions.map ScannedRegion.span) (stop + 8) := by
  induction regions generalizing pos with
  | nil =>
    rcases walk_ok walked with ⟨_, rfl⟩ | ⟨_, _, listed, _⟩
    · rfl
    · cases listed
  | cons region rest ih =>
    rcases walk_ok walked with ⟨listed, _⟩ | ⟨_, _, listed, offset, _, _, _, _, onward⟩
    · cases listed
    · cases listed
      have behind : region.span.next - 8 + 8 = region.span.next := by
        simp only [Span.next]
        omega
      exact ⟨offset, behind ▸ ih onward⟩

theorem guarded_of_walk {file : File} {pos : Nat} {regions : List ScannedRegion} {stop : Nat}
    (walked : Scan.walk file pos = .ok (regions, stop)) :
    ∀ region ∈ regions, 0 < region.capacity ∧ region.capacity % granule = 0 ∧
      Guarded file region.span := by
  induction regions generalizing pos with
  | nil => nofun
  | cons region rest ih =>
    rcases walk_ok walked with
      ⟨listed, _⟩ | ⟨_, _, listed, _, positive, whole, guarded, _, onward⟩
    · cases listed
    · cases listed
      intro other member
      rcases List.mem_cons.mp member with rfl | later
      · exact ⟨positive, whole, guarded⟩
      · exact ih onward other later

theorem live_of_walk {file : File} {pos : Nat} {regions : List ScannedRegion} {stop : Nat}
    (walked : Scan.walk file pos = .ok (regions, stop)) :
    ∀ region ∈ regions, region.live = decide (0 < file.intAt (region.offset - 8)) := by
  induction regions generalizing pos with
  | nil => nofun
  | cons region rest ih =>
    rcases walk_ok walked with ⟨listed, _⟩ | ⟨_, _, listed, offset, _, _, _, live, onward⟩
    · cases listed
    · cases listed
      intro other member
      rcases List.mem_cons.mp member with rfl | later
      · rw [live, offset, Nat.add_sub_cancel]
      · exact ih onward other later

theorem scan_ok {file : File} {scan : Scan} (scanned : Scan.ofFile file = .ok scan) :
    Tiles firstOffset (scan.regions.map ScannedRegion.span) scan.nextOffset ∧
      ∀ region ∈ scan.regions, 0 < region.capacity ∧ region.capacity % granule = 0 ∧
        Guarded file region.span := by
  unfold Scan.ofFile at scanned
  rcases walked : Scan.walk file firstGuard with damage | ⟨regions, stop⟩
  · rw [walked] at scanned
    cases scanned
  · rw [walked] at scanned
    cases scanned
    exact ⟨tiles_of_walk walked, guarded_of_walk walked⟩

theorem live_of_scan {file : File} {scan : Scan} (scanned : Scan.ofFile file = .ok scan) :
    ∀ region ∈ scan.regions, region.live = decide (0 < file.intAt (region.offset - 8)) := by
  unfold Scan.ofFile at scanned
  rcases walked : Scan.walk file firstGuard with damage | ⟨regions, stop⟩
  · rw [walked] at scanned
    cases scanned
  · rw [walked] at scanned
    cases scanned
    exact live_of_walk walked

theorem distinct_of_scan {file : File} {scan : Scan} (scanned : Scan.ofFile file = .ok scan) :
    (scan.regions.map (·.offset)).Nodup := by
  have distinct := (scan_ok scanned).1.distinct
  rw [List.map_map] at distinct
  exact distinct

end SlotStore
