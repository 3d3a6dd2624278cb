import Mathlib.Data.List.Nodup
import Mathlib.Data.List.Range
import SlotStore.Reconcile
import SlotStore.Proofs.Scanning

/-!
The reconciliation of a slot table with a scan. One that succeeds leaves a slot for each scanned
region and no other one in use, whatever the table held before, and it finds nothing to change in a
table that has these slots already.
-/

namespace SlotStore

theorem distinctRegions_of_nodup {regions : List ScannedRegion}
    (distinct : (regions.map (·.offset)).Nodup) : distinctRegions regions = regions := by
  induction regions with
  | nil => rfl
  | cons region rest ih =>
    obtain ⟨fresh, others⟩ := List.nodup_cons.mp distinct
    have none : rest.any (·.offset == region.offset) = false := by
      rw [List.any_eq_false]
      intro other member same
      exact fresh (List.mem_map.mpr ⟨other, member, eq_of_beq same⟩)
    rw [distinctRegions, none, ih others]
    rfl

/-- The state that the scan leaves of a slot: unused where its region was not found, else over the
region as it was found. -/
def SlotState.settled (regions : List ScannedRegion) (state : SlotState) : SlotState :=
  match state.region? with
  | none => .unused
  | some region =>
    match regions.find? (·.offset == region.offset) with
    | none => .unused
    | some scanned => state.mapRegion (·.adopt scanned)

theorem SlotState.span?_adopt {state : SlotState} {region : Region} {scanned : ScannedRegion}
    (held : state.region? = some region) (same : scanned.offset = region.offset) :
    (state.mapRegion (·.adopt scanned)).span? = some scanned.span := by
  have adopted : (region.adopt scanned).span = scanned.span := by
    unfold Region.adopt
    split
    · rename_i equal
      simp only [Region.span, ScannedRegion.span, same, equal]
    · simp only [Region.span, ScannedRegion.span, same]
  cases state with
  | unused => cases held
  | live own =>
    cases held
    simp only [SlotState.mapRegion, SlotState.span?_live, adopted]
  | free own deletable =>
    cases held
    simp only [SlotState.mapRegion, SlotState.span?_free, adopted]

theorem SlotState.settled_of_unheld {regions : List ScannedRegion} {state : SlotState}
    (unheld : state.region? = none) : state.settled regions = .unused := by
  simp only [SlotState.settled, unheld]

theorem SlotState.settled_of_lost {regions : List ScannedRegion} {state : SlotState}
    {region : Region} (held : state.region? = some region)
    (lost : regions.find? (·.offset == region.offset) = none) :
    state.settled regions = .unused := by
  simp only [SlotState.settled, held, lost]

theorem SlotState.settled_of_found {regions : List ScannedRegion} {state : SlotState}
    {region : Region} {scanned : ScannedRegion} (held : state.region? = some region)
    (found : regions.find? (·.offset == region.offset) = some scanned) :
    state.settled regions = state.mapRegion (·.adopt scanned) := by
  simp only [SlotState.settled, held, found]

/-- The slot holds a region that was not found. -/
def SlotState.isLost (regions : List ScannedRegion) (state : SlotState) : Bool :=
  state.region?.any fun region => (regions.find? (·.offset == region.offset)).isNone

/-- The slot holds a region that was found with another capacity. -/
def SlotState.isResized (regions : List ScannedRegion) (state : SlotState) : Bool :=
  state.region?.any fun region =>
    (regions.find? (·.offset == region.offset)).any (·.capacity != region.capacity)

theorem SlotState.isLost_of_settled {regions : List ScannedRegion} {state : SlotState}
    (gone : state.settled regions = .unused) (used : state ≠ .unused) :
    state.isLost regions = true := by
  cases held : state.region? with
  | none => exact absurd (SlotState.region?_eq_none_iff.mp held) used
  | some region =>
    cases sought : regions.find? (·.offset == region.offset) with
    | none => simp [SlotState.isLost, held, sought]
    | some scanned =>
      rw [SlotState.settled_of_found held sought] at gone
      have span := SlotState.span?_adopt held (by simpa using List.find?_some sought)
      rw [gone] at span
      cases span

/-- The indices of the states that pass a test, counted from a start on. -/
def SlotTable.indicesFrom (test : SlotState → Bool) (start : Nat) (states : List SlotState) :
    List Nat :=
  (states.zipIdx start).filterMap fun (state, index) => if test state then some index else none

theorem SlotTable.indicesFrom_cons (test : SlotState → Bool) (start : Nat) (state : SlotState)
    (rest : List SlotState) : indicesFrom test start (state :: rest) =
      if test state then start :: indicesFrom test (start + 1) rest
      else indicesFrom test (start + 1) rest := by
  by_cases passed : test state = true <;> simp [indicesFrom, List.zipIdx_cons, passed]

theorem SlotTable.indicesFrom_eq_nil {test : SlotState → Bool} {states : List SlotState}
    (none : ∀ state ∈ states, test state = false) (start : Nat) :
    indicesFrom test start states = [] := by
  induction states generalizing start with
  | nil => rfl
  | cons state rest ih =>
    rw [indicesFrom_cons, none state List.mem_cons_self]
    exact ih (fun other member => none other (List.mem_cons_of_mem state member)) (start + 1)

/-- The offsets of the slots that are left in use. -/
def keptOffsets (regions : List ScannedRegion) (states : List SlotState) : List Nat :=
  (SlotTable.spans (states.map (SlotState.settled regions))).map Span.offset

/-- What a pass comes to that meets no region twice. -/
def settledSlots (regions : List ScannedRegion) (index : Nat) (claimed : List Nat)
    (states : List SlotState) : SettledSlots where
  states := states.map (SlotState.settled regions)
  claimed := (keptOffsets regions states).reverse ++ claimed
  demoted := SlotTable.indicesFrom (SlotState.isLost regions) index states
  capacityFixed := SlotTable.indicesFrom (SlotState.isResized regions) index states

theorem keptOffsets_cons (regions : List ScannedRegion) (state : SlotState) (rest : List SlotState) :
    keptOffsets regions (state :: rest) =
      match (state.settled regions).span? with
      | none => keptOffsets regions rest
      | some span => span.offset :: keptOffsets regions rest := by
  unfold keptOffsets SlotTable.spans
  rw [List.map_cons, List.filterMap_cons]
  cases (state.settled regions).span? <;> rfl

/-- A pass that meets no region twice treats every slot by itself. -/
theorem settle_of_unshared (regions : List ScannedRegion) (states : List SlotState) (index : Nat)
    (claimed : List Nat) (unshared : (keptOffsets regions states ++ claimed).Nodup) :
    settle regions index claimed states = (none, settledSlots regions index claimed states) := by
  induction states generalizing index claimed with
  | nil => rfl
  | cons state rest ih =>
    rw [keptOffsets_cons] at unshared
    unfold settle settledSlots
    rw [keptOffsets_cons, List.map_cons, SlotTable.indicesFrom_cons, SlotTable.indicesFrom_cons]
    cases held : state.region? with
    | none =>
      have gone : state.settled regions = .unused := SlotState.settled_of_unheld held
      rw [gone] at unshared ⊢
      cases SlotState.region?_eq_none_iff.mp held
      simp only [ih (index + 1) claimed unshared, settledSlots, SlotState.isLost, SlotState.isResized]
      rfl
    | some region =>
      cases sought : regions.find? (·.offset == region.offset) with
      | none =>
        have gone := SlotState.settled_of_lost held sought
        rw [gone] at unshared ⊢
        simp only [sought, ih (index + 1) claimed unshared, settledSlots, SlotState.isLost,
          SlotState.isResized, held, Option.any_some, Option.isNone_none, Option.any_none]
        rfl
      | some scanned =>
        have here : scanned.offset = region.offset := by
          simpa using List.find?_some sought
        have kept := SlotState.settled_of_found held sought
        have span : (state.settled regions).span? = some scanned.span :=
          kept ▸ SlotState.span?_adopt held here
        rw [span] at unshared ⊢
        simp only [ScannedRegion.span, here] at unshared ⊢
        have fresh : region.offset ∉ claimed := fun member =>
          (List.nodup_cons.mp unshared).1 (List.mem_append_right _ member)
        have onward := ih (index + 1) (region.offset :: claimed)
          (List.perm_middle.nodup_iff.mpr unshared)
        have found : state.isLost regions = false := by
          simp [SlotState.isLost, held, sought]
        have resized : state.isResized regions = (scanned.capacity != region.capacity) := by
          simp [SlotState.isResized, held, sought]
        simp only [sought, if_neg fresh, onward, settledSlots, found, resized, kept]
        by_cases same : region.capacity = scanned.capacity
        · simp [same]
        · simp [same, Ne.symm same]

/-- A pass that runs through has met no region twice. -/
theorem unshared_of_settle {regions : List ScannedRegion} {states : List SlotState} {index : Nat}
    {claimed : List Nat} (once : claimed.Nodup)
    (passed : (settle regions index claimed states).1 = none) :
    (keptOffsets regions states ++ claimed).Nodup := by
  induction states generalizing index claimed with
  | nil => exact once
  | cons state rest ih =>
    rw [keptOffsets_cons]
    unfold settle at passed
    cases held : state.region? with
    | none =>
      rw [held] at passed
      rw [SlotState.settled_of_unheld held]
      exact ih once passed
    | some region =>
      cases sought : regions.find? (·.offset == region.offset) with
      | none =>
        simp only [held, sought] at passed
        rw [SlotState.settled_of_lost held sought]
        exact ih once passed
      | some scanned =>
        have here : scanned.offset = region.offset := by
          simpa using List.find?_some sought
        simp only [held, sought] at passed
        split at passed
        · cases passed
        · rename_i fresh
          rw [SlotState.settled_of_found held sought, SlotState.span?_adopt held here]
          simp only [ScannedRegion.span, here]
          exact List.perm_middle.nodup_iff.mp (ih (List.nodup_cons.mpr ⟨fresh, once⟩) passed)

theorem keptOffsets_sublist (regions : List ScannedRegion) (states : List SlotState) :
    (keptOffsets regions states).Sublist ((SlotTable.spans states).map Span.offset) := by
  induction states with
  | nil => exact .slnil
  | cons state rest ih =>
    rw [keptOffsets_cons]
    cases held : state.region? with
    | none =>
      rw [SlotState.settled_of_unheld held, SlotTable.spans_cons_of_none rest held]
      exact ih
    | some region =>
      rw [SlotTable.spans_cons_of_some rest held]
      cases sought : regions.find? (·.offset == region.offset) with
      | none =>
        rw [SlotState.settled_of_lost held sought]
        exact ih.cons _
      | some scanned =>
        have here : scanned.offset = region.offset := by
          simpa using List.find?_some sought
        rw [SlotState.settled_of_found held sought, SlotState.span?_adopt held here]
        simp only [List.map_cons, Region.span, ScannedRegion.span, here]
        exact ih.cons_cons _

theorem settle_of_distinct (regions : List ScannedRegion) {states : List SlotState} (index : Nat)
    (claimed : List Nat)
    (distinct : ((SlotTable.spans states).map Span.offset ++ claimed).Nodup) :
    (settle regions index claimed states).1 = none :=
  congrArg Prod.fst (settle_of_unshared regions states index claimed
    (distinct.sublist ((keptOffsets_sublist regions states).append_right claimed)))

theorem settle_of_found (regions : List ScannedRegion) (states : List SlotState) (index : Nat)
    (claimed : List Nat)
    (found : ∀ span ∈ SlotTable.spans states, ∃ scanned : ScannedRegion,
      regions.find? (·.offset == span.offset) = some scanned ∧ scanned.capacity = span.capacity)
    (distinct : ((SlotTable.spans states).map Span.offset ++ claimed).Nodup) :
    settle regions index claimed states = (none,
      ⟨states, ((SlotTable.spans states).map Span.offset).reverse ++ claimed, [], []⟩) := by
  have sound (state : SlotState) (listed : state ∈ states) : state.settled regions = state ∧
      state.isLost regions = false ∧ state.isResized regions = false := by
    cases held : state.region? with
    | none =>
      rw [SlotState.settled_of_unheld held, SlotState.region?_eq_none_iff.mp held]
      exact ⟨rfl, rfl, rfl⟩
    | some region =>
      obtain ⟨scanned, here, same⟩ := found region.span
        (List.mem_filterMap.mpr ⟨state, listed, by simp [SlotState.span?, held]⟩)
      simp only [Region.span] at here same
      have adopted : region.adopt scanned = region := if_pos same.symm
      refine ⟨?_, by simp [SlotState.isLost, held, here],
        by simp [SlotState.isResized, held, here, same]⟩
      rw [SlotState.settled_of_found held here]
      cases state with
      | unused => cases held
      | live own =>
        cases held
        simp only [SlotState.mapRegion, adopted]
      | free own deletable =>
        cases held
        simp only [SlotState.mapRegion, adopted]
  have same : states.map (SlotState.settled regions) = states :=
    (List.map_congr_left fun state listed => (sound state listed).1).trans (List.map_id states)
  have offsets : keptOffsets regions states = (SlotTable.spans states).map Span.offset := by
    rw [keptOffsets, same]
  rw [settle_of_unshared regions states index claimed (offsets ▸ distinct), settledSlots, same,
    offsets, SlotTable.indicesFrom_eq_nil fun state listed => (sound state listed).2.1,
    SlotTable.indicesFrom_eq_nil fun state listed => (sound state listed).2.2]

theorem mem_of_settled {regions : List ScannedRegion} {before : List SlotState} {span : Span}
    (member : span ∈ SlotTable.spans (before.map (SlotState.settled regions))) :
    span ∈ regions.map ScannedRegion.span := by
  obtain ⟨state, listed, held⟩ := List.mem_filterMap.mp member
  obtain ⟨old, _, rfl⟩ := List.mem_map.mp listed
  cases holds : old.region? with
  | none =>
    rw [SlotState.settled_of_unheld holds] at held
    cases held
  | some region =>
    cases sought : regions.find? (·.offset == region.offset) with
    | none =>
      rw [SlotState.settled_of_lost holds sought] at held
      cases held
    | some scanned =>
      have here : scanned.offset = region.offset := by
        simpa using List.find?_some sought
      rw [SlotState.settled_of_found holds sought, SlotState.span?_adopt holds here] at held
      cases held
      exact List.mem_map_of_mem (List.mem_of_find?_eq_some sought)

theorem SlotState.settled_live (regions : List ScannedRegion) (region : Region)
    (used : (SlotState.live region).settled regions ≠ .unused) :
    ∃ kept, (SlotState.live region).settled regions = .live kept := by
  cases sought : regions.find? (·.offset == region.offset) with
  | none => exact absurd (SlotState.settled_of_lost rfl sought) used
  | some scanned => exact ⟨_, SlotState.settled_of_found rfl sought⟩

/-- The state in which a region that no slot holds is recovered. -/
def Span.recovered (span : Span) : SlotState :=
  .free ⟨span.offset, span.capacity, span.capacity⟩ false

theorem shape_recovered (slots : SlotTable) (lost : List Span) :
    SlotTable.shape (slots ++ lost.map Span.recovered) = slots.shape ++ lost.map some := by
  rw [SlotTable.shape, List.map_append, List.map_map]
  rfl

/-- Where there are enough indices, regions are recovered behind the table, in their order. -/
theorem recoverRegions_of_room {table : SlotTable} {regions : List ScannedRegion}
    (room : table.length + regions.length ≤ SlotTable.indexLimit) :
    recoverRegions table regions = (.ok (List.range' table.length regions.length),
      table ++ (regions.map ScannedRegion.span).map Span.recovered) := by
  induction regions generalizing table with
  | nil => simp [recoverRegions]
  | cons region rest ih =>
    simp only [List.length_cons] at room
    have pushed : table.push region.span.recovered =
        .ok (table.length, table ++ [region.span.recovered]) := by
      unfold SlotTable.push
      rw [if_pos (by omega)]
    have grown := @ih (table ++ [region.span.recovered])
      (by simp only [List.length_append, List.length_singleton]; omega)
    simp only [Span.recovered, ScannedRegion.span, List.length_append,
      List.length_singleton] at pushed grown
    simp only [recoverRegions, pushed]
    rw [grown]
    simp [List.range'_succ, Span.recovered, ScannedRegion.span]

theorem recoverRegions_of_excess {table : SlotTable} {regions : List ScannedRegion}
    (limited : table.length ≤ SlotTable.indexLimit)
    (excess : SlotTable.indexLimit < table.length + regions.length) :
    (recoverRegions table regions).1 = .error (.overflow .slotIndices) := by
  induction regions generalizing table with
  | nil =>
    simp only [List.length_nil] at excess
    omega
  | cons region rest ih =>
    simp only [List.length_cons] at excess
    simp only [recoverRegions, SlotTable.push]
    by_cases room : table.length < SlotTable.indexLimit
    · have later := @ih
        (table ++ [.free ⟨region.offset, region.capacity, region.capacity⟩ false])
        (by simp only [List.length_append, List.length_singleton]; omega)
        (by simp only [List.length_append, List.length_singleton]; omega)
      rw [if_pos room]
      simp only
      split
      · rename_i stopped
        rw [stopped] at later
        exact later
      · rename_i done
        rw [done] at later
        cases later
    · rw [if_neg room]

theorem recoverRegions_ok {table final : SlotTable} {regions : List ScannedRegion}
    {indices : List Nat} (done : recoverRegions table regions = (.ok indices, final)) :
    indices = List.range' table.length regions.length ∧
      final = table ++ (regions.map ScannedRegion.span).map Span.recovered := by
  induction regions generalizing table indices with
  | nil =>
    cases done
    simp
  | cons region rest ih =>
    unfold recoverRegions SlotTable.push at done
    split at done
    · cases done
    · rename_i index grown pushed
      split at pushed
      · cases pushed
        split at done
        · cases done
        · rename_i onward
          cases done
          obtain ⟨counted, listed⟩ := ih onward
          rw [counted, listed]
          simp [List.range'_succ, ScannedRegion.span, Span.recovered]
      · cases pushed

theorem recoverRegions_error {table : SlotTable} {regions : List ScannedRegion} {fault : Fault}
    (stopped : (recoverRegions table regions).1 = .error fault) :
    fault = .overflow .slotIndices := by
  induction regions generalizing table with
  | nil => cases stopped
  | cons region rest ih =>
    unfold recoverRegions SlotTable.push at stopped
    split at stopped
    · rename_i pushed
      split at pushed
      · cases pushed
      · cases pushed
        cases stopped
        rfl
    · split at stopped
      · rename_i onward
        exact ih (by rw [onward]; exact stopped)
      · cases stopped

/-- What a reconciliation that succeeds makes of a table. -/
structure Reconciled (table : SlotTable) (scan : Scan) (report : RepairReport)
    (final : SlotTable) : Prop where
  sentinel : final[0]? = some .unused
  spans : (scan.regions.map ScannedRegion.span).Perm final.spans
  endOfFile : report.endOfFile = scan.nextOffset
  live : ∀ (index : Nat) (region : Region), table[index]? = some (.live region) →
    index ∉ report.demoted → ∃ kept, final[index]? = some (.live kept)

/-- Slots that claimed different scanned regions, and the regions left over, make up the scan. -/
theorem perm_of_claimed {regions : List ScannedRegion} {held : List Span} {claimed : List Nat}
    (distinct : (regions.map (·.offset)).Nodup) (claims : claimed = (held.map Span.offset).reverse)
    (once : claimed.Nodup) (scanned : ∀ span ∈ held, span ∈ regions.map ScannedRegion.span) :
    (regions.map ScannedRegion.span).Perm
      (held ++ (orphans regions claimed).map ScannedRegion.span) := by
  have left : (orphans regions claimed).Perm
      (regions.filter fun region => !claimed.contains region.offset) := List.mergeSort_perm _ _
  have offsets : (regions.map ScannedRegion.span).map Span.offset = regions.map (·.offset) := by
    rw [List.map_map]
    rfl
  have spansDistinct : (regions.map ScannedRegion.span).Nodup :=
    List.Nodup.of_map Span.offset (offsets ▸ distinct)
  have mem_claimed {span : Span} (member : span ∈ held) : span.offset ∈ claimed := by
    rw [claims, List.mem_reverse]
    exact List.mem_map_of_mem member
  refine (List.perm_ext_iff_of_nodup spansDistinct ?_).mpr fun span => ?_
  · refine List.nodup_append.mpr ⟨?_, ?_, ?_⟩
    · rw [claims, List.nodup_reverse] at once
      exact List.Nodup.of_map Span.offset once
    · have filtered := (left.map ScannedRegion.span).nodup_iff.mpr
        (spansDistinct.sublist (List.filter_sublist.map ScannedRegion.span))
      exact filtered
    · rintro span member _ free rfl
      obtain ⟨region, listed, rfl⟩ := List.mem_map.mp free
      have unclaimed := (List.mem_filter.mp (left.mem_iff.mp listed)).2
      rw [List.contains_eq_mem, Bool.not_eq_true', decide_eq_false_iff_not] at unclaimed
      exact unclaimed (mem_claimed member)
  · rw [List.mem_append]
    constructor
    · intro member
      obtain ⟨region, listed, rfl⟩ := List.mem_map.mp member
      by_cases taken : region.offset ∈ claimed
      · -- a claimed region is the one of its offset, so a slot has it
        rw [claims, List.mem_reverse] at taken
        obtain ⟨other, own, same⟩ := List.mem_map.mp taken
        have equal := List.inj_on_of_nodup_map (offsets ▸ distinct) (scanned other own) member same
        exact Or.inl (equal ▸ own)
      · refine Or.inr (List.mem_map_of_mem (left.mem_iff.mpr (List.mem_filter.mpr ⟨listed, ?_⟩)))
        simpa using taken
    · rintro (member | free)
      · exact scanned span member
      · obtain ⟨region, listed, rfl⟩ := List.mem_map.mp free
        exact List.mem_map_of_mem (List.mem_filter.mp (left.mem_iff.mp listed)).1

/-- The scanned regions that are left over when every slot has claimed its own. -/
def leftover (regions : List ScannedRegion) (table : SlotTable) : List ScannedRegion :=
  orphans regions (keptOffsets regions table).reverse

/-- A reconciliation that succeeds has met no region twice; every slot is treated by itself, and what
is left over is recovered. -/
theorem reconcile_ok {table final : SlotTable} {scan : Scan} {report : RepairReport}
    (done : reconcile table scan = (.ok report, final))
    (distinct : (scan.regions.map (·.offset)).Nodup) :
    table[0]? = some .unused ∧ (keptOffsets scan.regions table).Nodup ∧
      final = table.map (SlotState.settled scan.regions) ++
        ((leftover scan.regions table).map ScannedRegion.span).map Span.recovered ∧
      report.demoted = table.indicesOf (fun _ => SlotState.isLost scan.regions) ∧
      report.capacityFixed = table.indicesOf (fun _ => SlotState.isResized scan.regions) ∧
      report.recovered = List.range' table.length (leftover scan.regions table).length ∧
      report.endOfFile = scan.nextOffset := by
  unfold reconcile at done
  split at done
  · cases done
  · rename_i first
    have sentinel : table[0]? = some .unused := by
      cases held : table[0]? with
      | none => simp [held] at first
      | some state => simpa [held, SlotState.isUnused_iff] using first
    simp only [distinctRegions_of_nodup distinct] at done
    split at done
    · cases done
    · rename_i settled passed
      have unshared := unshared_of_settle List.nodup_nil (congrArg Prod.fst passed)
      have pass := passed.symm.trans (settle_of_unshared scan.regions table 0 [] unshared)
      cases (Prod.mk.inj pass).2
      simp only [settledSlots, List.append_nil] at unshared done
      split at done
      · cases done
      · rename_i recovering
        cases done
        obtain ⟨counted, listed⟩ := recoverRegions_ok recovering
        refine ⟨sentinel, unshared, listed, rfl, rfl, ?_, rfl⟩
        rw [counted, List.length_map]
        rfl

/-- Where no region is met twice and there are enough indices, a reconciliation succeeds. -/
theorem reconcile_of_unshared {table : SlotTable} {scan : Scan}
    (sentinel : table[0]? = some .unused) (distinct : (scan.regions.map (·.offset)).Nodup)
    (unshared : (keptOffsets scan.regions table).Nodup)
    (room : table.length + (leftover scan.regions table).length ≤ SlotTable.indexLimit) :
    ∃ report final, reconcile table scan = (.ok report, final) := by
  have recovered : recoverRegions (table.map (SlotState.settled scan.regions))
      (leftover scan.regions table) = _ := recoverRegions_of_room (by rw [List.length_map]; exact room)
  unfold leftover at recovered
  unfold reconcile
  rw [if_neg (by simp [sentinel, SlotState.isUnused])]
  simp only [distinctRegions_of_nodup distinct,
    settle_of_unshared scan.regions table 0 [] (by rwa [List.append_nil]), settledSlots,
    List.append_nil, recovered]
  exact ⟨_, _, rfl⟩

/-- Where there are not enough indices for what is left over, it fails for that. -/
theorem reconcile_of_excess {table : SlotTable} {scan : Scan}
    (sentinel : table[0]? = some .unused) (distinct : (scan.regions.map (·.offset)).Nodup)
    (unshared : (keptOffsets scan.regions table).Nodup)
    (limited : table.length ≤ SlotTable.indexLimit)
    (excess : SlotTable.indexLimit < table.length + (leftover scan.regions table).length) :
    (reconcile table scan).1 = .error (.overflow .slotIndices) := by
  have length : (table.map (SlotState.settled scan.regions)).length = table.length :=
    List.length_map _
  have refused := recoverRegions_of_excess (length ▸ limited) (length ▸ excess)
  unfold leftover at refused
  unfold reconcile
  rw [if_neg (by simp [sentinel, SlotState.isUnused])]
  simp only [distinctRegions_of_nodup distinct,
    settle_of_unshared scan.regions table 0 [] (by rwa [List.append_nil]), settledSlots,
    List.append_nil]
  split
  · rename_i stopped
    rw [stopped] at refused
    cases refused
    rfl
  · rename_i done
    rw [done] at refused
    cases refused

theorem getElem?_of_settled {regions : List ScannedRegion} {table final more : SlotTable}
    (grown : final = table.map (SlotState.settled regions) ++ more) {index : Nat} {state : SlotState}
    (found : table[index]? = some state) : final[index]? = some (state.settled regions) := by
  have mapped : (table.map (SlotState.settled regions))[index]? = some (state.settled regions) := by
    rw [List.getElem?_map, found]
    rfl
  rw [grown, List.getElem?_append_left (List.getElem?_eq_some_iff.mp mapped).1, mapped]

theorem reconciled_of_ok {table final : SlotTable} {scan : Scan} {report : RepairReport}
    (done : reconcile table scan = (.ok report, final))
    (distinct : (scan.regions.map (·.offset)).Nodup) : Reconciled table scan report final := by
  obtain ⟨sentinel, unshared, grown, demoted, _, _, stop⟩ := reconcile_ok done distinct
  exact {
    sentinel := getElem?_of_settled grown sentinel
    spans := by
      have shaped : final.shape =
          SlotTable.shape (table.map (SlotState.settled scan.regions)) ++
            ((leftover scan.regions table).map ScannedRegion.span).map some := by
        rw [grown, shape_recovered]
      rw [SlotTable.spans_eq_append shaped]
      exact perm_of_claimed distinct rfl (List.nodup_reverse.mpr unshared)
        fun span member => mem_of_settled member
    endOfFile := stop
    live := by
      intro index region found kept
      obtain ⟨fresh, stays⟩ := SlotState.settled_live scan.regions region fun gone => kept (by
        rw [demoted]
        exact SlotTable.mem_indicesOf_iff.mpr ⟨_, found, SlotState.isLost_of_settled gone nofun⟩)
      exact ⟨fresh, by rw [getElem?_of_settled grown found, stays]⟩ }

/-- Over slots with different regions, behind a sentinel, only the indices can run out. -/
theorem reconcile_error {table final : SlotTable} {scan : Scan} {fault : Fault}
    (stopped : reconcile table scan = (.error fault, final)) (sentinel : table[0]? = some .unused)
    (distinct : (table.spans.map Span.offset).Nodup) : fault = .overflow .slotIndices := by
  unfold reconcile at stopped
  rw [if_neg (by simp [sentinel, SlotState.isUnused])] at stopped
  simp only at stopped
  split at stopped
  · rename_i damage settled met
    have passed := settle_of_distinct (distinctRegions scan.regions) 0 [] (by rwa [List.append_nil])
    rw [met] at passed
    cases passed
  · split at stopped
    · rename_i refused
      cases stopped
      exact recoverRegions_error (congrArg Prod.fst refused)
    · cases stopped

theorem find_of_distinct {regions : List ScannedRegion} {region : ScannedRegion}
    (distinct : (regions.map (·.offset)).Nodup) (member : region ∈ regions) :
    regions.find? (·.offset == region.offset) = some region := by
  have some : (regions.find? (·.offset == region.offset)).isSome :=
    List.find?_isSome.mpr ⟨region, member, by simp⟩
  obtain ⟨other, found⟩ := Option.isSome_iff_exists.mp some
  have hit : other.offset = region.offset := by simpa using List.find?_some found
  rw [found, List.inj_on_of_nodup_map distinct (List.mem_of_find?_eq_some found) member hit]

/-- A table whose slots hold the scanned regions and nothing else is left as it is. -/
theorem reconcile_of_matching {table : SlotTable} {scan : Scan} (sentinel : table[0]? = some .unused)
    (distinct : (scan.regions.map (·.offset)).Nodup)
    (same : (scan.regions.map ScannedRegion.span).Perm table.spans) :
    reconcile table scan = (.ok {
      regionsScanned := scan.regions.length
      liveRegions := scan.regions.countP (·.live)
      freeRegions := scan.regions.countP fun region => !region.live
      demoted := [], recovered := [], capacityFixed := [], endOfFile := scan.nextOffset }, table) := by
  have offsets : (scan.regions.map ScannedRegion.span).map Span.offset =
      scan.regions.map (·.offset) := by
    rw [List.map_map]
    rfl
  have once : (table.spans.map Span.offset).Nodup :=
    (same.map Span.offset).nodup_iff.mp (offsets ▸ distinct)
  have settled := settle_of_found scan.regions table 0 [] (by
    intro span member
    obtain ⟨region, listed, rfl⟩ := List.mem_map.mp (same.mem_iff.mpr member)
    exact ⟨region, find_of_distinct distinct listed, rfl⟩) (by rwa [List.append_nil])
  have none : orphans scan.regions (table.spans.map Span.offset).reverse = [] := by
    have whole := perm_of_claimed distinct rfl (List.nodup_reverse.mpr once)
      fun span member => same.mem_iff.mpr member
    have counted := (same.symm.trans whole).length_eq
    rw [List.length_append, List.length_map] at counted
    exact List.eq_nil_of_length_eq_zero (by omega)
  unfold reconcile
  rw [if_neg (by simp [sentinel, SlotState.isUnused])]
  simp only [distinctRegions_of_nodup distinct, settled, List.append_nil, none, recoverRegions]

end SlotStore
