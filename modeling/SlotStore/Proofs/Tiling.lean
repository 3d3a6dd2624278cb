import Mathlib.Data.List.Pairwise
import Mathlib.Data.List.Perm.Basic
import SlotStore.Proofs.Selection

/-!
Spans, the regions of a slot table without their sizes. Spans tile a stretch of the file when they
follow one another with two guard words between them; then no two of them touch. Changing a slot's
state without moving its region leaves the spans of a table as they are.
-/

namespace SlotStore

/-- Where a region lies and how long it is, whatever it holds. -/
structure Span where
  offset : Nat
  capacity : Nat
deriving DecidableEq, Repr

namespace Span

/-- The offset of the span behind this one: two guard words lie between them. -/
def next (span : Span) : Nat := span.offset + span.capacity + 16

/-- A capacity is a positive multiple of the granule that a signed word can hold. -/
def Legal (span : Span) : Prop :=
  0 < span.capacity ∧ span.capacity % granule = 0 ∧ span.capacity < 2 ^ 63

/-- Neither span reaches into the other one or its guard words. -/
def Apart (left right : Span) : Prop := left.next ≤ right.offset ∨ right.next ≤ left.offset

theorem Apart.symm {left right : Span} (apart : Apart left right) : Apart right left :=
  Or.symm apart

instance : Std.Symm Apart := ⟨fun _ _ => Apart.symm⟩

end Span

/-- Spans that follow one another from a start without a gap, up to a stop. -/
def Tiles : (start : Nat) → List Span → (stop : Nat) → Prop
  | start, [], stop => start = stop
  | start, span :: rest, stop => span.offset = start ∧ Tiles span.next rest stop

theorem Tiles.start_le {start stop : Nat} {order : List Span} (tiles : Tiles start order stop) :
    start ≤ stop := by
  induction order generalizing start with
  | nil => exact Nat.le_of_eq tiles
  | cons span rest ih =>
    obtain ⟨here, behind⟩ := tiles
    have later := ih behind
    simp only [Span.next] at later
    omega

theorem Tiles.within {start stop : Nat} {order : List Span} (tiles : Tiles start order stop)
    {span : Span} (member : span ∈ order) : start ≤ span.offset ∧ span.next ≤ stop := by
  induction order generalizing start with
  | nil => cases member
  | cons head rest ih =>
    obtain ⟨here, behind⟩ := tiles
    rcases List.mem_cons.mp member with same | later
    · subst same
      exact ⟨Nat.le_of_eq here.symm, behind.start_le⟩
    · obtain ⟨low, high⟩ := ih behind later
      simp only [Span.next] at low high ⊢
      exact ⟨by omega, high⟩

/-- Each span of a tiling ends before every later one starts. -/
theorem Tiles.pairwise {start stop : Nat} {order : List Span} (tiles : Tiles start order stop) :
    order.Pairwise fun left right => left.next ≤ right.offset := by
  induction order generalizing start with
  | nil => exact List.Pairwise.nil
  | cons head rest ih =>
    obtain ⟨_, behind⟩ := tiles
    exact List.pairwise_cons.mpr ⟨fun span member => (behind.within member).1, ih behind⟩

theorem Tiles.distinct {start stop : Nat} {order : List Span} (tiles : Tiles start order stop) :
    (order.map Span.offset).Nodup := by
  refine List.pairwise_map.mpr (tiles.pairwise.imp ?_)
  intro left right before same
  simp only [Span.next] at before
  omega

theorem Tiles.append {start middle stop : Nat} {order behind : List Span}
    (tiles : Tiles start order middle) (onward : Tiles middle behind stop) :
    Tiles start (order ++ behind) stop := by
  induction order generalizing start with
  | nil => exact Eq.subst (motive := fun start => Tiles start behind stop) tiles.symm onward
  | cons head rest ih => exact ⟨tiles.1, ih tiles.2⟩

theorem tiles_single (start capacity : Nat) :
    Tiles start [⟨start, capacity⟩] (start + capacity + 16) :=
  ⟨rfl, rfl⟩

/-- Where all capacities are the same the number of the spans says where they end. -/
theorem Tiles.stop_eq {start stop capacity : Nat} {order : List Span} (tiles : Tiles start order stop)
    (same : ∀ span ∈ order, span.capacity = capacity) :
    stop = start + order.length * (capacity + 16) := by
  induction order generalizing start with
  | nil =>
    rw [List.length_nil, Nat.zero_mul]
    exact tiles.symm
  | cons head rest ih =>
    obtain ⟨here, behind⟩ := tiles
    have width := same head (List.mem_cons_self ..)
    rw [ih behind fun span member => same span (List.mem_cons_of_mem head member), List.length_cons,
      Span.next, here, width, Nat.succ_mul]
    omega

theorem Tiles.aligned {start stop : Nat} {order : List Span} (tiles : Tiles start order stop)
    (legal : ∀ span ∈ order, span.Legal) {span : Span} (member : span ∈ order) :
    span.offset % 16 = start % 16 := by
  induction order generalizing start with
  | nil => cases member
  | cons head rest ih =>
    obtain ⟨here, behind⟩ := tiles
    rcases List.mem_cons.mp member with same | later
    · rw [same, here]
    · have whole := (legal head (by simp)).2.1
      have step := ih behind (fun span inRest => legal span (by simp [inRest])) later
      simp only [granule, Span.next] at whole step
      omega

def Region.span (region : Region) : Span := ⟨region.offset, region.capacity⟩

def SlotState.span? (state : SlotState) : Option Span := state.region?.map Region.span

@[simp] theorem SlotState.span?_unused : SlotState.unused.span? = none := rfl

@[simp] theorem SlotState.span?_live (region : Region) :
    (SlotState.live region).span? = some region.span := rfl

@[simp] theorem SlotState.span?_free (region : Region) (deletable : Bool) :
    (SlotState.free region deletable).span? = some region.span := rfl

namespace SlotTable

/-- The spans of all slots that hold a region, in index order. -/
def spans (table : SlotTable) : List Span := table.filterMap SlotState.span?

theorem spans_cons_of_none {state : SlotState} (rest : SlotTable) (held : state.region? = none) :
    spans (state :: rest) = rest.spans := by
  simp [spans, SlotState.span?, held]

theorem spans_cons_of_some {state : SlotState} {region : Region} (rest : SlotTable)
    (held : state.region? = some region) :
    spans (state :: rest) = region.span :: rest.spans := by
  simp [spans, SlotState.span?, held]

/-- Where the offsets ahead and those behind all differ, the first one ahead is new, and it may join
those behind. -/
theorem distinct_cons {state : SlotState} {region : Region} {rest : SlotTable} {seen : List Nat}
    (held : state.region? = some region)
    (distinct : ((spans (state :: rest)).map Span.offset ++ seen).Nodup) :
    region.offset ∉ seen ∧ (rest.spans.map Span.offset ++ region.offset :: seen).Nodup := by
  rw [spans_cons_of_some rest held] at distinct
  refine ⟨fun member => ?_, List.perm_middle.nodup_iff.mpr distinct⟩
  exact (List.nodup_cons.mp distinct).1 (List.mem_append_right _ member)

/-- The span of each slot, in index order; none for an unused slot. -/
def shape (table : SlotTable) : List (Option Span) := table.map SlotState.span?

@[simp] theorem length_shape (table : SlotTable) : table.shape.length = table.length :=
  List.length_map ..

@[simp] theorem getElem?_shape (table : SlotTable) (index : Nat) :
    table.shape[index]? = table[index]?.map SlotState.span? := List.getElem?_map ..

theorem spans_eq (table : SlotTable) : table.spans = table.shape.filterMap id := by
  simp [spans, shape, List.filterMap_map]

theorem spans_eq_of_shape_eq {left right : SlotTable} (same : left.shape = right.shape) :
    left.spans = right.spans := by
  rw [spans_eq, spans_eq, same]

theorem length_of_shape_eq {left right : SlotTable} (same : left.shape = right.shape) :
    left.length = right.length := by
  rw [← length_shape left, same, length_shape]

theorem length_of_shape_append {left right : SlotTable} {more : List Span}
    (longer : right.shape = left.shape ++ more.map some) :
    right.length = left.length + more.length := by
  rw [← length_shape right, longer, List.length_append, length_shape, List.length_map]

theorem spans_eq_append {left right : SlotTable} {more : List Span}
    (longer : right.shape = left.shape ++ more.map some) : right.spans = left.spans ++ more := by
  rw [spans_eq, spans_eq, longer, List.filterMap_append, List.filterMap_map]
  simp

theorem shape_set {table : SlotTable} {index : Nat} {old new : SlotState}
    (found : table[index]? = some old) (same : new.span? = old.span?) :
    shape (table.set index new) = table.shape := by
  obtain ⟨bound, here⟩ := List.getElem?_eq_some_iff.mp found
  apply List.ext_getElem?
  intro other
  rw [getElem?_shape, List.getElem?_set, getElem?_shape]
  split
  · rename_i hit
    subst hit
    simp [bound, here, same]
  · rfl

theorem mem_spans_iff {table : SlotTable} {span : Span} :
    span ∈ table.spans ↔
      ∃ (index : Nat) (state : SlotState), table[index]? = some state ∧ state.span? = some span := by
  rw [spans, List.mem_filterMap]
  constructor
  · rintro ⟨state, member, held⟩
    obtain ⟨index, found⟩ := List.mem_iff_getElem?.mp member
    exact ⟨index, state, found, held⟩
  · rintro ⟨index, state, found, held⟩
    exact ⟨state, List.mem_of_getElem? found, held⟩

theorem mem_spans {table : SlotTable} {index : Nat} {state : SlotState} {region : Region}
    (found : table[index]? = some state) (held : state.region? = some region) :
    region.span ∈ table.spans :=
  mem_spans_iff.mpr ⟨index, state, found, by simp [SlotState.span?, held]⟩

theorem spans_set {table : SlotTable} {index : Nat} {old new : SlotState}
    (found : table[index]? = some old) (same : new.span? = old.span?) :
    spans (table.set index new) = table.spans :=
  spans_eq_of_shape_eq (shape_set found same)

theorem spans_set_unused {table : SlotTable} {index : Nat} {new : SlotState} {span : Span}
    (found : table[index]? = some .unused) (held : new.span? = some span) :
    (spans (table.set index new)).Perm (span :: table.spans) := by
  obtain ⟨bound, here⟩ := List.getElem?_eq_some_iff.mp found
  have split : table = table.take index ++ .unused :: table.drop (index + 1) := by
    rw [← here, List.getElem_cons_drop, List.take_append_drop]
  have changed : table.set index new = table.take index ++ new :: table.drop (index + 1) :=
    List.set_eq_take_append_cons_drop.trans (if_pos bound)
  have before : table.spans = spans (table.take index) ++ spans (table.drop (index + 1)) := by
    conv => lhs; rw [split]
    simp [spans, List.filterMap_cons]
  rw [changed, before]
  simp only [spans, List.filterMap_append, List.filterMap_cons, held]
  exact List.perm_middle

theorem spans_acquire {table grown : SlotTable} {index : Nat}
    (taken : table.acquire = .ok (index, grown)) : grown.spans = table.spans := by
  rcases acquire_ok taken with ⟨_, rfl⟩ | ⟨_, _, _, rfl⟩
  · rfl
  · simp [spans]

/-- Spans of different slots stand in whatever symmetric relation holds throughout the table. -/
theorem relation_of_ne {relation : Span → Span → Prop} {table : SlotTable} {left right : Nat}
    {leftState rightState : SlotState} {leftSpan rightSpan : Span}
    (symmetric : ∀ {first second}, relation first second → relation second first)
    (pairwise : table.spans.Pairwise relation)
    (leftFound : table[left]? = some leftState) (leftHeld : leftState.span? = some leftSpan)
    (rightFound : table[right]? = some rightState) (rightHeld : rightState.span? = some rightSpan)
    (different : left ≠ right) : relation leftSpan rightSpan := by
  obtain ⟨leftBound, leftHere⟩ := List.getElem?_eq_some_iff.mp leftFound
  obtain ⟨rightBound, rightHere⟩ := List.getElem?_eq_some_iff.mp rightFound
  have byIndex := List.pairwise_iff_getElem.mp (List.pairwise_filterMap.mp pairwise)
  rcases Nat.lt_or_gt_of_ne different with before | behind
  · exact byIndex left right leftBound rightBound before leftSpan (by rw [leftHere]; exact leftHeld)
      rightSpan (by rw [rightHere]; exact rightHeld)
  · exact symmetric (byIndex right left rightBound leftBound behind rightSpan
      (by rw [rightHere]; exact rightHeld) leftSpan (by rw [leftHere]; exact leftHeld))

end SlotTable

end SlotStore
