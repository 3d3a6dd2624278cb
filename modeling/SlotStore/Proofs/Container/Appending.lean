import SlotStore.Proofs.Container.Opening
import SlotStore.Proofs.Container.Placement
import SlotStore.Proofs.Container.TableGrowth

/-!
Appends to a container of which nothing is known but what the loader checks. The loader takes the
end of the file from the header and the regions from the slot table, and does not compare the two.
Where the end lies behind every region, no append touches the region of another slot, and each one
leaves the end behind every region again. Where it does not, a single allocation that is large
enough overlaps a region in use.
-/

namespace SlotStore

/-- The index of the slot that a streamed append comes to. -/
def AppendOutcome.index? : AppendOutcome → Option Nat
  | .slot index => some index
  | .failed _ => none
  | .aborted => none

namespace Container

/-- The end of the file lies behind the region of every slot. -/
def Enclosed (container : Container) : Prop :=
  ∀ span ∈ container.slots.spans, span.next ≤ container.endOfFile

instance (container : Container) : Decidable container.Enclosed :=
  inferInstanceAs (Decidable (∀ span ∈ container.slots.spans, span.next ≤ container.endOfFile))

/-- A call that allocates, with the index it answers and the container it leaves. -/
inductive Allocates (container : Container) : Option Nat → Container → Prop where
  | newEntry (size : Nat) :
      Allocates container (container.newEntry size).1.toOption (container.newEntry size).2
  | appendEntry (acts : List AppendAct) (ending : AppendEnd) :
      Allocates container (container.appendEntry acts ending).1.2.index?
        (container.appendEntry acts ending).2

inductive Allocated (opened : Container) : Container → Prop where
  | start : Allocated opened opened
  | step {before after : Container} {answer : Option Nat} (run : Allocated opened before)
      (call : Allocates before answer after) : Allocated opened after

variable {container new : Container} {answer : Option Nat}

/-- What an allocation does to the slots and the end of the file. No region moves and an index that
is answered had one; or a region is appended, for which there is no index; or it goes into a slot
that had none. -/
inductive Places (container new : Container) (answer : Option Nat) : Prop where
  | kept (shape : SlotTable.shape new.slots = SlotTable.shape container.slots)
      (stop : new.endOfFile = container.endOfFile)
      (reused : ∀ index, answer = some index → container.slots[index]?.bind SlotState.region? ≠ none)
  | stranded (slots : new.slots = container.slots) (stop : container.endOfFile ≤ new.endOfFile)
      (refused : ∀ index, answer ≠ some index)
  | placed (region : Region) (index : Nat) (grown : SlotTable)
      (taken : container.slots.acquire = .ok (index, grown))
      (slots : new.slots = grown.set index (.live region))
      (offset : region.offset = container.endOfFile) (stop : new.endOfFile = region.span.next)
      (here : ∀ other, answer = some other → other = index)

theorem Places.of_withFile {file : File} (places : Places { container with file := file } new answer) :
    Places container new answer := by
  cases places with
  | kept shape stop reused => exact .kept shape stop reused
  | stranded slots stop refused => exact .stranded slots stop refused
  | placed region index grown taken slots offset stop here =>
    exact .placed region index grown taken slots offset stop here

theorem places_of_placeRegion (container : Container) (capacity size : Nat) :
    Places container
      ((container.extended capacity).placeRegion ⟨container.endOfFile, size, capacity⟩).2
      ((container.extended capacity).placeRegion ⟨container.endOfFile, size, capacity⟩).1.toOption := by
  rcases (container.extended capacity).placeRegion_cases ⟨container.endOfFile, size, capacity⟩ with
    ⟨index, grown, taken, done⟩ | ⟨_, refused⟩
  · rw [done]
    exact .placed _ index grown taken rfl rfl rfl fun other same => (Option.some.inj same).symm
  · rw [refused]
    exact .stranded rfl (by simp only [extended_endOfFile]; omega) nofun

theorem places_of_newEntry (container : Container) (size : Nat) :
    Places container (container.newEntry size).2 (container.newEntry size).1.toOption := by
  rcases container.newEntry_cases size with
    ⟨excess, refused⟩ | ⟨index, region, deletable, found, _, reused⟩ | ⟨capacity, _, _, appended⟩
  · rw [refused]
    exact .kept rfl rfl nofun
  · rw [reused]
    refine .kept (SlotTable.shape_set found rfl) rfl fun other same => ?_
    cases same
    simp [found, SlotState.region?]
  · rw [appended]
    exact places_of_placeRegion container capacity 0

theorem places_of_adoptStream (container : Container) (written : Nat) :
    Places container (container.adoptStream written).2
      (container.adoptStream written).1.toOption := by
  rcases container.adoptStream_cases written with ⟨_, refused⟩ | ⟨capacity, _, _, adopted⟩
  · rw [refused]
    exact .kept rfl rfl nofun
  · rw [adopted]
    exact places_of_placeRegion container capacity written

theorem AppendOutcome.index?_ofResult (result : Except Fault Nat) :
    (AppendOutcome.ofResult result).index? = result.toOption := by
  cases result <;> rfl

theorem AppendOutcome.index?_eq_some_iff {outcome : AppendOutcome} {index : Nat} :
    outcome.index? = some index ↔ outcome = .slot index := by
  cases outcome <;> simp [AppendOutcome.index?]

theorem places_of_allocates (call : Allocates container answer new) :
    Places container new answer := by
  cases call with
  | newEntry size => exact places_of_newEntry container size
  | appendEntry acts ending =>
    obtain ⟨_, file, _, ⟨_, _, left, failed, _⟩ | ⟨written, left⟩⟩ :=
      container.appendEntry_cases acts ending
    · rw [left]
      exact .kept rfl rfl fun index answered =>
        absurd (AppendOutcome.index?_eq_some_iff.mp answered) (failed index)
    · rw [left, AppendOutcome.index?_ofResult]
      exact (places_of_adoptStream { container with file := file } written).of_withFile

theorem Enclosed.places (enclosed : container.Enclosed) (filled : container.slots ≠ [])
    (places : Places container new answer) : new.Enclosed ∧ new.slots ≠ [] := by
  cases places with
  | kept shape stop _ =>
    constructor
    · intro span member
      rw [SlotTable.spans_eq_of_shape_eq shape] at member
      rw [stop]
      exact enclosed span member
    · intro empty
      have length := SlotTable.length_of_shape_eq shape
      rw [empty] at length
      exact filled (List.length_eq_zero_iff.mp length.symm)
  | stranded slots stop _ =>
    rw [slots]
    refine ⟨fun span member => ?_, filled⟩
    rw [slots] at member
    exact Nat.le_trans (enclosed span member) stop
  | placed region index grown taken slots offset stop _ =>
    have got := SlotTable.acquired filled taken
    have joined := SlotTable.spans_set_unused got.unused (SlotState.span?_live region)
    rw [SlotTable.spans_acquire taken, ← slots] at joined
    constructor
    · intro span member
      rcases List.mem_cons.mp (joined.mem_iff.mp member) with rfl | old
      · exact Nat.le_of_eq stop.symm
      · have before := enclosed span old
        simp only [stop, Span.next, Region.span, offset] at before ⊢
        omega
    · intro empty
      rw [slots, List.set_eq_nil_iff] at empty
      rw [empty] at got
      exact absurd got.unused (by simp)

theorem Enclosed.separate (enclosed : container.Enclosed) (filled : container.slots ≠ [])
    {index : Nat} (places : Places container new (some index))
    (fresh : container.slots[index]?.bind SlotState.region? = none) : new.Separate index := by
  cases places with
  | kept _ _ reused => exact absurd fresh (reused index rfl)
  | stranded _ _ refused => exact absurd rfl (refused index)
  | placed region other grown taken slots offset stop here =>
    cases here index rfl
    have got := SlotTable.acquired filled taken
    have bound := (List.getElem?_eq_some_iff.mp got.unused).1
    refine ⟨region, by simp [slots, bound], fun other state held different found holds => ?_⟩
    rw [slots, List.getElem?_set_ne different.symm] at found
    have old : state ∈ container.slots := by
      refine (got.mem state (List.mem_of_getElem? found)).resolve_right ?_
      rintro rfl
      cases holds
    have member : held.span ∈ container.slots.spans :=
      List.mem_filterMap.mpr ⟨state, old, by simp [SlotState.span?, holds]⟩
    have behind := enclosed _ member
    rw [← offset] at behind
    exact Or.inr behind

theorem Enclosed.allocated {opened later : Container} (enclosed : opened.Enclosed)
    (filled : opened.slots ≠ []) (run : Allocated opened later) :
    later.Enclosed ∧ later.slots ≠ [] := by
  induction run with
  | start => exact ⟨enclosed, filled⟩
  | step _ call ih => exact ih.1.places ih.2 (places_of_allocates call)

/-- A region that is appended overlaps one that ends behind the end of the file and begins before
its own end. -/
theorem overlap_of_places (filled : container.slots ≠ []) {region held : Region} {index other : Nat}
    {grown : SlotTable} {state : SlotState} (taken : container.slots.acquire = .ok (index, grown))
    (slots : new.slots = grown.set index (.live region))
    (found : container.slots[other]? = some state) (holds : state.region? = some held)
    (early : region.offset < held.span.next) (long : held.offset < region.span.next) :
    ¬ new.Separate index := by
  rintro ⟨own, live, apart⟩
  have got := SlotTable.acquired filled taken
  have bound := (List.getElem?_eq_some_iff.mp got.unused).1
  have used : state ≠ .unused := by
    rintro rfl
    cases holds
  have different := got.fresh other state found used
  have stays : new.slots[other]? = some state := by
    rw [slots, List.getElem?_set_ne different.symm]
    exact got.same other state found
  have same : own = region := by
    rw [slots, List.getElem?_set_self bound] at live
    cases live
    rfl
  subst same
  rcases apart other state held different stays holds with before | behind
  · exact absurd long (Nat.not_lt.mpr before)
  · exact absurd early (Nat.not_lt.mpr behind)

/-- Where the end of the file does not lie behind every region, an entry as long as the file gets a
region that overlaps that of another slot. -/
theorem overlap_of_early_end (grounded : container.Grounded)
    (bounded : container.file.size < 2 ^ 61) (early : ¬ container.Enclosed) :
    ∃ index new, Allocates container (some index) new ∧
      container.slots[index]?.bind SlotState.region? = none ∧ ¬ new.Separate index := by
  have filled := SlotTable.filled_of_sentinel grounded.sentinel
  have within {state : SlotState} {region : Region} (listed : state ∈ container.slots)
      (held : state.region? = some region) := (grounded.held state listed region held).within
  simp only [Enclosed, not_forall, Nat.not_le] at early
  obtain ⟨span, member, before⟩ := early
  obtain ⟨state, listed, spanned⟩ := List.mem_filterMap.mp member
  obtain ⟨held, holds, rfl⟩ := Option.map_eq_some_iff.mp spanned
  obtain ⟨other, found⟩ := List.mem_iff_getElem?.mp listed
  have inside := within listed holds
  have call : Allocates container _ _ := .newEntry container.file.size
  rcases container.newEntry_cases container.file.size with
    ⟨excess, refused⟩ | ⟨_, region, deletable, free, fits, _⟩ | ⟨capacity, granted, _, appended⟩
  · simp only [Span.next, Region.span] at before
    rcases excess_of_newEntry refused with large | full
    · omega
    · exact absurd grounded.limited (Nat.not_lt.mpr full)
  · have shorter := within (List.mem_of_getElem? free) rfl
    omega
  · have room := (legal_of_alignedCapacity granted 0).1
    rw [appended] at call
    rcases (container.extended capacity).placeRegion_cases ⟨container.endOfFile, 0, capacity⟩ with
      ⟨index, grown, taken, done⟩ | ⟨full, _⟩
    · rw [done] at call
      have long : held.offset < container.endOfFile + capacity + 16 := by omega
      refine ⟨index, _, call, ?_, overlap_of_places filled taken rfl found holds before long⟩
      cases here : container.slots[index]? with
      | none => rfl
      | some old =>
        by_contra used
        have held : old ≠ .unused := by
          rintro rfl
          exact used rfl
        exact (SlotTable.acquired filled taken).fresh index old here held rfl
    · exact absurd grounded.limited (Nat.not_lt.mpr full)

/-- Whether appends to a file that was opened without a validation keep clear of what the slots
hold depends on one comparison, which the loader does not make. If the end of the file lies behind
every region, then after any sequence of allocations a region that is appended touches that of no
other slot. If it does not, then one allocation is enough for two regions to overlap. -/
theorem appending_of_opened {file after : File} {settings : ContainerSettings} {opened : Container}
    (quiet : settings.validateOnOpen = false)
    (accepted : openFile file settings = (.ok opened, after)) :
    (opened.Enclosed → ∀ later, Allocated opened later → ∀ index new,
        Allocates later (some index) new →
          later.slots[index]?.bind SlotState.region? = none → new.Separate index) ∧
      (file.size < 2 ^ 61 → ¬ opened.Enclosed → ∃ index new, Allocates opened (some index) new ∧
        opened.slots[index]?.bind SlotState.region? = none ∧ ¬ new.Separate index) := by
  have grounded : opened.Grounded ∧ (opened.file = file ∨ opened.Enclosed) := by
    rcases Decidable.em (file.size = 0) with empty | filled
    · obtain ⟨_, ⟨_, rfl⟩ | ⟨loaded, found⟩⟩ := openFile_ok accepted
      · exact ⟨grounded_of_unlisted rfl rfl rfl rfl, Or.inr nofun⟩
      · have short : file.size < Header.width := by
          rw [empty]
          decide
        rw [load, if_pos short] at found
        cases found
    · obtain ⟨grounded, held, _⟩ := load_ok (load_of_opened filled quiet accepted)
      exact ⟨grounded, Or.inl held⟩
  obtain ⟨grounded, held⟩ := grounded
  constructor
  · intro enclosed later run index new call fresh
    obtain ⟨still, filled⟩ :=
      enclosed.allocated (SlotTable.filled_of_sentinel grounded.sentinel) run
    exact still.separate filled (places_of_allocates call) fresh
  · intro bounded early
    rw [← held.resolve_right early] at bounded
    exact overlap_of_early_end grounded bounded early

theorem appending_of_late_end :
    openFile (fileOfTwo 0x298) {} = (.ok (openedOfTwo 0x298), fileOfTwo 0x298) ∧
      (openedOfTwo 0x298).Enclosed ∧ ((openedOfTwo 0x298).newEntry 32).1 = .ok 3 ∧
        ((openedOfTwo 0x298).newEntry 32).2.Separate 3 := by
  have accepted : openFile (fileOfTwo 0x298) {} = (.ok (openedOfTwo 0x298), fileOfTwo 0x298) :=
    openFile_fileOfTwo (by decide)
  have enclosed : (openedOfTwo 0x298).Enclosed := by decide +kernel
  have made : ((openedOfTwo 0x298).newEntry 32).1 = .ok 3 := by decide +kernel
  have call : Allocates (openedOfTwo 0x298) _ _ := .newEntry 32
  rw [made] at call
  exact ⟨accepted, enclosed, made,
    (appending_of_opened rfl accepted).1 enclosed _ .start 3 _ call (by decide +kernel)⟩

/-- A header can end the file at its own end, in front of the regions of two live slots. The file
is accepted, and the next entry gets the region of the first one. -/
theorem separate_of_early_end_fails :
    ¬ ∀ (file after : File) (settings : ContainerSettings) (opened : Container),
      settings.validateOnOpen = false → openFile file settings = (.ok opened, after) →
        ∀ later, Allocated opened later → ∀ index new, Allocates later (some index) new →
          later.slots[index]?.bind SlotState.region? = none → new.Separate index := by
  intro always
  have accepted : openFile (fileOfTwo 0x238) {} = (.ok (openedOfTwo 0x238), fileOfTwo 0x238) :=
    openFile_fileOfTwo (by decide)
  have made : ((openedOfTwo 0x238).newEntry 32).1 = .ok 3 := by decide +kernel
  have slots : ((openedOfTwo 0x238).newEntry 32).2.slots =
      [.unused, .live ⟨0x238, 5, 16⟩, .live ⟨0x258, 48, 48⟩, .live ⟨0x238, 0, 32⟩] := by
    decide +kernel
  have call : Allocates (openedOfTwo 0x238) _ _ := .newEntry 32
  rw [made] at call
  obtain ⟨region, live, apart⟩ :=
    always _ _ _ _ rfl accepted _ .start 3 _ call (by decide +kernel)
  rw [slots] at live apart
  cases live
  exact absurd (apart 1 _ _ (by decide) rfl rfl) (by simp [Span.Apart, Span.next, Region.span])

end Container

end SlotStore
