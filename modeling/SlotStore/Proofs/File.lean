import Mathlib.Algebra.Ring.Int.Defs
import Mathlib.Algebra.Ring.Nat
import SlotStore.File

/-!
What reads of a file see after writes: the bytes laid down where they were laid down, and the old
bytes everywhere else.
-/

namespace SlotStore

namespace Bytes

@[simp] theorem length_ofInt (value : Int) : (ofInt value).length = 8 := length_ofNat 8 _

@[simp] theorem length_ofWord32 (word : UInt32) : (ofWord32 word).length = 4 := length_ofNat 4 _

@[simp] theorem length_ofWord64 (word : UInt64) : (ofWord64 word).length = 8 := length_ofNat 8 _

@[simp] theorem length_zeros (count : Nat) : (zeros count).length = count := List.length_replicate

theorem toNat_ofNat (width value : Nat) : toNat (ofNat width value) = value % 256 ^ width := by
  induction width generalizing value with
  | zero => simp [ofNat, toNat, Nat.mod_one]
  | succ width ih =>
    have low : (UInt8.ofNat value).toNat = value % 256 := rfl
    rw [ofNat, toNat, ih, low, Nat.pow_succ', Nat.mod_mul]

theorem toNat_lt (bytes : Bytes) : toNat bytes < 256 ^ bytes.length := by
  induction bytes with
  | nil => simp [toNat]
  | cons byte rest ih =>
    have low : byte.toNat < 256 := byte.toNat_lt
    simp only [toNat, List.length_cons, Nat.pow_succ]
    omega

theorem toInt_ofInt (value : Int) (low : -2 ^ 63 ≤ value) (high : value < 2 ^ 63) :
    toInt (ofInt value) = value := by
  have word : toNat (ofInt value) = (value % 2 ^ 64).toNat % 256 ^ 8 := toNat_ofNat 8 _
  unfold toInt
  simp only [word]
  split <;> omega

theorem ofInt_toInt {bytes : Bytes} (length : bytes.length = 8) : ofInt (toInt bytes) = bytes := by
  have bound := toNat_lt bytes
  rw [length] at bound
  have word : (toInt bytes % 0x10000000000000000).toNat = toNat bytes := by
    unfold toInt
    simp only
    split <;> omega
  rw [ofInt, word, ← length, ofNat_toNat]

end Bytes

namespace File

theorem eq_of_toList_eq {left right : File} (same : left.toList = right.toList) : left = right := by
  cases left
  cases right
  exact congrArg File.mk (ByteArray.ext (Array.toList_inj.mp same))

theorem getElem?_slice (file : File) (pos count index : Nat) :
    (file.slice pos count)[index]? = if index < count then file.toList[pos + index]? else none := by
  rw [toList_slice, List.getElem?_take]
  simp only [List.getElem?_drop]

@[simp] theorem length_slice (file : File) (pos count : Nat) :
    (file.slice pos count).length = min count (file.size - pos) := by
  rw [toList_slice, List.length_take, List.length_drop, length_toList]

theorem take_slice (file : File) (pos : Nat) {part count : Nat} (short : part ≤ count) :
    (file.slice pos count).take part = file.slice pos part := by
  rw [toList_slice, toList_slice, List.take_take, Nat.min_eq_left short]

@[simp] theorem write_nil (file : File) (pos : Nat) : file.write pos [] = file := rfl

/-- A byte after a write: a new one where the write lies, a zero in the gap before it, else the
old one. -/
theorem getElem?_toList_write (file : File) (start : Nat) (data : Bytes) (index : Nat)
    (filled : data ≠ []) :
    (file.write start data).toList[index]? =
      if index < start then (if index < file.size then file.toList[index]? else some 0)
      else if index < start + data.length then data[index - start]?
      else file.toList[index]? := by
  have front : (file.toList.take start ++ List.replicate (start - file.size) 0).length = start := by
    rw [List.length_append, List.length_take, List.length_replicate, length_toList]
    omega
  rw [toList_write, if_neg filled]
  split
  · rename_i before
    rw [List.append_assoc, List.getElem?_append_left (by rw [front]; exact before)]
    split
    · rename_i held
      rw [List.getElem?_append_left (by simp only [List.length_take, length_toList]; omega),
        List.getElem?_take, if_pos before]
    · rename_i gap
      rw [List.getElem?_append_right (by simp only [List.length_take, length_toList]; omega),
        List.getElem?_replicate, if_pos]
      simp only [List.length_take, length_toList]
      omega
  · split
    · rename_i after within
      rw [List.getElem?_append_left (by rw [List.length_append, front]; omega),
        List.getElem?_append_right (by rw [front]; omega), front]
    · rename_i after behind
      rw [List.getElem?_append_right (by rw [List.length_append, front]; omega),
        List.length_append, front, List.getElem?_drop]
      congr 1
      omega

theorem slice_write_of_disjoint (file : File) (start : Nat) (data : Bytes) (pos count : Nat)
    (apart : pos + count ≤ start ∧ pos + count ≤ file.size ∨ start + data.length ≤ pos) :
    (file.write start data).slice pos count = file.slice pos count := by
  by_cases empty : data = []
  · rw [empty, write_nil]
  · apply List.ext_getElem?
    intro index
    rw [getElem?_slice, getElem?_slice, getElem?_toList_write file start data _ empty]
    by_cases inside : index < count
    · simp only [if_pos inside]
      rcases apart with before | behind
      · rw [if_pos (by omega), if_pos (by omega)]
      · rw [if_neg (by omega), if_neg (by omega)]
    · simp only [if_neg inside]

theorem slice_write_inside (file : File) (start : Nat) (data : Bytes) (pos count : Nat)
    (low : start ≤ pos) (high : pos + count ≤ start + data.length) :
    (file.write start data).slice pos count = (data.drop (pos - start)).take count := by
  by_cases empty : data = []
  · have none : count = 0 := by
      rw [empty] at high
      simp only [List.length_nil] at high
      omega
    subst none
    simp [toList_slice]
  · apply List.ext_getElem?
    intro index
    rw [getElem?_slice, getElem?_toList_write file start data _ empty, List.getElem?_take,
      List.getElem?_drop]
    split
    · rw [if_neg (by omega), if_pos (by omega)]
      congr 1
      omega
    · rfl

theorem slice_write_self (file : File) (start : Nat) (data : Bytes) :
    (file.write start data).slice start data.length = data := by
  rw [slice_write_inside file start data start data.length (Nat.le_refl _) (Nat.le_refl _)]
  simp

theorem slice_write_over (file : File) (base size pos : Nat) (data : Bytes)
    (inside : pos ≤ size) (held : base + size ≤ file.size) :
    (file.write (base + pos) data).slice base (max size (pos + data.length)) =
      (file.slice base size).take pos ++ data ++
        (file.slice base size).drop (pos + data.length) := by
  by_cases empty : data = []
  · subst empty
    simp [Nat.max_eq_left inside]
  · have whole : (file.slice base size).length = size := by
      rw [length_slice]
      omega
    apply List.ext_getElem?
    intro index
    rw [getElem?_slice, getElem?_toList_write file _ data _ empty, List.append_assoc,
      List.getElem?_append, List.getElem?_append]
    simp only [List.length_take, whole, List.getElem?_take, List.getElem?_drop, getElem?_slice]
    grind

theorem size_le_write (file : File) (start : Nat) (data : Bytes) :
    file.size ≤ (file.write start data).size := by
  rw [size_write]
  split
  · exact Nat.le_refl _
  · exact Nat.le_max_left _ _

theorem end_le_write (file : File) (start : Nat) (data : Bytes) (filled : data ≠ []) :
    start + data.length ≤ (file.write start data).size := by
  rw [size_write, if_neg filled]
  exact Nat.le_max_right _ _

theorem write_slice (file : File) {pos count : Nat} (held : pos + count ≤ file.size) :
    file.write pos (file.slice pos count) = file := by
  apply eq_of_toList_eq
  have within : pos - file.size = 0 := by omega
  have length : (file.slice pos count).length = count := by
    rw [length_slice]
    omega
  rw [toList_write, length]
  split
  · rfl
  · rw [within, toList_slice, List.replicate_zero, List.append_nil, List.append_assoc,
      ← List.drop_drop, List.take_append_drop, List.take_append_drop]

theorem writeInt_of_intAt {file : File} {pos : Nat} {value : Int} (held : pos + 8 ≤ file.size)
    (there : file.intAt pos = value) : file.writeInt pos value = file := by
  have length : (file.slice pos 8).length = 8 := by
    rw [length_slice]
    omega
  rw [writeInt, ← there, intAt, Bytes.ofInt_toInt length, write_slice file held]

theorem ext_getElem? {left right : File}
    (same : ∀ index : Nat, left.toList[index]? = right.toList[index]?) : left = right :=
  eq_of_toList_eq (List.ext_getElem? same)

theorem write_write_append (file : File) (pos : Nat) (first second : Bytes) :
    (file.write pos first).write (pos + first.length) second = file.write pos (first ++ second) := by
  by_cases none : first = []
  · subst none
    rfl
  by_cases empty : second = []
  · rw [empty, write_nil, List.append_nil]
  have filled : first ++ second ≠ [] := by simp [none]
  refine ext_getElem? fun index => ?_
  have reached := end_le_write file pos first none
  rw [getElem?_toList_write _ _ _ _ empty, getElem?_toList_write _ _ _ _ filled,
    getElem?_toList_write _ _ _ _ none, List.length_append, List.getElem?_append]
  grind

/-- Writes of which one ends before the other begins can change places. -/
theorem write_comm (file : File) {left right : Nat} {first second : Bytes}
    (apart : left + first.length ≤ right ∨ right + second.length ≤ left) :
    (file.write left first).write right second = (file.write right second).write left first := by
  by_cases none : first = []
  · rw [none, write_nil, write_nil]
  by_cases empty : second = []
  · rw [empty, write_nil, write_nil]
  refine ext_getElem? fun index => ?_
  simp only [getElem?_toList_write _ _ _ _ empty, getElem?_toList_write _ _ _ _ none, size_write,
    if_neg none, if_neg empty]
  grind

@[simp] theorem writeAll_cons (file : File) (step : Nat × Bytes) (rest : List (Nat × Bytes)) :
    file.writeAll (step :: rest) = (file.write step.1 step.2).writeAll rest := rfl

theorem writeAll_append (file : File) (first second : List (Nat × Bytes)) :
    file.writeAll (first ++ second) = (file.writeAll first).writeAll second := List.foldl_append

theorem size_le_writeAll (file : File) (writes : List (Nat × Bytes)) :
    file.size ≤ (file.writeAll writes).size := by
  induction writes generalizing file with
  | nil => exact Nat.le_refl _
  | cons step rest ih => exact Nat.le_trans (size_le_write file step.1 step.2) (ih _)

theorem writeAll_write_comm (file : File) {pos : Nat} {data : Bytes} {writes : List (Nat × Bytes)}
    (apart : ∀ step ∈ writes, pos + data.length ≤ step.1 ∨ step.1 + step.2.length ≤ pos) :
    (file.write pos data).writeAll writes = (file.writeAll writes).write pos data := by
  induction writes generalizing file with
  | nil => rfl
  | cons step rest ih =>
    rw [writeAll_cons, writeAll_cons, write_comm file (apart step (by simp)),
      ih _ fun step member => apart step (by simp [member])]

theorem slice_writeAll_of_disjoint (file : File) (writes : List (Nat × Bytes)) (pos count : Nat)
    (held : pos + count ≤ file.size)
    (apart : ∀ step ∈ writes, step.1 + step.2.length ≤ pos ∨ pos + count ≤ step.1) :
    (file.writeAll writes).slice pos count = file.slice pos count := by
  induction writes generalizing file with
  | nil => rfl
  | cons step rest ih =>
    have first := apart step (by simp)
    have later : ∀ step ∈ rest, step.1 + step.2.length ≤ pos ∨ pos + count ≤ step.1 :=
      fun step member => apart step (by simp [member])
    rw [writeAll_cons, ih _ (Nat.le_trans held (size_le_write file _ _)) later]
    apply slice_write_of_disjoint
    omega

/-- A stretch that some write of a list fills, and that every other write fills in the same way or
does not reach, holds what it is filled with. -/
theorem slice_writeAll_of_mem (file : File) (writes : List (Nat × Bytes)) (pos : Nat) (data : Bytes)
    (held : pos + data.length ≤ file.size) (member : (pos, data) ∈ writes)
    (apart : ∀ step ∈ writes, step = (pos, data) ∨
      step.1 + step.2.length ≤ pos ∨ pos + data.length ≤ step.1) :
    (file.writeAll writes).slice pos data.length = data := by
  induction writes generalizing file with
  | nil => cases member
  | cons step rest ih =>
    have grown : pos + data.length ≤ (file.write step.1 step.2).size :=
      Nat.le_trans held (size_le_write file _ _)
    have later : ∀ step ∈ rest, step = (pos, data) ∨
        step.1 + step.2.length ≤ pos ∨ pos + data.length ≤ step.1 :=
      fun step member => apart step (by simp [member])
    rw [writeAll_cons]
    by_cases again : (pos, data) ∈ rest
    · exact ih _ grown again later
    · have now : step = (pos, data) := by
        rcases List.mem_cons.mp member with same | inRest
        · exact same.symm
        · exact absurd inRest again
      subst now
      rw [slice_writeAll_of_disjoint _ rest pos data.length grown, slice_write_self]
      intro step inRest
      rcases later step inRest with same | apart
      · exact absurd (same ▸ inRest) again
      · exact apart

/-- The second file is the first one, perhaps longer, with other bytes between two positions. -/
structure AgreesOutside (start stop : Nat) (old new : File) : Prop where
  size_le : old.size ≤ new.size
  same : ∀ pos count, pos + count ≤ old.size → pos + count ≤ start ∨ stop ≤ pos →
    new.slice pos count = old.slice pos count

namespace AgreesOutside

theorem refl (start stop : Nat) (file : File) : AgreesOutside start stop file file :=
  ⟨Nat.le_refl _, fun _ _ _ _ => rfl⟩

theorem trans {start stop : Nat} {first second third : File}
    (left : AgreesOutside start stop first second) (right : AgreesOutside start stop second third) :
    AgreesOutside start stop first third := by
  refine ⟨Nat.le_trans left.size_le right.size_le, ?_⟩
  intro pos count held outside
  exact (right.same pos count (Nat.le_trans held left.size_le) outside).trans
    (left.same pos count held outside)

theorem write (file : File) {start stop pos : Nat} {data : Bytes} (low : start ≤ pos)
    (high : pos + data.length ≤ stop) : AgreesOutside start stop file (file.write pos data) := by
  refine ⟨size_le_write file pos data, ?_⟩
  intro other count held outside
  apply slice_write_of_disjoint
  omega

theorem writeAll (file : File) {start stop : Nat} {writes : List (Nat × Bytes)}
    (inside : ∀ step ∈ writes, step.2 ≠ [] → start ≤ step.1 ∧ step.1 + step.2.length ≤ stop) :
    AgreesOutside start stop file (file.writeAll writes) := by
  induction writes generalizing file with
  | nil => exact refl start stop file
  | cons step rest ih =>
    obtain ⟨first, others⟩ := List.forall_mem_cons.mp inside
    rw [writeAll_cons]
    refine trans ?_ (ih _ others)
    by_cases empty : step.2 = []
    · rw [empty, write_nil]
      exact refl start stop file
    · exact write file (first empty).1 (first empty).2

theorem intAt {start stop : Nat} {old new : File} (agree : AgreesOutside start stop old new)
    {pos : Nat} (held : pos + 8 ≤ old.size) (outside : pos + 8 ≤ start ∨ stop ≤ pos) :
    new.intAt pos = old.intAt pos :=
  congrArg Bytes.toInt (agree.same pos 8 held outside)

end AgreesOutside

/-- The second file is the first one with other bytes from a limit on, if at all. -/
structure AgreesBelow (limit : Nat) (old new : File) : Prop where
  size_le : old.size ≤ new.size
  same : ∀ pos count, pos + count ≤ limit → new.slice pos count = old.slice pos count

namespace AgreesBelow

theorem refl (limit : Nat) (file : File) : AgreesBelow limit file file :=
  ⟨Nat.le_refl _, fun _ _ _ => rfl⟩

theorem trans {limit : Nat} {first second third : File}
    (left : AgreesBelow limit first second) (right : AgreesBelow limit second third) :
    AgreesBelow limit first third :=
  ⟨Nat.le_trans left.size_le right.size_le,
    fun pos count below => (right.same pos count below).trans (left.same pos count below)⟩

theorem write (file : File) {limit start : Nat} (data : Bytes)
    (held : limit ≤ file.size) (beyond : limit ≤ start) :
    AgreesBelow limit file (file.write start data) := by
  refine ⟨size_le_write file start data, ?_⟩
  intro pos count below
  apply slice_write_of_disjoint
  omega

theorem intAt {limit : Nat} {old new : File} (agree : AgreesBelow limit old new)
    {pos : Nat} (below : pos + 8 ≤ limit) : new.intAt pos = old.intAt pos :=
  congrArg Bytes.toInt (agree.same pos 8 below)

end AgreesBelow

theorem intAt_of_slice {file : File} {pos : Nat} {value : Int}
    (laid : file.slice pos 8 = Bytes.ofInt value) (low : -2 ^ 63 ≤ value) (high : value < 2 ^ 63) :
    file.intAt pos = value := by
  rw [intAt, laid, Bytes.toInt_ofInt value low high]

end File

end SlotStore
