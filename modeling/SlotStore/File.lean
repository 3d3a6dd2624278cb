import SlotStore.Fault

/-!
A file is a byte string. Writing past its end fills the gap with zeros, a write of nothing leaves
the file alone, and a read that reaches past the end fails. The lemmas state each operation
through `toList`.
-/

namespace SlotStore

structure File where
  content : ByteArray

namespace File

instance : DecidableEq File := fun left right =>
  if same : left.content.data = right.content.data then
    isTrue (congrArg (fun data => File.mk ⟨data⟩) same)
  else isFalse fun equal => same (congrArg (fun file => file.content.data) equal)

def empty : File := ⟨ByteArray.empty⟩

def ofBytes (bytes : Bytes) : File := ⟨⟨bytes.toArray⟩⟩

def toList (file : File) : Bytes := file.content.data.toList

def size (file : File) : Nat := file.content.size

/-- At most `count` bytes from a position on, fewer at the end of the file. -/
def slice (file : File) (pos count : Nat) : Bytes :=
  (file.content.extract pos (pos + count)).data.toList

/-- All of `count` bytes from a position on. -/
def read (file : File) (pos count : Nat) : Except FileFailure Bytes :=
  if count = 0 ∨ pos + count ≤ file.size then .ok (file.slice pos count)
  else .error .unexpectedEnd

/-- The signed word at a position; bytes past the end count as zero. -/
def intAt (file : File) (pos : Nat) : Int := Bytes.toInt (file.slice pos 8)

/-- The file cut or filled with zeros to a length. -/
def resize (file : File) (length : Nat) : File :=
  if length ≤ file.size then ⟨file.content.extract 0 length⟩
  else ⟨file.content ++ ⟨Array.replicate (length - file.size) 0⟩⟩

/-- The file with `data` laid over it from a position on. -/
def write (file : File) (pos : Nat) (data : Bytes) : File :=
  if data.isEmpty then file
  else
    let base := if file.size < pos then (file.resize pos).content else file.content
    ⟨ByteArray.copySlice ⟨data.toArray⟩ 0 base pos data.length⟩

/-- The file with a signed word laid over it. -/
def writeInt (file : File) (pos : Nat) (value : Int) : File := file.write pos (Bytes.ofInt value)

/-- Positioned writes, carried out in order. -/
def writeAll (file : File) (writes : List (Nat × Bytes)) : File :=
  writes.foldl (fun current step => current.write step.1 step.2) file

@[simp] theorem toList_ofBytes (bytes : Bytes) : (ofBytes bytes).toList = bytes := rfl

@[simp] theorem length_toList (file : File) : file.toList.length = file.size := rfl

theorem toList_slice (file : File) (pos count : Nat) :
    file.slice pos count = (file.toList.drop pos).take count := by
  simp only [slice, toList, ByteArray.data_extract, Array.toList_extract, List.extract_eq_take_drop]
  congr 1
  omega

theorem toList_resize (file : File) (length : Nat) :
    (file.resize length).toList =
      file.toList.take length ++ List.replicate (length - file.size) 0 := by
  unfold resize
  split
  · rename_i within
    have none : length - file.size = 0 := by omega
    simp [toList, none, ByteArray.data_extract]
  · rename_i beyond
    have all : file.toList.take length = file.toList :=
      List.take_of_length_le (by simp only [length_toList]; omega)
    rw [all]
    simp [toList, ByteArray.data_append]

/-- A write keeps what lies before and behind it and fills the gap before it with zeros. -/
theorem toList_write (file : File) (pos : Nat) (data : Bytes) :
    (file.write pos data).toList =
      if data = [] then file.toList
      else file.toList.take pos ++ List.replicate (pos - file.size) 0 ++ data ++
        file.toList.drop (pos + data.length) := by
  unfold write
  cases data with
  | nil => simp
  | cons byte rest =>
    have held : ∀ base : ByteArray, (ByteArray.copySlice ⟨(byte :: rest).toArray⟩ 0 base pos
        (byte :: rest).length).data.toList =
        base.data.toList.take pos ++ (byte :: rest) ++
          base.data.toList.drop (pos + (byte :: rest).length) := by
      intro base
      have whole : min (byte :: rest).length (byte :: rest).toArray.size =
          (byte :: rest).length := Nat.min_self _
      have behind : (base.data.toList.drop (pos + (byte :: rest).length)).length ≤
          base.data.size - (pos + (byte :: rest).length) :=
        Nat.le_of_eq (by rw [List.length_drop, Array.length_toList])
      simp only [ByteArray.copySlice, Array.toList_append, Array.toList_extract,
        List.extract_eq_take_drop, List.drop_zero, Nat.zero_add, Nat.sub_zero, List.take_length,
        whole, List.take_of_length_le behind]
    simp only [List.isEmpty_cons, Bool.false_eq_true, if_false, reduceCtorEq]
    split
    · rename_i short
      have base := toList_resize file pos
      have behind : file.toList.drop (pos + (byte :: rest).length) = [] :=
        List.drop_eq_nil_of_le (by simp only [length_toList]; omega)
      have full : (file.resize pos).toList.length = pos := by
        rw [base, List.length_append, List.length_take, List.length_replicate, length_toList]
        omega
      have beyond : (file.resize pos).toList.drop (pos + (byte :: rest).length) = [] :=
        List.drop_eq_nil_of_le (by rw [full]; omega)
      have all : (file.resize pos).toList.take pos = (file.resize pos).toList :=
        List.take_of_length_le (Nat.le_of_eq full)
      have written := held (file.resize pos).content
      simp only [toList] at all beyond behind base written ⊢
      rw [written, all, beyond, behind, base]
    · rename_i within
      have none : pos - file.size = 0 := by omega
      simp only [toList, held, none, List.replicate_zero, List.append_nil]

theorem size_write (file : File) (pos : Nat) (data : Bytes) :
    (file.write pos data).size =
      if data = [] then file.size else max file.size (pos + data.length) := by
  rw [← length_toList, toList_write]
  split
  · rfl
  · simp only [List.length_append, List.length_take, List.length_replicate, List.length_drop,
      length_toList]
    omega

end File

end SlotStore
