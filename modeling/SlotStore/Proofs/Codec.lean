import SlotStore.Proofs.Record

/-!
Reading and writing are inverse. What a record is written as is read back, whatever follows it, and what
is read from bytes is written as those bytes. A header is the exception: what it reserves is written as
zeros, and only a legal one is read.
-/

namespace SlotStore

/-- Writing and reading of a record that takes as many bytes as this undo one another, and bytes that
are fewer are refused. -/
structure FixedWidth {Row : Type} (noun : RecordNoun) (width : Nat) (encode : Row → Bytes)
    (decode : Bytes → Except Fault Row) : Prop where
  length_encode : ∀ row, (encode row).length = width
  decode_encode : ∀ row tail, decode (encode row ++ tail) = .ok row
  encode_decode : ∀ bytes, width ≤ bytes.length →
    ∃ row, decode bytes = .ok row ∧ encode row = bytes.take width
  refused : ∀ bytes, bytes.length < width →
    decode bytes = .error (.malformed (.shortRecord noun width bytes.length))

/-- It is enough that written records are read and that all bytes which are long enough begin with
one. -/
theorem FixedWidth.of_split {Row : Type} {noun : RecordNoun} {width : Nat} {encode : Row → Bytes}
    {decode : Bytes → Except Fault Row} (length : ∀ row, (encode row).length = width)
    (read : ∀ row tail, decode (encode row ++ tail) = .ok row)
    (split : ∀ bytes, width ≤ bytes.length → ∃ row, bytes = encode row ++ bytes.drop width)
    (refused : ∀ bytes, bytes.length < width →
      decode bytes = .error (.malformed (.shortRecord noun width bytes.length))) :
    FixedWidth noun width encode decode where
  length_encode := length
  decode_encode := read
  encode_decode := by
    intro bytes enough
    obtain ⟨row, held⟩ := split bytes enough
    refine ⟨row, ?_, ?_⟩
    · rw [held]
      exact read row _
    · rw [held, List.take_left' (length row)]
  refused := refused

theorem requireLength_of_lt {noun : RecordNoun} {needed : Nat} {bytes : Bytes}
    (short : bytes.length < needed) : requireLength noun needed bytes =
      .error (.malformed (.shortRecord noun needed bytes.length)) := if_pos short

namespace SlotRecord

theorem exists_encode_append {bytes : Bytes} (enough : width ≤ bytes.length) :
    ∃ row : SlotRecord, bytes = row.encode ++ bytes.drop width := by
  simp only [width] at enough
  have fields : bytes.take 16 = bytes.take 8 ++ (bytes.drop 8).take 8 := by
    rw [← List.take_add]
  refine ⟨ofFields bytes, ?_⟩
  rw [encode, ofFields, Bytes.ofWord64_word64At (show 0 + 8 ≤ bytes.length by omega),
    Bytes.ofWord64_word64At (show 8 + 8 ≤ bytes.length by omega), List.drop_zero, ← fields]
  exact (List.take_append_drop 16 bytes).symm

theorem decode_encode (row : SlotRecord) (tail : Bytes) : decode (row.encode ++ tail) = .ok row := by
  unfold decode
  rw [requireLength_of_le (by simp), ofFields_encode]
  rfl

theorem fixedWidth : FixedWidth .slotRecord width encode decode := by
  refine .of_split length_encode decode_encode (fun _ => exists_encode_append) fun bytes short => ?_
  unfold decode
  rw [requireLength_of_lt short]
  rfl

/-- The rows of a table are read back as far as their bytes can be counted in a word. -/
theorem decodeTable_encodeAll (rows : List SlotRecord) (tail : Bytes) :
    decodeTable (rows.flatMap encode ++ tail) rows.length =
      if rows.length * width < 2 ^ 64 then .ok rows
      else .error (.overflow (.slotTable rows.length)) := by
  split
  · rename_i small
    exact decodeTable_encode small tail
  · rename_i large
    exact if_pos (Nat.le_of_not_lt large)

theorem decodeTable_of_lt {bytes : Bytes} {count : Nat} (short : bytes.length < count * width) :
    ∃ fault, decodeTable bytes count = .error fault := by
  unfold decodeTable
  split
  · exact ⟨_, rfl⟩
  · rw [requireLength_of_lt short]
    exact ⟨_, rfl⟩

end SlotRecord

namespace RootRecord

theorem exists_encode_append {bytes : Bytes} (enough : width ≤ bytes.length) :
    ∃ row : RootRecord, bytes = row.encode ++ bytes.drop width := by
  simp only [width] at enough
  have fields : bytes.take 16 = bytes.take 4 ++ (bytes.drop 4).take 4 ++ (bytes.drop 8).take 4 ++
      (bytes.drop 12).take 4 := by
    rw [← List.take_add, ← List.take_add, ← List.take_add]
  refine ⟨ofFields bytes, ?_⟩
  rw [encode, ofFields, Bytes.ofWord32_word32At (show 0 + 4 ≤ bytes.length by omega),
    Bytes.ofWord32_word32At (show 4 + 4 ≤ bytes.length by omega),
    Bytes.ofWord32_word32At (show 8 + 4 ≤ bytes.length by omega),
    Bytes.ofWord32_word32At (show 12 + 4 ≤ bytes.length by omega), List.drop_zero, ← fields]
  exact (List.take_append_drop 16 bytes).symm

theorem fixedWidth : FixedWidth .rootRecord width encode decode := by
  refine .of_split length_encode decode_encode (fun _ => exists_encode_append) fun bytes short => ?_
  unfold decode
  rw [requireLength_of_lt short]
  rfl

end RootRecord

namespace HashRecord

theorem fixedWidth : FixedWidth .hashRecord width encode decode := by
  refine .of_split length_encode decode_encode (fun _ => exists_encode_append) fun bytes short => ?_
  have few : ¬ 32 ≤ bytes.length := Nat.not_le.mpr short
  unfold decode
  rw [dif_neg few]

end HashRecord

namespace Header

/-- Whatever follows a header, it is read just where it is legal, and otherwise refused for the rule
that it breaks. -/
theorem decode_encode_eq_iff (header : Header) (tail : Bytes) :
    (decode (header.encode ++ tail) = .ok header ↔ header.check = .ok ()) ∧
      ∀ fault, decode (header.encode ++ tail) = .error fault ↔ header.check = .error fault := by
  rw [decode_encode]
  cases header.check with
  | error fault => simp [Except.map]
  | ok done => simp [Except.map]

end Header

/-- Reading and writing are inverse for every format. A header is read back behind its own bytes just
where it is legal and is otherwise refused with the fault that makes it illegal. A slot table of any
length is read back row by row, unless its bytes are too many to be counted in a word, and whatever
is shorter than its rows is refused. A row of the slot table, an anchor and a row of the header table
are read back from their sixteen, sixteen and thirty-two bytes, and written as the bytes they were
read from. -/
theorem inverse_of_formats :
    (∀ (header : Header) (tail : Bytes),
      (Header.decode (header.encode ++ tail) = .ok header ↔ header.check = .ok ()) ∧
        ∀ fault, Header.decode (header.encode ++ tail) = .error fault ↔
          header.check = .error fault) ∧
      (∀ (rows : List SlotRecord) (tail : Bytes),
        SlotRecord.decodeTable (rows.flatMap SlotRecord.encode ++ tail) rows.length =
          if rows.length * 16 < 2 ^ 64 then .ok rows
          else .error (.overflow (.slotTable rows.length))) ∧
      (∀ (bytes : Bytes) (count : Nat), bytes.length < 16 * count →
        ∃ fault, SlotRecord.decodeTable bytes count = .error fault) ∧
      FixedWidth .slotRecord 16 SlotRecord.encode SlotRecord.decode ∧
      FixedWidth .rootRecord 16 RootRecord.encode RootRecord.decode ∧
      FixedWidth .hashRecord 32 HashRecord.encode HashRecord.decode := by
  refine ⟨Header.decode_encode_eq_iff, SlotRecord.decodeTable_encodeAll, fun bytes count short => ?_,
    SlotRecord.fixedWidth, RootRecord.fixedWidth, HashRecord.fixedWidth⟩
  exact SlotRecord.decodeTable_of_lt (Nat.mul_comm 16 count ▸ short)

/-- Two rows of the largest words, a table one byte short, a header of the next version, and an anchor
read from what is none. -/
theorem inverse_of_largest_words :
    SlotRecord.decodeTable
        ([⟨0x238, 0xffffffffffffffff⟩, ⟨0xffffffffffffffff, 0⟩].flatMap SlotRecord.encode ++ [7]) 2 =
      .ok [⟨0x238, 0xffffffffffffffff⟩, ⟨0xffffffffffffffff, 0⟩] ∧
      (∃ fault, SlotRecord.decodeTable (Bytes.zeros 31) 2 = .error fault) ∧
      Header.decode ({ Header.fresh with version := 2 }.encode ++ [7]) =
        .error (.mismatch .version 1 2) ∧
      ∃ row, RootRecord.decode (List.replicate 20 255) = .ok row ∧
        row.encode = List.replicate 16 255 := by
  obtain ⟨headers, tables, short, _, roots, _⟩ := inverse_of_formats
  refine ⟨tables [⟨0x238, 0xffffffffffffffff⟩, ⟨0xffffffffffffffff, 0⟩] [7],
    short (Bytes.zeros 31) 2 (by decide), ((headers _ _).2 _).mpr rfl, ?_⟩
  exact roots.encode_decode (List.replicate 20 255) (by decide)

end SlotStore
