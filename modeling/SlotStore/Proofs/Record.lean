import SlotStore.Header
import SlotStore.Proofs.File
import SlotStore.Record

/-!
Records are read back as they were written, whatever follows them.
-/

namespace SlotStore

namespace Bytes

theorem natAt_append_of_le {front : Bytes} {pos : Nat} (beyond : front.length ≤ pos) (rest : Bytes)
    (width : Nat) : (front ++ rest).natAt pos width = rest.natAt (pos - front.length) width := by
  rw [natAt, natAt, List.drop_append, List.drop_eq_nil_of_le beyond, List.nil_append]

theorem natAt_ofNat (width value : Nat) (rest : Bytes) :
    (ofNat width value ++ rest).natAt 0 width = value % 256 ^ width := by
  rw [natAt, List.drop_zero, List.take_append_of_le_length (by simp),
    List.take_of_length_le (by simp), toNat_ofNat]

theorem word32At_append_of_le {front : Bytes} {pos : Nat} (beyond : front.length ≤ pos)
    (rest : Bytes) : (front ++ rest).word32At pos = rest.word32At (pos - front.length) := by
  rw [word32At, word32At, natAt_append_of_le beyond]

theorem word64At_append_of_le {front : Bytes} {pos : Nat} (beyond : front.length ≤ pos)
    (rest : Bytes) : (front ++ rest).word64At pos = rest.word64At (pos - front.length) := by
  rw [word64At, word64At, natAt_append_of_le beyond]

@[simp] theorem word32At_ofWord32 (word : UInt32) (rest : Bytes) :
    (ofWord32 word ++ rest).word32At 0 = word := by
  have bound : word.toNat < 256 ^ 4 := word.toNat_lt
  rw [word32At, ofWord32, natAt_ofNat, Nat.mod_eq_of_lt bound, UInt32.ofNat_toNat]

@[simp] theorem word64At_ofWord64 (word : UInt64) (rest : Bytes) :
    (ofWord64 word ++ rest).word64At 0 = word := by
  have bound : word.toNat < 256 ^ 8 := word.toNat_lt
  rw [word64At, ofWord64, natAt_ofNat, Nat.mod_eq_of_lt bound, UInt64.ofNat_toNat]

end Bytes

theorem toNat_word32 {value : Nat} (small : value < 2 ^ 32) : (UInt32.ofNat value).toNat = value :=
  UInt32.toNat_ofNat_of_lt small

theorem toNat_word64 {value : Nat} (small : value < 2 ^ 64) : (UInt64.ofNat value).toNat = value :=
  UInt64.toNat_ofNat_of_lt small

namespace Bytes

theorem natAt_lt (bytes : Bytes) (pos width : Nat) : bytes.natAt pos width < 256 ^ width :=
  Nat.lt_of_lt_of_le (toNat_lt _) (Nat.pow_le_pow_right (by decide) (List.length_take_le ..))

theorem ofNat_natAt {bytes : Bytes} {pos width : Nat} (held : pos + width ≤ bytes.length) :
    ofNat width (bytes.natAt pos width) = (bytes.drop pos).take width := by
  have length : ((bytes.drop pos).take width).length = width := by
    rw [List.length_take, List.length_drop]
    omega
  have digits := ofNat_toNat ((bytes.drop pos).take width)
  rwa [length] at digits

theorem ofWord32_word32At {bytes : Bytes} {pos : Nat} (held : pos + 4 ≤ bytes.length) :
    ofWord32 (bytes.word32At pos) = (bytes.drop pos).take 4 := by
  rw [ofWord32, word32At, toNat_word32 (bytes.natAt_lt pos 4), ofNat_natAt held]

theorem ofWord64_word64At {bytes : Bytes} {pos : Nat} (held : pos + 8 ≤ bytes.length) :
    ofWord64 (bytes.word64At pos) = (bytes.drop pos).take 8 := by
  rw [ofWord64, word64At, toNat_word64 (bytes.natAt_lt pos 8), ofNat_natAt held]

end Bytes

theorem length_packed {Row : Type} {encode : Row → Bytes} {width : Nat}
    (fixed : ∀ row, (encode row).length = width) (rows : List Row) :
    (rows.flatMap encode).length = rows.length * width := by
  induction rows with
  | nil => simp
  | cons row rest ih =>
    rw [List.flatMap_cons, List.length_append, fixed, ih, List.length_cons, Nat.succ_mul,
      Nat.add_comm]

theorem requireLength_of_le {noun : RecordNoun} {needed : Nat} {bytes : Bytes}
    (enough : needed ≤ bytes.length) : requireLength noun needed bytes = .ok () := by
  unfold requireLength
  rw [if_neg (by omega)]

namespace Header

@[simp] theorem length_encode (header : Header) : header.encode.length = width := by
  simp [encode, width]

theorem ofFields_encode (header : Header) (rest : Bytes) :
    ofFields (header.encode ++ rest) = header := by
  simp [ofFields, encode, List.append_assoc, Bytes.word32At_append_of_le,
    Bytes.word64At_append_of_le]

/-- A header is read back as it was written if it is legal, and refused as illegal otherwise. -/
theorem decode_encode (header : Header) (rest : Bytes) :
    decode (header.encode ++ rest) = header.check.map fun _ => header := by
  unfold decode
  rw [if_neg (by simp), ofFields_encode]

end Header

namespace SlotRecord

@[simp] theorem length_encode (row : SlotRecord) : row.encode.length = width := by
  simp [encode, width]

@[simp] theorem length_encodeAll (rows : List SlotRecord) :
    (rows.flatMap encode).length = rows.length * width := length_packed length_encode rows

theorem take_encodeAll {rows : List SlotRecord} {count : Nat} (inside : count ≤ rows.length) :
    (rows.flatMap encode).take (count * width) = (rows.take count).flatMap encode := by
  have split : rows.flatMap encode =
      (rows.take count).flatMap encode ++ (rows.drop count).flatMap encode := by
    rw [← List.flatMap_append, List.take_append_drop]
  rw [split]
  refine List.take_left' ?_
  rw [length_encodeAll, List.length_take, Nat.min_eq_left inside]

theorem ofFields_encode (row : SlotRecord) (rest : Bytes) :
    ofFields (row.encode ++ rest) = row := by
  simp [ofFields, encode, List.append_assoc, Bytes.word64At_append_of_le]

theorem rows_encode (table : List SlotRecord) (rest : Bytes) :
    rows table.length (table.flatMap encode ++ rest) = table := by
  induction table with
  | nil => rfl
  | cons row others ih =>
    simp only [List.flatMap_cons, List.length_cons, rows, List.append_assoc, ofFields_encode]
    rw [List.drop_append_of_le_length (by simp), List.drop_eq_nil_of_le (by simp), List.nil_append,
      ih]

theorem decodeTable_encode {table : List SlotRecord} (small : table.length * width < 2 ^ 64)
    (rest : Bytes) : decodeTable (table.flatMap encode ++ rest) table.length = .ok table := by
  unfold decodeTable
  have enough : table.length * width ≤ (table.flatMap encode ++ rest).length := by
    rw [List.length_append, length_encodeAll]
    exact Nat.le_add_right _ _
  rw [if_neg (by omega), requireLength_of_le enough, rows_encode]
  rfl

end SlotRecord

namespace RootRecord

@[simp] theorem length_encode (row : RootRecord) : row.encode.length = width := by
  simp [encode, width]

theorem decode_encode (row : RootRecord) (rest : Bytes) : decode (row.encode ++ rest) = .ok row := by
  have fields : ofFields (row.encode ++ rest) = row := by
    simp [ofFields, encode, List.append_assoc, Bytes.word32At_append_of_le]
  unfold decode
  rw [requireLength_of_le (by simp), fields]
  rfl

theorem expect_ofArchive (entryCount headerTable : Nat) :
    (ofArchive entryCount headerTable).expect archiveSignature archiveVersion = .ok () := by
  simp [expect, ofArchive]

end RootRecord

namespace HashRecord

@[simp] theorem length_encode (row : HashRecord) : row.encode.length = width := by
  simp [encode, width, row.key.length_eq]

theorem decode_encode (row : HashRecord) (rest : Bytes) : decode (row.encode ++ rest) = .ok row := by
  unfold decode
  rw [dif_pos (by simp [width])]
  obtain ⟨slot, key, size⟩ := row
  congr 2
  · simp [encode, List.append_assoc]
  · apply ContentKey.ext
    simp [encode, ContentKey.ofTake, List.append_assoc, key.length_eq]
  · simp [encode, List.append_assoc, Bytes.word64At_append_of_le, key.length_eq]

@[simp] theorem length_encodeAll (rows : List HashRecord) :
    (rows.flatMap encode).length = rows.length * width := length_packed length_encode rows

/-- Bytes that are long enough start with the stored form of a record, whatever they are. -/
theorem exists_encode_append {bytes : Bytes} (enough : width ≤ bytes.length) :
    ∃ row : HashRecord, bytes = row.encode ++ bytes.drop width := by
  have held : 32 ≤ bytes.length := enough
  refine ⟨⟨bytes.word32At 0, .ofTake (bytes.drop 4) (by simp; omega), bytes.word64At 24⟩, ?_⟩
  have fields : bytes.take 32 =
      bytes.take 4 ++ (bytes.drop 4).take 20 ++ (bytes.drop 24).take 8 := by
    rw [← List.take_add, ← List.take_add]
  simp only [encode, ContentKey.ofTake, Bytes.ofWord32_word32At (show 0 + 4 ≤ bytes.length by omega),
    Bytes.ofWord64_word64At (show 24 + 8 ≤ bytes.length by omega), List.drop_zero, ← fields]
  exact (List.take_append_drop 32 bytes).symm

theorem eq_of_packed {bytes : Bytes} {rows others : List HashRecord}
    (packed : rows.flatMap encode <+: bytes) (repacked : others.flatMap encode <+: bytes)
    (length : rows.length = others.length) : rows = others := by
  induction rows generalizing bytes others with
  | nil => exact (List.eq_nil_of_length_eq_zero length.symm).symm
  | cons row rest ih =>
    cases others with
    | nil => cases length
    | cons other others =>
      rw [List.flatMap_cons] at packed repacked
      obtain ⟨behind, rfl⟩ := packed
      obtain ⟨beyond, same⟩ := repacked
      rw [List.append_assoc, List.append_assoc] at same
      obtain ⟨heads, tails⟩ := List.append_inj same (by rw [length_encode, length_encode])
      have first := (decode_encode other []).symm.trans (heads ▸ decode_encode row [])
      rw [Except.ok.inj first, ih ⟨behind, rfl⟩ ⟨beyond, tails⟩ (Nat.succ.inj length)]

end HashRecord

end SlotStore
