import Mathlib.Data.List.Induction
import SlotStore.Archive
import SlotStore.Proofs.Archive.Catalog
import SlotStore.Proofs.Container.Contents

/-!
Which header tables are loaded: those of a live slot with room for as many records as the anchor
counts, whose keys are all different. Every record gives one entry.
-/

namespace SlotStore

/-- A live slot has room for these records, and its bytes start with their stored forms. -/
structure HeaderRecords (container : Container) (slot : Nat) (rows : List HashRecord) : Prop where
  room : ∃ region, container.liveRegion slot = .ok region ∧
    rows.length * HashRecord.width ≤ region.size
  packed : ∃ table, container.read slot = .ok table ∧ rows.flatMap HashRecord.encode <+: table

variable {container : Container} {slot : Nat} {rows : List HashRecord}

namespace HeaderRecords

theorem unique {others : List HashRecord} (records : HeaderRecords container slot rows)
    (rest : HeaderRecords container slot others) (length : rows.length = others.length) :
    rows = others := by
  obtain ⟨table, read, packed⟩ := records.packed
  obtain ⟨same, reread, repacked⟩ := rest.packed
  cases Except.ok.inj (read.symm.trans reread)
  exact HashRecord.eq_of_packed packed repacked length

end HeaderRecords

namespace Archive

variable {anchor : RootRecord}

/-- A container with an anchor in its first slot and a table of 96 bytes in its second. -/
def tabled (anchor table : Bytes) : Container :=
  { Container.create {} with
    file := .ofBytes (Bytes.zeros 0x230 ++ Bytes.ofInt 16 ++ anchor ++
      (Bytes.ofInt 16 ++ Bytes.ofInt 96 ++ table ++ Bytes.ofInt 96))
    slots := [.unused, .live ⟨0x238, 16, 16⟩, .live ⟨0x258, 96, 96⟩]
    root := some 1
    endOfFile := 0x2c0 }

end Archive

end SlotStore
