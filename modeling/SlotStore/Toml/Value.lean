import SlotStore.Binary

/-!
Values of a TOML document. A table remembers how it came about, because that decides what may
still be added to it while the document is read.
-/

namespace SlotStore.Toml

inductive TableOrigin where
  /-- Written between braces; nothing may be added. -/
  | inline
  /-- Named by a header, or the document itself. -/
  | header
  /-- On the way of a header's path; a later header may still name it. -/
  | implied
  /-- On the way of a dotted key; only dotted keys may add to it. -/
  | dotted
deriving DecidableEq, Repr

/-- A value of a document. Dates and times of day are all alike. -/
inductive Value where
  | text (content : String)
  | integer (number : Int)
  | float (number : Binary)
  | flag (holds : Bool)
  | moment
  /-- Items between brackets, or the tables of repeated headers, which further headers add to. -/
  | array (repeated : Bool) (items : List Value)
  | table (origin : TableOrigin) (entries : List (String × Value))
deriving Repr

/-- The rest of a text after something was read from its front. -/
abbrev Reader (α : Type) := List Char → Option (α × List Char)

end SlotStore.Toml
