import SlotStore.Toml.Value

/-!
Building tables. A path leads through tables, and through the last table of a repeated header;
what is missing on the way is made. Dotted keys may not reach into a table that a header names,
headers may not name a table twice, and nothing is added to a value.
-/

namespace SlotStore.Toml

structure Table where
  origin : TableOrigin
  entries : List (String × Value)

namespace Table

def toValue (table : Table) : Value := .table table.origin table.entries

def lookup? (table : Table) (key : String) : Option Value := table.entries.lookup key

/-- The table with a value under a key, in the place of what was there. -/
def set (table : Table) (key : String) (value : Value) : Table :=
  { table with entries := table.entries.filter (fun entry => entry.1 != key) ++ [(key, value)] }

/-- Changes the table at the end of a path. `made` is the origin of the tables made on the way. -/
def alterAt (made : TableOrigin) (change : Table → Option Table) :
    (path : List String) → Table → Option Table
  | [], table => change table
  | key :: rest, table =>
    match table.lookup? key with
    | none => (alterAt made change rest ⟨made, []⟩).map fun inner => table.set key inner.toValue
    | some (.table origin entries) =>
      if origin = .inline ∨ (made = .dotted ∧ origin = .header) then none
      else (alterAt made change rest ⟨origin, entries⟩).map fun inner => table.set key inner.toValue
    | some (.array true items) =>
      match items.getLast? with
      | some (.table origin entries) =>
        (alterAt made change rest ⟨origin, entries⟩).map fun inner =>
          table.set key (.array true (items.dropLast ++ [inner.toValue]))
      | _ => none
    | some _ => none

/-- A key's path without its last part, and that part. -/
def splitLast : List String → Option (List String × String)
  | [] => none
  | path@(_ :: _) => path.getLast?.map (path.dropLast, ·)

/-- Adds a pair whose key may be dotted. The key must be new, and a dotted one must end in a table
that dotted keys made. -/
def putPair (table : Table) (pair : List String × Value) : Option Table := do
  let (path, key) ← splitLast pair.1
  table.alterAt .dotted (fun inner =>
    if (inner.origin == .dotted) == path.isEmpty then none
    else if (inner.lookup? key).isSome then none
    else some { inner with entries := inner.entries ++ [(key, pair.2)] }) path

def putPairs (table : Table) (pairs : List (List String × Value)) : Option Table :=
  pairs.foldlM putPair table

/-- Adds a table that a header names, with its pairs. It may be there already if it was implied. -/
def putTable (root : Table) (path : List String) (pairs : List (List String × Value)) :
    Option Table := do
  let (parents, key) ← splitLast path
  root.alterAt .implied (fun parent =>
    match parent.lookup? key with
    | none => (putPairs ⟨.header, []⟩ pairs).map fun table => parent.set key table.toValue
    | some (.table .implied entries) =>
      (putPairs ⟨.header, entries⟩ pairs).map fun table => parent.set key table.toValue
    | some _ => none) parents

/-- Adds a table to those of a repeated header. -/
def putElement (root : Table) (path : List String) (pairs : List (List String × Value)) :
    Option Table := do
  let (parents, key) ← splitLast path
  root.alterAt .implied (fun parent =>
    match parent.lookup? key with
    | none =>
      (putPairs ⟨.header, []⟩ pairs).map fun table =>
        parent.set key (.array true [table.toValue])
    | some (.array true items) =>
      (putPairs ⟨.header, []⟩ pairs).map fun table =>
        parent.set key (.array true (items ++ [table.toValue]))
    | some _ => none) parents

end Table

end SlotStore.Toml
