import SlotStore.Toml.Moment
import SlotStore.Toml.Quoted
import SlotStore.Toml.Table

/-!
Reading a document: pairs and headers, one a line. Arrays may stretch over lines, tables between
braces may not; both nest less deep than `nestingLimit`.
-/

namespace SlotStore.Toml

/-- Items up to the closing bracket, which a comma may precede. -/
def readItems (readValue : Reader Value) : (budget : Nat) → Reader (List Value)
  | 0, _ => none
  | budget + 1, chars =>
    match skipLines chars with
    | ']' :: rest => some ([], rest)
    | start => do
      let (item, rest) ← readValue start
      match skipLines rest with
      | ',' :: rest => do
        let (items, rest) ← readItems readValue budget rest
        return (item :: items, rest)
      | ']' :: rest => some ([item], rest)
      | _ => none

def readPairWith (readValue : Reader Value) (chars : List Char) :
    Option ((List String × Value) × List Char) := do
  let (key, rest) ← readKey chars
  let (value, rest) ← readValue (skipSpaces (← skipText ['='] rest))
  return ((key, value), rest)

/-- Pairs up to the closing brace, which no comma may precede. -/
def readBraced (readValue : Reader Value) : (budget : Nat) → Reader (List (List String × Value))
  | 0, _ => none
  | budget + 1, chars => do
    let (pair, rest) ← readPairWith readValue chars
    match skipSpaces rest with
    | ',' :: rest => do
      let (pairs, rest) ← readBraced readValue budget rest
      return (pair :: pairs, rest)
    | '\x7d' :: rest => some ([pair], rest)
    | _ => none

/-- A table between braces, after the opening one. -/
def readInline (readValue : Reader Value) (chars : List Char) : Option (Value × List Char) :=
  match skipSpaces chars with
  | '\x7d' :: rest => some (.table .inline [], rest)
  | start => do
    let (pairs, rest) ← readBraced readValue (start.length + 1) start
    let table ← Table.putPairs ⟨.inline, []⟩ pairs
    return (table.toValue, rest)

/-- A moment, a float or an integer, whichever reads first. -/
def readPlain (chars : List Char) : Option (Value × List Char) :=
  readMoment chars <|> readPointed chars <|> readSpecial chars <|> readInteger chars

/-- A value with at most `depth` levels of brackets and braces. -/
def readValue : (depth : Nat) → Reader Value
  | _, '"' :: rest => (readText ('"' :: rest)).map fun (text, rest) => (.text text, rest)
  | _, '\'' :: rest => (readText ('\'' :: rest)).map fun (text, rest) => (.text text, rest)
  | 0, '[' :: _ | 0, '\x7b' :: _ => none
  | depth + 1, '[' :: rest =>
    (readItems (readValue depth) (rest.length + 1) rest).map fun (items, rest) =>
      (.array false items, rest)
  | depth + 1, '\x7b' :: rest => readInline (readValue depth) rest
  | _, 't' :: 'r' :: 'u' :: 'e' :: rest => some (.flag true, rest)
  | _, 'f' :: 'a' :: 'l' :: 's' :: 'e' :: rest => some (.flag false, rest)
  | _, chars => readPlain chars

inductive Line where
  | pair (key : List String) (value : Value)
  | table (path : List String)
  | element (path : List String)

def readHeader (closing : List Char) (line : List String → Line) (chars : List Char) :
    Option (Line × List Char) := do
  let (path, rest) ← readKey chars
  return (line path, ← finishLine (← skipText closing rest))

def readLine (chars : List Char) : Option (Line × List Char) :=
  match chars with
  | '[' :: '[' :: rest => readHeader [']', ']'] .element rest
  | '[' :: rest => readHeader [']'] .table rest
  | _ => do
    let ((key, value), rest) ← readPairWith (readValue (nestingLimit - 1)) chars
    return (.pair key value, ← finishLine rest)

/-- All lines of a text; `budget` bounds their number. -/
def readLines : (budget : Nat) → List Char → Option (List Line)
  | 0, _ => none
  | budget + 1, chars =>
    match skipSpaces chars with
    | [] => some []
    | start =>
      match finishLine start with
      | some rest => readLines budget rest
      | none => do
        let (line, rest) ← readLine start
        return line :: (← readLines budget rest)

/-- The pairs up to the next header, and the lines from there on. -/
def splitPairs : List Line → List (List String × Value) × List Line
  | .pair key value :: rest =>
    let (pairs, rest) := splitPairs rest
    ((key, value) :: pairs, rest)
  | lines => ([], lines)

/-- Adds the tables of all headers; `budget` bounds their number. -/
def putSections (root : Table) : (budget : Nat) → List Line → Option Table
  | _, [] => some root
  | 0, _ :: _ => none
  | budget + 1, line :: rest =>
    let (pairs, rest) := splitPairs rest
    match line with
    | .pair _ _ => none
    | .table path => do putSections (← root.putTable path pairs) budget rest
    | .element path => do putSections (← root.putElement path pairs) budget rest

/-- A text without the byte order mark at its front. -/
def skipByteOrderMark : List Char → List Char
  | '\ufeff' :: rest => rest
  | chars => chars

/-- The table that a document holds, if it is one. -/
def parse (text : String) : Option Value := do
  let chars := skipByteOrderMark text.toList
  let lines ← readLines (chars.length + 1) chars
  let (pairs, sections) := splitPairs lines
  let top ← Table.putPairs ⟨.header, []⟩ pairs
  let root ← putSections top sections.length sections
  return root.toValue

end SlotStore.Toml
