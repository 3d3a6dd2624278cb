import SlotStore.Toml.Value

/-!
What lies between the values of a document: blanks, ends of lines, and comments. A line ends with
a line feed, which a carriage return may precede.
-/

namespace SlotStore.Toml

def isSpace (char : Char) : Bool := char == ' ' || char == '\t'

/-- A character that a comment may hold: no control character but the tab. -/
def isPrintable (char : Char) : Bool :=
  char == '\t' || (0x20 ≤ char.toNat && char.toNat ≤ 0x7E) || 0x80 ≤ char.toNat

def skipSpaces (chars : List Char) : List Char := chars.dropWhile isSpace

def lineEnd? : List Char → Option (List Char)
  | '\n' :: rest => some rest
  | '\r' :: '\n' :: rest => some rest
  | _ => none

/-- What follows a comment, if there is one. -/
def skipComment : List Char → List Char
  | '#' :: rest => rest.dropWhile isPrintable
  | chars => chars

/-- What follows the blank rest of a line and its end, or nothing at the end of the text. -/
def finishLine (chars : List Char) : Option (List Char) :=
  match skipComment (skipSpaces chars) with
  | [] => some []
  | rest => lineEnd? rest

/-- What follows blanks, ends of lines, and comments. `budget` bounds the number of lines. -/
def skipLinesWithin : (budget : Nat) → List Char → List Char
  | 0, chars => chars
  | budget + 1, chars =>
    match lineEnd? (skipComment (skipSpaces chars)) with
    | some rest => skipLinesWithin budget rest
    | none => skipSpaces chars

def skipLines (chars : List Char) : List Char := skipLinesWithin chars.length chars

def skipText : (expected : List Char) → List Char → Option (List Char)
  | [], chars => some chars
  | expected :: more, char :: rest => if char = expected then skipText more rest else none
  | _ :: _, [] => none

end SlotStore.Toml
