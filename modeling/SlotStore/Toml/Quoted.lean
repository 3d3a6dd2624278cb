import SlotStore.Text.Hex
import SlotStore.Toml.Layout

/-!
Quoted texts and keys. Text between double quotes has escapes, text between single quotes has
none; tripled quotes enclose several lines, and up to two more quotes may stand before the closing
three.
-/

namespace SlotStore.Toml

/-- The number that hexadecimal digits spell. -/
def hexNumber? (digits : List Char) : Option Nat :=
  digits.foldlM (fun number digit => (hexValue? digit).map (16 * number + ·)) 0

/-- The character of exactly `width` hexadecimal digits. -/
def readCodePoint (width : Nat) : Reader Char := fun chars => do
  let digits := chars.take width
  if digits.length < width then none
  let code ← hexNumber? digits
  if code.isValidChar then some (Char.ofNat code, chars.drop width) else none

/-- The character that an escape stands for, after the backslash. -/
def readEscape : Reader Char
  | 'b' :: rest => some ('\x08', rest)
  | 't' :: rest => some ('\t', rest)
  | 'n' :: rest => some ('\n', rest)
  | 'f' :: rest => some ('\x0c', rest)
  | 'r' :: rest => some ('\r', rest)
  | '"' :: rest => some ('"', rest)
  | '\\' :: rest => some ('\\', rest)
  | 'u' :: rest => readCodePoint 4 rest
  | 'U' :: rest => readCodePoint 8 rest
  | _ => none

/-- What follows a backslash at the end of a line: every blank and end of line from there on. -/
def skipFolded (chars : List Char) : Option (List Char) :=
  (lineEnd? (skipSpaces chars)).map fun rest =>
    rest.dropWhile fun char => isSpace char || char == '\n' || char == '\r'

/-- The rest of a text on one line, up to its closing quote. `soFar` is reversed. -/
def readLineText (quote : Char) (escapes : Bool) :
    (budget : Nat) → (soFar : List Char) → Reader String
  | 0, _, _ => none
  | _ + 1, _, [] => none
  | budget + 1, soFar, char :: rest =>
    if char = quote then some (String.ofList soFar.reverse, rest)
    else if escapes ∧ char = '\\' then
      match readEscape rest with
      | some (meant, rest) => readLineText quote escapes budget (meant :: soFar) rest
      | none => none
    else if isPrintable char then readLineText quote escapes budget (char :: soFar) rest
    else none

/-- The rest of a text of several lines, up to its closing quotes. `soFar` is reversed. -/
def readBlockText (quote : Char) (escapes : Bool) :
    (budget : Nat) → (soFar : List Char) → Reader String
  | 0, _, _ => none
  | _ + 1, _, [] => none
  | budget + 1, soFar, char :: rest =>
    if char = quote then
      let quotes := (rest.takeWhile (· == quote)).length + 1
      if quotes < 3 then readBlockText quote escapes budget (char :: soFar) rest
      else
        let held := min (quotes - 3) 2
        some (String.ofList (soFar.reverse ++ List.replicate held quote), rest.drop (held + 2))
    else if escapes ∧ char = '\\' then
      match skipFolded rest with
      | some rest => readBlockText quote escapes budget soFar rest
      | none =>
        match readEscape rest with
        | some (meant, rest) => readBlockText quote escapes budget (meant :: soFar) rest
        | none => none
    else
      match lineEnd? (char :: rest) with
      | some rest => readBlockText quote escapes budget ('\n' :: soFar) rest
      | none =>
        if isPrintable char then readBlockText quote escapes budget (char :: soFar) rest
        else none

def readQuoted : Reader String
  | '"' :: rest => readLineText '"' true (rest.length + 1) [] rest
  | '\'' :: rest => readLineText '\'' false (rest.length + 1) [] rest
  | _ => none

/-- A text between tripled quotes; an end of line right after them is not part of it. -/
def readBlock (quote : Char) (escapes : Bool) (chars : List Char) : Option (String × List Char) :=
  match skipText [quote, quote, quote] chars with
  | none => none
  | some rest =>
    let body := (lineEnd? rest).getD rest
    readBlockText quote escapes (body.length + 1) [] body

def readText (chars : List Char) : Option (String × List Char) :=
  if chars.take 3 = ['"', '"', '"'] then readBlock '"' true chars
  else if chars.take 3 = ['\'', '\'', '\''] then readBlock '\'' false chars
  else readQuoted chars

def isBareKeyChar (char : Char) : Bool :=
  ('A' ≤ char && char ≤ 'Z') || ('a' ≤ char && char ≤ 'z') || ('0' ≤ char && char ≤ '9') ||
    char == '-' || char == '_'

def readKeyPart (chars : List Char) : Option (String × List Char) :=
  match chars with
  | '"' :: _ | '\'' :: _ => readQuoted chars
  | _ =>
    let bare := chars.takeWhile isBareKeyChar
    if bare.isEmpty then none else some (String.ofList bare, chars.drop bare.length)

/-- The parts of a key between points, with blanks around each. -/
def readKeyParts : (budget : Nat) → Reader (List String)
  | 0, _ => none
  | budget + 1, chars => do
    let (part, rest) ← readKeyPart (skipSpaces chars)
    match skipSpaces rest with
    | '.' :: rest => do
      let (more, rest) ← readKeyParts budget rest
      return (part :: more, rest)
    | rest => some ([part], rest)

/-- Tables, arrays and keys nest less deep than this. -/
def nestingLimit : Nat := 80

/-- A key: the parts of a path, of which there are fewer than `nestingLimit`. -/
def readKey : Reader (List String) := readKeyParts (nestingLimit - 1)

end SlotStore.Toml
