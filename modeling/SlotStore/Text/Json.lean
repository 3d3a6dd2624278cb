/-!
Values of the JSON kind and their text over several lines: two blanks for each level, one item or
entry a line. An empty array or object stays on its line.
-/

namespace SlotStore

inductive JsonValue where
  | null
  | natural (number : Nat)
  | text (content : String)
  | array (items : List JsonValue)
  | object (entries : List (String × JsonValue))
deriving Repr

namespace JsonValue

/-- A character as it stands between double quotes. -/
def escaped (char : Char) : List Char :=
  if char = '"' then ['\\', '"']
  else if char = '\\' then ['\\', '\\']
  else if char = '\n' then ['\\', 'n']
  else if char = '\r' then ['\\', 'r']
  else if char = '\t' then ['\\', 't']
  else if char = '\x08' then ['\\', 'b']
  else if char = '\x0c' then ['\\', 'f']
  else if char.toNat < 0x20 then
    ['\\', 'u', '0', '0', Nat.digitChar (char.toNat / 16), Nat.digitChar (char.toNat % 16)]
  else [char]

def quoted (text : String) : String :=
  "\"" ++ String.ofList (text.toList.flatMap escaped) ++ "\""

/-- Parts one a line between two brackets, at a level of nesting. -/
def bracketed (opening closing : String) (level : Nat) (parts : List String) : String :=
  let margin (level : Nat) : String := String.ofList (List.replicate (2 * level) ' ')
  if parts.isEmpty then opening ++ closing
  else
    opening ++ "\n" ++ ",\n".intercalate (parts.map (margin (level + 1) ++ ·)) ++ "\n" ++
      margin level ++ closing

mutual

/-- The text of a value at a level of nesting. -/
def render (level : Nat) : JsonValue → String
  | .null => "null"
  | .natural number => toString number
  | .text content => quoted content
  | .array items => bracketed "[" "]" level (renderItems (level + 1) items)
  | .object entries => bracketed "\x7b" "\x7d" level (renderEntries (level + 1) entries)

def renderItems (level : Nat) : List JsonValue → List String
  | [] => []
  | item :: rest => item.render level :: renderItems level rest

def renderEntries (level : Nat) : List (String × JsonValue) → List String
  | [] => []
  | (name, value) :: rest =>
    (quoted name ++ ": " ++ value.render level) :: renderEntries level rest

end

/-- The text of a value on lines of its own. -/
def lines (value : JsonValue) : String := value.render 0 ++ "\n"

end JsonValue

end SlotStore
