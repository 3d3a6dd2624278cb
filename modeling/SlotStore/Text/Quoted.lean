import SlotStore.Text.Hex

/-!
A single ASCII character as a quoted literal: control characters are escaped, and so are the
quote and the backslash.
-/

namespace SlotStore

/-- The literal of an ASCII character between single quotes. -/
def quotedChar (char : Char) : String :=
  let inner : String :=
    if char = '\x00' then "\\0"
    else if char = '\t' then "\\t"
    else if char = '\n' then "\\n"
    else if char = '\r' then "\\r"
    else if char = '\'' then "\\'"
    else if char = '\\' then "\\\\"
    else if char.toNat < 32 || char.toNat == 127 then
      "\\u\x7b" ++ String.ofList (Nat.toDigits 16 char.toNat) ++ "\x7d"
    else String.singleton char
  "'" ++ inner ++ "'"

end SlotStore
