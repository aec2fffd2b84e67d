import TapeTutor.Text.Columns

/-!
# JSON texts

The little JSON that a report needs: a string between double quotes with the control
characters, the quote and the backslash escaped, and an object laid out with one member a
line.
-/

namespace TapeTutor.Text

/-- A character as it stands inside a JSON string. -/
def jsonEscaped (c : Char) : String :=
  if c = '"' then "\\\""
  else if c = '\\' then "\\\\"
  else if c = '\x08' then "\\b"
  else if c = '\t' then "\\t"
  else if c = '\n' then "\\n"
  else if c = '\x0c' then "\\f"
  else if c = '\r' then "\\r"
  else if c.toNat < 0x20 then
    let digits := String.ofList (Nat.toDigits 16 c.toNat)
    "\\u" ++ repeated (4 - digits.length) "0" ++ digits
  else String.singleton c

/-- A text as a JSON string. -/
def jsonString (s : String) : String :=
  "\"" ++ String.join (s.toList.map jsonEscaped) ++ "\""

/-- A JSON object with one member a line, indented by two spaces; the values are written
already. -/
def jsonObject (members : List (String × String)) : String :=
  "\x7b\n" ++ ",\n".intercalate (members.map fun (key, value) =>
    "  " ++ jsonString key ++ ": " ++ value) ++ "\n\x7d"

end TapeTutor.Text
