import DocumentStore.Text.Graphic
import DocumentStore.Text.Hex

/-!
Quoted text: a string between double quotes, with quotes, backslashes and everything that cannot be
seen written as escapes. `trimQuotes` takes the quotes at both ends off again.
-/

namespace DocumentStore.Text

def escape (c : Char) : String :=
  if c = '\x00' then "\\0"
  else if c = '\t' then "\\t"
  else if c = '\n' then "\\n"
  else if c = '\r' then "\\r"
  else if c = '"' then "\\\""
  else if c = '\\' then "\\\\"
  else if isGraphic c then c.toString
  else "\\u\x7b" ++ hex c.toNat ++ "\x7d"

def quoted (s : String) : String :=
  "\"" ++ String.join (s.toList.map escape) ++ "\""

/-- The text without the double quotes at its two ends, however many there are. -/
def trimQuotes (s : String) : String :=
  String.ofList ((s.toList.dropWhile (· == '"')).reverse.dropWhile (· == '"')).reverse

def bracketed (parts : List String) : String := "[" ++ ", ".intercalate parts ++ "]"

def braced (parts : List String) : String := "\x7b" ++ ", ".intercalate parts ++ "\x7d"

def record (name : String) (fields : List (String × String)) : String :=
  name ++ " \x7b "
    ++ ", ".intercalate (fields.map fun (field, text) => field ++ ": " ++ text) ++ " \x7d"

def optional : Option String → String
  | none => "None"
  | some text => "Some(" ++ text ++ ")"

end DocumentStore.Text
