import RenderKit.Json.Basic
import RenderKit.Text.Quoted

/-!
# Writing JSON

Two layouts of a value: compact, without a blank, and indented by two spaces for every container
around a line. Strings escape the quote, the backslash and controls only.
-/

namespace RenderKit.Json

/-- One character as it is written inside a JSON string. -/
def escaped (c : Char) : String :=
  match c with
  | '"' => "\\\""
  | '\\' => "\\\\"
  | '\x08' => "\\b"
  | '\x0c' => "\\f"
  | '\n' => "\\n"
  | '\r' => "\\r"
  | '\t' => "\\t"
  | c =>
    if c.toNat < 0x10 then "\\u000" ++ Text.hex c.toNat
    else if c.toNat < 0x20 then "\\u00" ++ Text.hex c.toNat
    else String.singleton c

/-- A string in its quotes; one that is no text is written as half a surrogate pair. -/
def stringText : Option String → String
  | some s => "\"" ++ String.join (s.toList.map escaped) ++ "\""
  | none => "\"\\ud800\""

namespace Value

mutual

/-- A value without a blank in it. -/
def compact : Value → String
  | .null => "null"
  | .bool b => if b then "true" else "false"
  | .number n => n.text
  | .string s => stringText s
  | .array items => "[" ++ ",".intercalate (compactItems items) ++ "]"
  | .object members => "\x7b" ++ ",".intercalate (compactMembers members) ++ "\x7d"

/-- The items of an array, each without a blank. -/
def compactItems : List Value → List String
  | [] => []
  | v :: rest => compact v :: compactItems rest

/-- The members of an object, each without a blank. -/
def compactMembers : List (Option String × Value) → List String
  | [] => []
  | (name, v) :: rest => (stringText name ++ ":" ++ compact v) :: compactMembers rest

end

/-- The blanks at the front of a line inside `depth` containers. -/
def margin (depth : Nat) : String :=
  String.ofList (List.replicate (2 * depth) ' ')

/-- Lines between the marks of a container that stands inside `depth` others; an empty container
stays on one line. -/
def laidOut (depth : Nat) (opening closing : String) (lines : List String) : String :=
  if lines.isEmpty then opening ++ closing
  else
    opening ++ "\n" ++ margin (depth + 1) ++ (",\n" ++ margin (depth + 1)).intercalate lines
      ++ "\n" ++ margin depth ++ closing

mutual

/-- A value that stands inside `depth` containers, with a line for every item and member. -/
def pretty (depth : Nat) : Value → String
  | .null => "null"
  | .bool b => if b then "true" else "false"
  | .number n => n.text
  | .string s => stringText s
  | .array items => laidOut depth "[" "]" (prettyItems depth items)
  | .object members => laidOut depth "\x7b" "\x7d" (prettyMembers depth members)

/-- The items of an array inside `depth` containers. -/
def prettyItems (depth : Nat) : List Value → List String
  | [] => []
  | v :: rest => pretty (depth + 1) v :: prettyItems depth rest

/-- The members of an object inside `depth` containers. -/
def prettyMembers (depth : Nat) : List (Option String × Value) → List String
  | [] => []
  | (name, v) :: rest =>
    (stringText name ++ ": " ++ pretty (depth + 1) v) :: prettyMembers depth rest

end

/-- The indented text of a whole document. -/
def document (v : Value) : String :=
  pretty 0 v

end Value

end RenderKit.Json
