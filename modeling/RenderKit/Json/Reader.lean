import RenderKit.Json.Token

/-!
# Reading JSON

Tokens become a value through a machine that holds the containers it is inside of, so the depth
of a text costs list cells only. A text is read when its tokens make one value and nothing is
left.
-/

namespace RenderKit.Json

/-- A container that is not closed yet, with what it holds so far, the latest first. -/
inductive Frame where
  | array (items : List Value)
  | object (members : List (Option String × Value)) (name : Option String)

/-- What may come next, inside of the given open containers. -/
inductive Reader where
  /-- A value must come. -/
  | value (inside : List Frame)
  /-- An array was opened: a value or its end comes. -/
  | firstItem (inside : List Frame)
  /-- An object was opened: a name or its end comes. -/
  | firstName (inside : List Frame)
  /-- A comma in an object was read: a name must come. -/
  | nextName (members : List (Option String × Value)) (inside : List Frame)
  /-- A name was read: its colon must come. -/
  | colon (members : List (Option String × Value)) (name : Option String) (inside : List Frame)
  /-- A value is complete: its container goes on or ends, or the text ends. -/
  | complete (v : Value) (inside : List Frame)

namespace Reader

/-- Start of a value. -/
def startValue (inside : List Frame) : Token → Option Reader
  | .openArray => some (.firstItem inside)
  | .openObject => some (.firstName inside)
  | .null => some (.complete .null inside)
  | .bool b => some (.complete (.bool b) inside)
  | .number n => some (.complete (.number n) inside)
  | .string s => some (.complete (.string s) inside)
  | _ => none

/-- One token further. -/
def step : Reader → Token → Option Reader
  | .value inside, t => startValue inside t
  | .firstItem inside, .closeArray => some (.complete (.array []) inside)
  | .firstItem inside, t => startValue (.array [] :: inside) t
  | .firstName inside, .closeObject => some (.complete (.object []) inside)
  | .firstName inside, .string s => some (.colon [] s inside)
  | .nextName members inside, .string s => some (.colon members s inside)
  | .colon members name inside, .colon => some (.value (.object members name :: inside))
  | .complete v (.array items :: inside), .comma => some (.value (.array (v :: items) :: inside))
  | .complete v (.array items :: inside), .closeArray =>
    some (.complete (.array (v :: items).reverse) inside)
  | .complete v (.object members name :: inside), .comma =>
    some (.nextName ((name, v) :: members) inside)
  | .complete v (.object members name :: inside), .closeObject =>
    some (.complete (.object ((name, v) :: members).reverse) inside)
  | _, _ => none

/-- The value that has been read, when the text may end here. -/
def result? : Reader → Option Value
  | .complete v [] => some v
  | _ => none

end Reader

/-- The value that a list of tokens writes. -/
def Value.ofTokens? (tokens : List Token) : Option Value :=
  tokens.foldlM Reader.step (.value []) >>= Reader.result?

/-- The value that a text writes. -/
def Value.ofString? (s : String) : Option Value :=
  Token.all? s >>= Value.ofTokens?

end RenderKit.Json
