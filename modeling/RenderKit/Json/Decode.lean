import RenderKit.Number.Binary32

/-!
# Decoding JSON values

Small decoders that records and enumerations are read with. A record is an object or the array of
its fields in order; an object may have members that the record does not know, but no known one
twice. A decoder that finds something else has no answer.
-/

namespace RenderKit.Json

/-- The known members of a record that are present, by name. -/
abbrev Fields := List (String × Value)

namespace Fields

/-- A field that must be present. -/
def required {α : Type} (fields : Fields) (name : String) (decode : Value → Option α) : Option α :=
  fields.lookup name >>= decode

/-- A field with a default for when it is missing. -/
def optional {α : Type} (fields : Fields) (name : String) (default : α)
    (decode : Value → Option α) : Option α :=
  match fields.lookup name with
  | some v => decode v
  | none => some default

end Fields

namespace Value

/-- The members of an object whose names are all text. -/
def namedMembers? (members : List (Option String × Value)) : Option Fields :=
  members.mapM fun (name, v) => name.map fun name => (name, v)

/-- The members with one of these names, none of them twice. -/
def known? (names : List String) (members : Fields) : Option Fields :=
  let known := members.filter fun m => names.contains m.1
  if (known.map (·.1)).Nodup then some known else none

/-- The fields of a record with these names. -/
def fields? (names : List String) : Value → Option Fields
  | .object members => namedMembers? members >>= known? names
  | .array items => if items.length ≤ names.length then some (names.zip items) else none
  | _ => none

/-- A text. -/
def text? : Value → Option String
  | .string s => s
  | _ => none

/-- A truth value. -/
def bool? : Value → Option Bool
  | .bool b => some b
  | _ => none

/-- A natural number below a limit, written without sign, fraction and exponent. -/
def natBelow? (limit : Nat) : Value → Option Nat
  | .number n => n.toNat?.filter (· < limit)
  | _ => none

/-- A number that a word of 32 bits holds. -/
def word32? (v : Value) : Option UInt32 :=
  (v.natBelow? UInt32.size).map UInt32.ofNat

/-- A number that a word of 64 bits holds. -/
def word64? (v : Value) : Option Nat :=
  v.natBelow? Number.wordLimit

/-- A number rounded to 32 bits. -/
def binary32? : Value → Option Number.Binary32
  | .number n => Number.Binary32.ofNumeral? n
  | _ => none

/-- A list, all of whose items can be decoded. -/
def list? {α : Type} (decode : Value → Option α) : Value → Option (List α)
  | .array items => items.mapM decode
  | _ => none

/-- A value of an enumeration: its name, or an object with the name and `null`. -/
def variant? {α : Type} (ofName? : String → Option α) : Value → Option α
  | .string (some s) => ofName? s
  | .object [(some s, .null)] => ofName? s
  | _ => none

/-- A number as a value; an infinite one is written as `null`. -/
def ofBinary32 (x : Number.Binary32) : Value :=
  match x.numeral? with
  | some n => .number n
  | none => .null

/-- A text is decoded to itself. -/
@[simp] theorem text?_ofText (s : String) : (ofText s).text? = some s := rfl

@[simp] theorem bool?_bool (b : Bool) : (bool b).bool? = some b := rfl

end Value

end RenderKit.Json
