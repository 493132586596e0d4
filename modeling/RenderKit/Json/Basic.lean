/-!
# JSON values

A JSON document as it is written: numbers keep their digits, objects keep their members in order,
repeated names included, and a string may be no text at all when its escapes name half a
surrogate pair. What a number or an object means is decided by whoever decodes the value.
-/

namespace RenderKit.Json

/-- A number as it is written. No fraction and no exponent differ from an empty one of each. -/
structure Numeral where
  negative : Bool := false
  whole : List (Fin 10)
  fraction : List (Fin 10) := []
  exponent : Option Int := none
deriving DecidableEq, Repr

namespace Numeral

/-- The number that a list of decimal digits names, the most significant digit first. -/
def ofDigits (digits : List (Fin 10)) : Nat :=
  digits.foldl (fun n (d : Fin 10) => 10 * n + d.val) 0

/-- The digit zero. -/
def zeroDigit : Fin 10 := 0

/-- The digit that a character stands for. -/
def digitOf (c : Char) : Fin 10 :=
  Fin.ofNat 10 (c.toNat - '0'.toNat)

/-- The decimal digits of a number, the most significant first and none in front of it. -/
def digitsOf (n : Nat) : List (Fin 10) :=
  (Nat.toDigits 10 n).map digitOf

/-- A natural number in decimal digits. -/
def ofNat (n : Nat) : Numeral :=
  { whole := digitsOf n }

/-- Whether a numeral is written without fraction and exponent. -/
def isWhole (n : Numeral) : Bool :=
  n.fraction.isEmpty && n.exponent.isNone

/-- The natural number that a numeral without sign, fraction and exponent names. -/
def toNat? (n : Numeral) : Option Nat :=
  if n.negative || !n.isWhole then none else some (ofDigits n.whole)

/-- The digits of a list as text. -/
def digitText (digits : List (Fin 10)) : String :=
  String.ofList (digits.map fun (d : Fin 10) => Char.ofNat ('0'.toNat + d.val))

/-- The text of a numeral; a positive exponent keeps its sign. -/
def text (n : Numeral) : String :=
  (if n.negative then "-" else "") ++ digitText n.whole
    ++ (if n.fraction.isEmpty then "" else "." ++ digitText n.fraction)
    ++ match n.exponent with
      | none => ""
      | some (.ofNat e) => "e+" ++ toString e
      | some (.negSucc e) => "e-" ++ toString (e + 1)

@[simp] theorem ofDigits_nil : ofDigits [] = 0 := rfl

theorem ofDigits_append_singleton (ds : List (Fin 10)) (d : Fin 10) :
    ofDigits (ds ++ [d]) = 10 * ofDigits ds + d := by
  simp [ofDigits]

end Numeral

/-- A JSON value. A string is `none` when its escapes name half a surrogate pair. -/
inductive Value where
  | null
  | bool (b : Bool)
  | number (n : Numeral)
  | string (text : Option String)
  | array (items : List Value)
  | object (members : List (Option String × Value))
deriving Repr

namespace Value

/-- A string that is text. -/
def ofText (s : String) : Value :=
  .string (some s)

/-- A natural number. -/
def ofNat (n : Nat) : Value :=
  .number (.ofNat n)

/-- An object whose names are text, in the given order. -/
def record (members : List (String × Value)) : Value :=
  .object (members.map fun m => (some m.1, m.2))

end Value

end RenderKit.Json
