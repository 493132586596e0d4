import RenderKit.Json.Basic

/-!
# JSON tokens

The words of a JSON text between its blanks, which are the space, the tab and the two line ends
only. Strings are read by their escapes first and joined into characters afterwards, so that a
string with half a surrogate pair is still a word of the grammar.
-/

namespace RenderKit.Json

/-- A word of JSON text. -/
inductive Token where
  | openArray
  | closeArray
  | openObject
  | closeObject
  | comma
  | colon
  | null
  | bool (b : Bool)
  | number (n : Numeral)
  | string (text : Option String)
deriving DecidableEq, Repr

namespace Token

/-- A piece of a string: a character that stands for itself or is named by a short escape, or the
number of an escape in four hexadecimal digits. -/
inductive Piece where
  | char (c : Char)
  | code (n : Nat)
deriving DecidableEq, Repr

/-- The number of a hexadecimal digit. -/
def hexDigit? (c : Char) : Option Nat :=
  if '0' ≤ c ∧ c ≤ '9' then some (c.toNat - '0'.toNat)
  else if 'a' ≤ c ∧ c ≤ 'f' then some (c.toNat - 'a'.toNat + 10)
  else if 'A' ≤ c ∧ c ≤ 'F' then some (c.toNat - 'A'.toNat + 10)
  else none

/-- The number that four hexadecimal digits name. -/
def hex4? (a b c d : Char) : Option Nat := do
  return (((← hexDigit? a) * 16 + (← hexDigit? b)) * 16 + (← hexDigit? c)) * 16 + (← hexDigit? d)

/-- The character of a short escape. -/
def shortEscape? : Char → Option Char
  | '"' => some '"'
  | '\\' => some '\\'
  | '/' => some '/'
  | 'b' => some '\x08'
  | 'f' => some '\x0c'
  | 'n' => some '\n'
  | 'r' => some '\r'
  | 't' => some '\t'
  | _ => none

/-- The pieces of a string up to its closing quote, and what follows the quote; `seen` holds the
pieces before, the latest first. Controls must be escaped. -/
def scanPieces (seen : List Piece) : List Char → Option (List Piece × List Char)
  | '"' :: rest => some (seen.reverse, rest)
  | '\\' :: 'u' :: a :: b :: c :: d :: rest =>
    match hex4? a b c d with
    | some n => scanPieces (.code n :: seen) rest
    | none => none
  | '\\' :: e :: rest =>
    match shortEscape? e with
    | some c => scanPieces (.char c :: seen) rest
    | none => none
  | c :: rest => if c.toNat < 0x20 then none else scanPieces (.char c :: seen) rest
  | [] => none

/-- Whether an escape names the first half of a surrogate pair. -/
def isHighHalf (n : Nat) : Bool :=
  0xD800 ≤ n && n ≤ 0xDBFF

/-- Whether an escape names the second half of a surrogate pair. -/
def isLowHalf (n : Nat) : Bool :=
  0xDC00 ≤ n && n ≤ 0xDFFF

/-- The characters that pieces stand for, put in front of `seen` in reverse; `none` for a half of
a surrogate pair without its other half beside it. -/
def joinPieces (seen : List Char) : List Piece → Option (List Char)
  | [] => some seen.reverse
  | .char c :: rest => joinPieces (c :: seen) rest
  | .code n :: rest =>
    if isHighHalf n then
      match rest with
      | .code m :: rest =>
        if isLowHalf m then
          joinPieces (Char.ofNat (0x10000 + (n - 0xD800) * 0x400 + (m - 0xDC00)) :: seen) rest
        else none
      | _ => none
    else if isLowHalf n then none
    else joinPieces (Char.ofNat n :: seen) rest

/-- A string after its opening quote. -/
def scanString (cs : List Char) : Option (Token × List Char) := do
  let (pieces, rest) ← scanPieces [] cs
  return (.string ((joinPieces [] pieces).map String.ofList), rest)

/-- The decimal digits at the front of a text. -/
def leadingDigits (cs : List Char) : List (Fin 10) :=
  (cs.takeWhile Char.isDigit).map Numeral.digitOf

/-- What follows the decimal digits at the front of a text. -/
def afterDigits (cs : List Char) : List Char :=
  cs.dropWhile Char.isDigit

/-- The fraction of a number: a point with a digit behind it, or nothing. -/
def scanFraction : List Char → Option (List (Fin 10) × List Char)
  | '.' :: rest =>
    if (leadingDigits rest).isEmpty then none else some (leadingDigits rest, afterDigits rest)
  | cs => some ([], cs)

/-- The exponent of a number behind its letter: a sign or none, and a digit. -/
def scanExponentDigits (cs : List Char) : Option (Int × List Char) :=
  let (negative, cs) := match cs with
    | '-' :: rest => (true, rest)
    | '+' :: rest => (false, rest)
    | cs => (false, cs)
  let digits := leadingDigits cs
  if digits.isEmpty then none
  else
    let size : Int := Numeral.ofDigits digits
    some (if negative then -size else size, afterDigits cs)

/-- The exponent of a number, or nothing. -/
def scanExponent : List Char → Option (Option Int × List Char)
  | 'e' :: rest | 'E' :: rest => (scanExponentDigits rest).map fun (e, rest) => (some e, rest)
  | cs => some (none, cs)

/-- A number behind its sign. A whole part of more than one digit does not start with a zero. -/
def scanNumber (negative : Bool) (cs : List Char) : Option (Token × List Char) := do
  let whole := leadingDigits cs
  if whole.isEmpty || (whole.head? == some Numeral.zeroDigit && whole.length > 1) then none
  let (fraction, rest) ← scanFraction (afterDigits cs)
  let (exponent, rest) ← scanExponent rest
  return (.number ⟨negative, whole, fraction, exponent⟩, rest)

/-- The word at the front of a text that does not start with a blank, and the text behind it. -/
def scan? : List Char → Option (Token × List Char)
  | '[' :: rest => some (.openArray, rest)
  | ']' :: rest => some (.closeArray, rest)
  | '\x7b' :: rest => some (.openObject, rest)
  | '\x7d' :: rest => some (.closeObject, rest)
  | ',' :: rest => some (.comma, rest)
  | ':' :: rest => some (.colon, rest)
  | 'n' :: 'u' :: 'l' :: 'l' :: rest => some (.null, rest)
  | 't' :: 'r' :: 'u' :: 'e' :: rest => some (.bool true, rest)
  | 'f' :: 'a' :: 'l' :: 's' :: 'e' :: rest => some (.bool false, rest)
  | '"' :: rest => scanString rest
  | '-' :: rest => scanNumber true rest
  | cs => scanNumber false cs

/-- Whether a character may stand between the words of JSON text. -/
def isSpace (c : Char) : Bool :=
  c == ' ' || c == '\t' || c == '\n' || c == '\r'

/-- The words of a text in order, at most `fuel` of them; `seen` holds those before, the latest
first. -/
def scanAll (fuel : Nat) (seen : List Token) (cs : List Char) : Option (List Token) :=
  match fuel, cs.dropWhile isSpace with
  | _, [] => some seen.reverse
  | 0, _ => none
  | fuel + 1, cs =>
    match scan? cs with
    | some (token, rest) => scanAll fuel (token :: seen) rest
    | none => none

/-- The words of a text. Each has a character at least, so there are no more than characters. -/
def all? (s : String) : Option (List Token) :=
  scanAll s.toList.length [] s.toList

end Token

end RenderKit.Json
