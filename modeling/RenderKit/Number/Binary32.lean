import RenderKit.Json.Basic
import RenderKit.Number.Shortest

/-!
# Coordinates

Values of the binary format of 32 bits without its not-a-number codes, and how numerals name
them. A numeral is read through the format of 64 bits and rounded once more; digits beyond those
that a word of 64 bits holds do not count. A value is written as its shortest decimal.
-/

namespace RenderKit.Number

/-- A binary value of 32 bits: its sign and the rank of its magnitude, infinity the last. -/
structure Binary32 where
  negative : Bool := false
  rank : Nat
  rank_le_top : rank ≤ binary32.top := by decide
deriving DecidableEq, Repr

namespace Binary32

/-- Zero without a sign. -/
def zero : Binary32 := { rank := 0 }

/-- The value nearest to a quotient. -/
def ofRatio (negative : Bool) (num den : Nat) : Binary32 :=
  ⟨negative, binary32.nearest num den, Format.nearest_le_top _ _ _⟩

/-- The value nearest to a natural number. -/
def ofNat (n : Nat) : Binary32 :=
  ofRatio false n 1

/-- Whether a value is not infinite. -/
def isFinite (x : Binary32) : Bool :=
  x.rank < binary32.top

end Binary32

/-- The least number that a word of 64 bits does not hold. -/
def wordLimit : Nat := Nat.pow 2 64

/-- Appends the digits of a whole part to a significand until a word holds no more of them; what is
left counts as powers of ten. -/
def takeWhole (significand : Nat) : List (Fin 10) → Nat × Nat
  | [] => (significand, 0)
  | d :: ds =>
    if 10 * significand + d < wordLimit then takeWhole (10 * significand + d) ds
    else (significand, ds.length + 1)

/-- Appends the digits of a fraction to a significand until a word holds no more of them, and tells
how many it took. -/
def takeFraction (significand taken : Nat) : List (Fin 10) → Nat × Nat
  | [] => (significand, taken)
  | d :: ds =>
    if 10 * significand + d < wordLimit then takeFraction (10 * significand + d) (taken + 1) ds
    else (significand, taken)

/-- The digits of a numeral that count, as one number, and the power of ten it is to be scaled
by. -/
def significandOf (n : Json.Numeral) : Nat × Int :=
  let (whole, left) := takeWhole 0 n.whole
  let (significand, taken) := takeFraction whole 0 n.fraction
  (significand, (left : Int) - taken + n.exponent.getD 0)

/-- The rank of a power of ten in the format of 64 bits. -/
def tenRank (k : Nat) : Nat :=
  binary64.nearest (Nat.pow 10 k) 1

/-- The rounded product of the values at two ranks. -/
def mulRank (r s : Nat) : Nat :=
  let (a, b) := binary64.ratio r
  let (c, d) := binary64.ratio s
  binary64.nearest (a * c) (b * d)

/-- The rounded quotient of the values at two ranks. -/
def divRank (r s : Nat) : Nat :=
  let (a, b) := binary64.ratio r
  let (c, d) := binary64.ratio s
  binary64.nearest (a * d) (b * c)

/-- The greatest exponent of ten with a finite value in the format of 64 bits. -/
def tenLimit : Nat := 308

/-- The rank of a significand scaled by a power of ten in the format of 64 bits; `none` beyond the
greatest finite value. A power out of the format's range is applied in two steps, after which
every significand of a word has vanished or is in range. -/
def scaledRank? (significand : Nat) (exponent : Int) : Option Nat :=
  let start := binary64.nearest significand 1
  match exponent with
  | .ofNat e =>
    if significand = 0 then some 0
    else if e ≤ tenLimit then
      let r := mulRank start (tenRank e)
      if r < binary64.top then some r else none
    else none
  | .negSucc e =>
    let e := e + 1
    if e ≤ tenLimit then some (divRank start (tenRank e))
    else if e ≤ 2 * tenLimit then
      some (divRank (divRank start (tenRank tenLimit)) (tenRank (e - tenLimit)))
    else some 0

/-- The rank of a numeral's magnitude in the format of 64 bits. -/
def rank64? (n : Json.Numeral) : Option Nat :=
  let (significand, exponent) := significandOf n
  scaledRank? significand exponent

/-- Whether a numeral names an integer that a word of 64 bits holds, with a sign bit for a negative
one. A negative zero is none. -/
def isWordInteger (n : Json.Numeral) : Bool :=
  let size := Json.Numeral.ofDigits n.whole
  n.isWhole && if n.negative then 0 < size && size ≤ wordLimit / 2 else size < wordLimit

/-- The value of 32 bits that a numeral is read as: an integer of a word at once, every other
numeral through 64 bits. Beyond the greatest finite value of 64 bits it has none. -/
def Binary32.ofNumeral? (n : Json.Numeral) : Option Binary32 :=
  if isWordInteger n then some (ofRatio n.negative (Json.Numeral.ofDigits n.whole) 1)
  else (rank64? n).map fun r =>
    let (a, b) := binary64.ratio r
    ofRatio n.negative a b

/-- A decimal without the zeros at its end. -/
def Decimal.strip (fuel : Nat) (d : Decimal) : Decimal :=
  match fuel with
  | 0 => d
  | fuel + 1 =>
    if d.digits % 10 = 0 ∧ d.digits ≠ 0 then strip fuel ⟨d.digits / 10, d.exponent + 1⟩ else d

/-- A positive decimal as it is written: with the exponent of its leading digit from -6 to 12 its
places stand around the point, and else one digit stands before the point and an exponent behind
it. -/
def Decimal.numeral (d : Decimal) (negative : Bool) : Json.Numeral :=
  let d := d.strip 20
  let zero := Json.Numeral.zeroDigit
  let digits := Json.Numeral.digitsOf d.digits
  let leading := d.exponent + digits.length - 1
  if leading < -6 ∨ 12 < leading then
    ⟨negative, digits.take 1, digits.drop 1, some leading⟩
  else if leading < 0 then
    ⟨negative, [zero], List.replicate (-leading - 1).toNat zero ++ digits, none⟩
  else
    let places := leading.toNat + 1
    let whole := digits.take places ++ List.replicate (places - digits.length) zero
    let fraction := digits.drop places
    ⟨negative, whole, if fraction.isEmpty then [zero] else fraction, none⟩

/-- The shortest numeral of a finite value; an infinite one has none. -/
def Binary32.numeral? (x : Binary32) : Option Json.Numeral :=
  if x.rank = 0 then some ⟨x.negative, [Json.Numeral.zeroDigit], [Json.Numeral.zeroDigit], none⟩
  else if x.isFinite then
    (binary32.shortest? x.rank 38 100).map fun d => d.numeral x.negative
  else none

/-- The text of a value: its shortest numeral, or the word for infinity. -/
def Binary32.text (x : Binary32) : String :=
  match x.numeral? with
  | some n => n.text
  | none => if x.negative then "-inf" else "inf"

end RenderKit.Number
