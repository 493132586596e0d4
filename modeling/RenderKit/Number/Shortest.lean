import RenderKit.Number.Binary

/-!
# Shortest decimals

The decimal with the fewest digits among those that round to a given value of a binary format, and
the nearest to the value among those; two equally near ones leave the even digit. A value owns the
decimals from the midpoint with its lower neighbour to the midpoint with its upper one, ends
included when its significand is even.
-/

namespace RenderKit.Number

/-- The decimal `digits * 10 ^ exponent`. -/
structure Decimal where
  digits : Nat
  exponent : Int
deriving DecidableEq, Repr

namespace Format

/-- Ten to an exponent, as numerator and denominator. -/
def powerOfTen (e : Int) : Nat × Nat :=
  match e with
  | .ofNat n => (Nat.pow 10 n, 1)
  | .negSucc n => (1, Nat.pow 10 (n + 1))

/-- Whether a quotient, in units of half the smallest positive value, rounds to the finite value
at a positive rank. -/
def owns (f : Format) (rank num den : Nat) : Bool :=
  let lower := f.units (rank - 1) + f.units rank
  let upper := f.units rank + f.units (rank + 1)
  if f.significand rank % 2 = 0 then lower * den ≤ num && num ≤ upper * den
  else lower * den < num && num < upper * den

/-- A decimal in units of half the smallest positive value, as numerator and denominator. -/
def halfUnits (f : Format) (d : Decimal) : Nat × Nat :=
  let (a, b) := powerOfTen d.exponent
  let (c, e) := powerOfTwo (f.least - 1)
  (d.digits * a * e, b * c)

/-- Whether a decimal rounds to the finite value at a positive rank. -/
def readsBack (f : Format) (rank : Nat) (d : Decimal) : Bool :=
  let (num, den) := f.halfUnits d
  f.owns rank num den

/-- The number of whole multiples of a power of ten in the value at a rank, and whether the next
multiple is nearer: greater, equal or less as the value is below, at or above the middle. -/
def onGrid (f : Format) (rank : Nat) (exponent : Int) : Nat × Ordering :=
  let (num, den) := f.halfUnits ⟨1, exponent⟩
  let value := 2 * f.units rank * den
  (value / num, compare num (2 * (value % num)))

/-- The decimal for the value at a rank among the multiples of a power of ten: of the value's two
neighbours there the nearer that reads back. -/
def candidate? (f : Format) (rank : Nat) (exponent : Int) : Option Decimal :=
  let (below, middle) := f.onGrid rank exponent
  let low : Decimal := ⟨below, exponent⟩
  let high : Decimal := ⟨below + 1, exponent⟩
  match f.readsBack rank low, f.readsBack rank high with
  | false, false => none
  | true, false => some low
  | false, true => some high
  | true, true =>
    match middle with
    | .gt => some low
    | .lt => some high
    | .eq => some (if below % 2 = 0 then low else high)

/-- The shortest decimal of the value at a positive finite rank: powers of ten are tried downward
from `greatest`, at most `count` of them. -/
def shortest? (f : Format) (rank : Nat) (greatest : Int) (count : Nat) : Option Decimal :=
  (List.range count).findSome? fun (i : Nat) => f.candidate? rank (greatest - i)

end Format

/-- One third needs eight digits in the format of 32 bits. -/
example : binary32.shortest? 0x3EAAAAAB 38 100 = some ⟨33333334, -8⟩ := by decide +kernel

/-- The smallest positive value needs one. -/
example : binary32.shortest? 1 38 100 = some ⟨1, -45⟩ := by decide +kernel

end RenderKit.Number
