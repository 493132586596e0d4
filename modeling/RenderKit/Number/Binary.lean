/-!
# Binary floating formats

The magnitudes that a binary format can hold, counted upward from zero: the number of a magnitude
in this count is its *rank*, so the next magnitude has the next rank, and infinity has the rank
behind the greatest finite one. A quotient is rounded to the rank nearest to it, a half to the
even one.
-/

namespace RenderKit.Number

/-- The natural number nearest to a quotient; a half goes to the even neighbour. -/
def roundDiv (num den : Nat) : Nat :=
  let q := num / den
  let r := num % den
  if 2 * r < den ∨ (2 * r = den ∧ q % 2 = 0) then q else q + 1

/-- A binary format: digits of the significand, the exponent of the smallest positive value, and
the number of binades with a finite value in them. -/
structure Format where
  precision : Nat
  least : Int
  binades : Nat
deriving DecidableEq, Repr

/-- The format of 32 bits. -/
def binary32 : Format := ⟨24, -149, 255⟩

/-- The format of 64 bits. -/
def binary64 : Format := ⟨53, -1074, 2047⟩

namespace Format

/-- The number of values in a binade. -/
def binade (f : Format) : Nat :=
  Nat.pow 2 (f.precision - 1)

/-- The rank of infinity. -/
def top (f : Format) : Nat :=
  f.binades * f.binade

/-- The significand of the value at a rank. -/
def significand (f : Format) (rank : Nat) : Nat :=
  if rank < f.binade then rank else f.binade + rank % f.binade

/-- How often the smallest positive value is doubled for one unit of the significand. -/
def doublings (f : Format) (rank : Nat) : Nat :=
  rank / f.binade - 1

/-- The value at a rank, in units of the smallest positive value. -/
def units (f : Format) (rank : Nat) : Nat :=
  f.significand rank * Nat.pow 2 (f.doublings rank)

end Format

/-- Two to an exponent, as numerator and denominator. -/
def powerOfTwo (e : Int) : Nat × Nat :=
  match e with
  | .ofNat n => (Nat.pow 2 n, 1)
  | .negSucc n => (1, Nat.pow 2 (n + 1))

/-- The greatest power of two that is not above a positive quotient, by its exponent. -/
def logTwo (num den : Nat) : Int :=
  let guess : Int := (num.log2 : Int) - den.log2
  let (a, b) := powerOfTwo guess
  if a * den ≤ num * b then guess else guess - 1

namespace Format

/-- The value at a rank, as numerator and denominator. -/
def ratio (f : Format) (rank : Nat) : Nat × Nat :=
  let (a, b) := powerOfTwo f.least
  (f.units rank * a, b)

/-- The exponent of the last place that a quotient keeps. -/
def placeOf (f : Format) (num den : Nat) : Int :=
  max f.least (logTwo num den - (f.precision - 1))

/-- The rank nearest to a quotient, a half to the even one, and infinity's from half a place above
the greatest finite value. -/
def nearest (f : Format) (num den : Nat) : Nat :=
  if num = 0 then 0
  else
    let place := f.placeOf num den
    let (a, b) := powerOfTwo place
    min f.top (roundDiv (num * b) (den * a) + (place - f.least).toNat * f.binade)

theorem binade_pos (f : Format) : 0 < f.binade :=
  Nat.pow_pos (by decide)

@[simp] theorem nearest_zero (f : Format) (den : Nat) : f.nearest 0 den = 0 := rfl

theorem nearest_le_top (f : Format) (num den : Nat) : f.nearest num den ≤ f.top := by
  unfold nearest
  split
  · exact Nat.zero_le _
  · exact Nat.min_le_left _ _

/-- Below the first binade's end a rank counts the smallest positive value. -/
theorem units_of_lt_binade (f : Format) {rank : Nat} (h : rank < f.binade) :
    f.units rank = rank := by
  simp [units, significand, doublings, h, Nat.div_eq_of_lt h]

end Format

/-- One third in the format of 32 bits. -/
example : binary32.nearest 1 3 = 0x3EAAAAAB := by decide +kernel

/-- A value beyond the greatest finite one is infinite. -/
example : binary32.nearest (2 ^ 128) 1 = binary32.top := by decide +kernel

end RenderKit.Number
