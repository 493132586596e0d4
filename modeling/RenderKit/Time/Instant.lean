import RenderKit.Time.Calendar

/-!
# Instants

A moment of universal time to the nanosecond, and its text in the notation of RFC 3339. A leap
second is the last second of its minute with a nanosecond count of a whole second or more.
-/

namespace RenderKit.Time

/-- A moment of universal time: days from 1970, the second of the day and the nanosecond. -/
structure Instant where
  day : Int
  second : Nat
  nanosecond : Nat := 0
deriving DecidableEq, Repr

namespace Instant

/-- A number in decimal with zeros in front up to a width. -/
def padded (width n : Nat) : String :=
  let digits := toString n
  String.ofList (List.replicate (width - digits.length) '0') ++ digits

/-- A year in four digits; outside of those it carries its sign. -/
def yearText (year : Int) : String :=
  if 0 ≤ year ∧ year ≤ 9999 then padded 4 year.toNat
  else (if year < 0 then "-" else "+") ++ padded 4 year.natAbs

/-- A fraction of a second in no, three, six or nine digits, the fewest that hold it. -/
def fractionText (nanosecond : Nat) : String :=
  if nanosecond = 0 then ""
  else if nanosecond % 1000000 = 0 then "." ++ padded 3 (nanosecond / 1000000)
  else if nanosecond % 1000 = 0 then "." ++ padded 6 (nanosecond / 1000)
  else "." ++ padded 9 nanosecond

/-- The nanoseconds of a second. -/
def billion : Nat := 1000000000

/-- The text of an instant up to its zone. -/
def localText (t : Instant) : String :=
  let date := Date.ofDays t.day
  let leap := billion ≤ t.nanosecond
  let second := t.second % 60 + if leap then 1 else 0
  let nanosecond := if leap then t.nanosecond - billion else t.nanosecond
  yearText date.year ++ "-" ++ padded 2 date.month ++ "-" ++ padded 2 date.day ++ "T"
    ++ padded 2 (t.second / 3600) ++ ":" ++ padded 2 (t.second / 60 % 60) ++ ":"
    ++ padded 2 second ++ fractionText nanosecond

/-- The text of an instant, its zone as a letter. -/
def text (t : Instant) : String :=
  t.localText ++ "Z"

/-- The text of an instant, its zone as an offset of zero. -/
def offsetText (t : Instant) : String :=
  t.localText ++ "+00:00"

end Instant

end RenderKit.Time
