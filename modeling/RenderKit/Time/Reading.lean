import RenderKit.Text.Blank
import RenderKit.Time.Instant

/-!
# Reading instants

Date, time and zone as RFC 3339 writes them, read with some slack: numbers may have fewer digits
than usual, a year with a sign any number of them, blanks may stand around the marks, and a zone
may be called by its letter, by its name or by its offset, with or without marks between hours and
minutes. An instant outside of the years that are kept is refused.
-/

namespace RenderKit.Time

open RenderKit.Text (trimStart isBlank)

/-- A number of at most `width` digits at the front of a text, and what follows it. -/
def takeNumber (width : Nat) (cs : List Char) : Option (Nat × List Char) :=
  let digits := (cs.take width).takeWhile Char.isDigit
  if digits.isEmpty then none
  else
    some (digits.foldl (fun n c => 10 * n + (c.toNat - '0'.toNat)) 0, cs.drop digits.length)

/-- The text behind a mark at its front. -/
def takeMark (mark : Char) : List Char → Option (List Char)
  | c :: rest => if c = mark then some rest else none
  | [] => none

/-- A year: behind a sign any number of digits, else at most four. -/
def takeYear (cs : List Char) : Option (Int × List Char) :=
  match trimStart cs with
  | '-' :: rest => (takeNumber rest.length rest).map fun (n, rest) => (-(n : Int), rest)
  | '+' :: rest => (takeNumber rest.length rest).map fun (n, rest) => ((n : Int), rest)
  | cs => (takeNumber 4 cs).map fun (n, rest) => ((n : Int), rest)

/-- A number of at most two digits behind blanks. -/
def takeField (cs : List Char) : Option (Nat × List Char) :=
  takeNumber 2 (trimStart cs)

/-- A mark behind blanks, and the field behind it. -/
def takeMarkedField (mark : Char) (cs : List Char) : Option (Nat × List Char) :=
  takeMark mark (trimStart cs) >>= takeField

/-- A date in year, month and day. -/
def takeDate (cs : List Char) : Option (Date × List Char) := do
  let (year, cs) ← takeYear cs
  let (month, cs) ← takeMarkedField '-' cs
  let (day, cs) ← takeMarkedField '-' cs
  return (⟨year, month, day⟩, cs)

/-- A fraction of a second in nanoseconds; digits behind the ninth do not count. -/
def takeFractionOfSecond : List Char → Option (Nat × List Char)
  | '.' :: rest => do
    let (n, after) ← takeNumber 9 rest
    return (n * Nat.pow 10 (9 - (rest.length - after.length)), after.dropWhile Char.isDigit)
  | cs => some (0, cs)

/-- A time of day in seconds and nanoseconds. The sixtieth second is a leap second. -/
def takeTime (cs : List Char) : Option (Nat × Nat × List Char) := do
  let (hour, cs) ← takeField cs
  let (minute, cs) ← takeMarkedField ':' cs
  let (second, cs) ← takeMarkedField ':' cs
  let (nanosecond, cs) ← takeFractionOfSecond cs
  if 23 < hour || 59 < minute || 60 < second then none
  if second = 60 then
    return (hour * 3600 + minute * 60 + 59, nanosecond + Instant.billion, cs)
  return (hour * 3600 + minute * 60 + second, nanosecond, cs)

/-- Two digits at the front of a text. -/
def takePair : List Char → Option (Nat × List Char)
  | a :: b :: rest =>
    if a.isDigit && b.isDigit then
      some ((a.toNat - '0'.toNat) * 10 + (b.toNat - '0'.toNat), rest)
    else none
  | _ => none

/-- Seconds of an offset behind its sign. -/
def takeOffset (cs : List Char) : Option (Nat × List Char) := do
  let (hours, cs) ← takePair cs
  let (minutes, cs) ← takePair (cs.dropWhile fun c => c == ':' || isBlank c)
  if 59 < minutes then none
  return (hours * 3600 + minutes * 60, cs)

/-- The seconds that a zone is ahead of universal time. -/
def takeZone : List Char → Option (Int × List Char)
  | 'Z' :: rest | 'z' :: rest => some (0, rest)
  | '+' :: rest => (takeOffset rest).map fun (n, rest) => ((n : Int), rest)
  | '-' :: rest | '\u2212' :: rest => (takeOffset rest).map fun (n, rest) => (-(n : Int), rest)
  | a :: b :: c :: rest =>
    if a.toUpper = 'U' ∧ b.toUpper = 'T' ∧ c.toUpper = 'C' then some (0, rest) else none
  | _ => none

/-- The seconds of a day. -/
def secondsOfDay : Nat := 86400

/-- The first and the last day that are kept, at the start of the year -262143 and at the end of
the year 262142. -/
def keptDays : Int × Int :=
  (Date.toDays ⟨-262143, 1, 1⟩, Date.toDays ⟨262142, 12, 31⟩)

/-- Whether a day is kept. -/
def isKept (day : Int) : Bool :=
  keptDays.1 ≤ day && day ≤ keptDays.2

/-- The instant that a text names. -/
def Instant.ofString? (s : String) : Option Instant := do
  let (date, cs) ← takeDate s.toList
  let cs ← match cs with
    | 'T' :: rest | 't' :: rest | ' ' :: rest => some rest
    | _ => none
  let (second, nanosecond, cs) ← takeTime cs
  let (offset, cs) ← takeZone (trimStart cs)
  if !(trimStart cs).isEmpty then none
  if !date.isValid || !isKept date.toDays then none
  if (secondsOfDay : Int) ≤ offset.natAbs then none
  let shifted : Int := (second : Int) - offset
  let day := date.toDays + shifted.fdiv secondsOfDay
  if !isKept day then none
  return ⟨day, (shifted.fmod secondsOfDay).toNat, nanosecond⟩

end RenderKit.Time
