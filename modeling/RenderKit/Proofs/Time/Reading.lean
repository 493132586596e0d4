import RenderKit.Proofs.Number.Digits
import RenderKit.Proofs.Time.Calendar
import RenderKit.Time.Reading
import Mathlib.Data.List.TakeWhile

/-!
# Instants are written and read

A regular instant, one that a clock can show, is read back from its text (`ofString?_text`). Each
part of the text is read in front of whatever goes on without a digit. Nothing but regular instants
is read (`regular_of_ofString?`).
-/

namespace RenderKit.Time

open Json (Numeral)
open Json.Token (NoDigit)
open RenderKit.Text (trimStart isBlank)

/-! ### Padded numbers -/

/-- The digits of a number with zeros in front up to a width. -/
def paddedDigits (width n : Nat) : List (Fin 10) :=
  List.replicate (width - (Numeral.digitsOf n).length) Numeral.zeroDigit ++ Numeral.digitsOf n

theorem toList_padded (width n : Nat) :
    (Instant.padded width n).toList = (paddedDigits width n).map Numeral.digitChar := by
  have hdigits : (toString n).toList = (Numeral.digitsOf n).map Numeral.digitChar := by
    rw [Numeral.map_digitChar_digitsOf]
    exact String.toList_ofList
  have hlength : (toString n).length = (Numeral.digitsOf n).length := by
    rw [← String.length_toList, hdigits, List.length_map]
  rw [Instant.padded, String.toList_append, String.toList_ofList, hdigits, hlength, paddedDigits,
    List.map_append, List.map_replicate]
  rfl

theorem ofDigits_paddedDigits (width n : Nat) :
    Numeral.ofDigits (paddedDigits width n) = n := by
  have hzeros : ∀ k, (List.replicate k Numeral.zeroDigit).foldl
      (fun n (d : Fin 10) ↦ 10 * n + d.val) 0 = 0 := by
    intro k
    induction k with
    | zero => rfl
    | succ k ih => exact ih
  rw [paddedDigits, Numeral.ofDigits, List.foldl_append, hzeros]
  exact Numeral.ofDigits_digitsOf n

theorem length_paddedDigits {width n : Nat} (hw : 0 < width) (hn : n < 10 ^ width) :
    (paddedDigits width n).length = width := by
  have hle := (Numeral.length_digitsOf_le_iff hw).mpr hn
  rw [paddedDigits, List.length_append, List.length_replicate]
  omega

theorem paddedDigits_ne_nil (width n : Nat) : paddedDigits width n ≠ [] :=
  List.append_ne_nil_of_right_ne_nil _ (Numeral.digitsOf_ne_nil n)

/-- A padded number starts with a digit, which is no blank and no sign. -/
theorem exists_padded_cons (width n : Nat) :
    ∃ c cs, (Instant.padded width n).toList = c :: cs ∧ isBlank c = false ∧ c ≠ '-' ∧ c ≠ '+' := by
  obtain ⟨d, ds, hd⟩ := List.exists_cons_of_ne_nil (paddedDigits_ne_nil width n)
  refine ⟨Numeral.digitChar d, ds.map Numeral.digitChar, ?_, ?_⟩
  · rw [toList_padded, hd, List.map_cons]
  · clear hd
    revert d
    decide

/-- A number in front of something else is read whole when it is not too long. -/
theorem takeNumber_padded {limit width n : Nat} {rest : List Char}
    (hlimit : (paddedDigits width n).length ≤ limit) (h : NoDigit rest) :
    takeNumber limit ((Instant.padded width n).toList ++ rest) = some (n, rest) := by
  have hrest : NoDigit (rest.take (limit - (paddedDigits width n).length)) := by
    intro c hc
    rw [List.head?_take] at hc
    split at hc
    · cases hc
    · exact h c hc
  have hdigits := (Json.Token.takeWhile_digits (paddedDigits width n) hrest).1
  have hvalue : ∀ d : Fin 10, (Numeral.digitChar d).toNat - '0'.toNat = d.val := by decide
  rw [takeNumber, toList_padded, List.take_append, List.take_of_length_le (by simpa using hlimit),
    List.length_map, hdigits]
  simp only [List.isEmpty_map, List.isEmpty_eq_false_iff.mpr (paddedDigits_ne_nil width n),
    Bool.false_eq_true, if_false, List.foldl_map, hvalue, List.length_map]
  rw [← List.length_map Numeral.digitChar, List.drop_left]
  exact congrArg (fun k ↦ some (k, rest)) (ofDigits_paddedDigits width n)

/-- A mark between numbers is no digit. -/
private theorem noDigit_cons {c : Char} (h : c.isDigit = false) (rest : List Char) :
    NoDigit (c :: rest) := by
  intro c' hc
  rw [List.head?_cons, Option.some.injEq] at hc
  exact hc ▸ h

/-- A text that starts with no blank has none to lose. -/
private theorem trimStart_cons {c : Char} (h : isBlank c = false) (cs : List Char) :
    trimStart (c :: cs) = c :: cs := by
  rw [trimStart, List.dropWhile_cons_of_neg (by simp [h])]

private theorem trimStart_padded (width n : Nat) (rest : List Char) :
    trimStart ((Instant.padded width n).toList ++ rest) =
      (Instant.padded width n).toList ++ rest := by
  obtain ⟨c, cs, hc, hblank, -⟩ := exists_padded_cons width n
  rw [hc, List.cons_append, trimStart_cons hblank]

theorem takeField_padded {n : Nat} {rest : List Char} (hn : n < 100) (h : NoDigit rest) :
    takeField ((Instant.padded 2 n).toList ++ rest) = some (n, rest) := by
  rw [takeField, trimStart_padded]
  exact takeNumber_padded (Nat.le_of_eq (length_paddedDigits Nat.two_pos hn)) h

theorem takeMarkedField_padded {mark : Char} {n : Nat} {rest : List Char}
    (hmark : isBlank mark = false) (hn : n < 100) (h : NoDigit rest) :
    takeMarkedField mark (mark :: ((Instant.padded 2 n).toList ++ rest)) = some (n, rest) := by
  rw [takeMarkedField, trimStart_cons hmark, takeMark, if_pos rfl, Option.bind_eq_bind,
    Option.bind_some]
  exact takeField_padded hn h

/-! ### Dates -/

/-- A year of at most four digits has no sign. -/
private theorem takeYear_unsigned {n : Nat} {rest : List Char} (hn : n < 10 ^ 4)
    (h : NoDigit rest) :
    takeYear ((Instant.padded 4 n).toList ++ rest) = some ((n : Int), rest) := by
  obtain ⟨c, cs, hc, -, hminus, hplus⟩ := exists_padded_cons 4 n
  have hnumber : takeNumber 4 ((Instant.padded 4 n).toList ++ rest) = some (n, rest) :=
    takeNumber_padded (Nat.le_of_eq (length_paddedDigits (by decide) hn)) h
  rw [takeYear, trimStart_padded]
  split
  · next heq =>
    rw [hc, List.cons_append, List.cons.injEq] at heq
    exact absurd heq.1 hminus
  · next heq =>
    rw [hc, List.cons_append, List.cons.injEq] at heq
    exact absurd heq.1 hplus
  · rw [hnumber, Option.map_some]

/-- Behind a sign all digits are read. -/
private theorem takeNumber_signed (n : Nat) {rest : List Char} (h : NoDigit rest) :
    takeNumber ((Instant.padded 4 n).toList ++ rest).length
      ((Instant.padded 4 n).toList ++ rest) = some (n, rest) := by
  apply takeNumber_padded _ h
  rw [List.length_append, toList_padded, List.length_map]
  exact Nat.le_add_right ..

/-- A year is read with its sign or without. -/
theorem takeYear_yearText (year : Int) {rest : List Char} (h : NoDigit rest) :
    takeYear ((Instant.yearText year).toList ++ rest) = some (year, rest) := by
  rw [Instant.yearText]
  split
  · next hyear =>
    rw [takeYear_unsigned (by omega) h, Int.toNat_of_nonneg hyear.1]
  · next hyear =>
    have hnumber := takeNumber_signed year.natAbs h
    rw [String.toList_append, List.append_assoc]
    generalize (Instant.padded 4 year.natAbs).toList ++ rest = cs at hnumber
    split
    · next hneg =>
      have hsign : "-".toList ++ cs = '-' :: cs := rfl
      have habs : -(year.natAbs : Int) = year := by omega
      rw [hsign, takeYear, trimStart_cons (by decide)]
      simp only [hnumber, Option.map_some, habs]
    · next hneg =>
      have hsign : "+".toList ++ cs = '+' :: cs := rfl
      have habs : (year.natAbs : Int) = year := by omega
      rw [hsign, takeYear, trimStart_cons (by decide)]
      simp only [hnumber, Option.map_some, habs]

/-- A date that exists is read. -/
theorem takeDate_append {date : Date} {rest : List Char} (hdate : date.isValid = true)
    (h : NoDigit rest) :
    takeDate ((Instant.yearText date.year).toList ++ '-' ::
        ((Instant.padded 2 date.month).toList ++ '-' ::
          ((Instant.padded 2 date.day).toList ++ rest))) = some (date, rest) := by
  obtain ⟨year, month, day⟩ := date
  obtain ⟨-, hmonth, -, hday⟩ := Date.isValid_mk.mp hdate
  have hdays := daysInMonth_le year month
  have hmark : isBlank '-' = false := by decide
  have hnext (cs : List Char) : NoDigit ('-' :: cs) := noDigit_cons (by decide) cs
  simp only [takeDate, takeYear_yearText _ (hnext _), Option.bind_eq_bind, Option.bind_some,
    takeMarkedField_padded hmark (show month < 100 by omega) (hnext _),
    takeMarkedField_padded hmark (show day < 100 by omega) h]
  rfl

/-! ### Times of day -/

/-- A fraction of a second is read from as many digits as hold it. -/
private theorem takeFractionOfSecond_padded {width n : Nat} {rest : List Char} (hw : 0 < width)
    (hwidth : width ≤ 9) (hn : n < 10 ^ 9) (hdiv : n % 10 ^ (9 - width) = 0) (h : NoDigit rest) :
    takeFractionOfSecond (("." ++ Instant.padded width (n / 10 ^ (9 - width))).toList ++ rest) =
      some (n, rest) := by
  have hlt : n / 10 ^ (9 - width) < 10 ^ width := by
    apply Nat.div_lt_of_lt_mul
    rwa [← Nat.pow_add, Nat.sub_add_cancel hwidth]
  have hlength := length_paddedDigits hw hlt
  have hnumber := takeNumber_padded (Nat.le_trans (Nat.le_of_eq hlength) hwidth) h
  have hrest : rest.dropWhile Char.isDigit = rest := (Json.Token.takeWhile_digits [] h).2
  have htaken : ((Instant.padded width (n / 10 ^ (9 - width))).toList ++ rest).length -
      rest.length = width := by
    rw [List.length_append, toList_padded, List.length_map, hlength, Nat.add_sub_cancel]
  have hback : n / 10 ^ (9 - width) * Nat.pow 10 (9 - width) = n :=
    Nat.div_mul_cancel (Nat.dvd_of_mod_eq_zero hdiv)
  have hpoint : (".").toList = ['.'] := rfl
  rw [String.toList_append, List.append_assoc, hpoint]
  simp only [List.cons_append, List.nil_append, takeFractionOfSecond, hnumber,
    Option.bind_eq_bind, Option.bind_some, htaken, hrest, hback]
  rfl

/-- A fraction of a second is read, however many digits it is written in. -/
theorem takeFractionOfSecond_fractionText {n : Nat} (hn : n < Instant.billion)
    (rest : List Char) :
    takeFractionOfSecond ((Instant.fractionText n).toList ++ 'Z' :: rest) =
      some (n, 'Z' :: rest) := by
  have h : NoDigit ('Z' :: rest) := noDigit_cons (by decide) rest
  rw [Instant.fractionText]
  split
  · next hzero =>
    subst hzero
    rfl
  · split
    · next hmilli =>
      exact takeFractionOfSecond_padded (by decide : 0 < 3) (by decide) hn hmilli h
    · split
      · next hmicro =>
        exact takeFractionOfSecond_padded (by decide : 0 < 6) (by decide) hn hmicro h
      · have hnano := takeFractionOfSecond_padded (by decide : 0 < 9) (by decide) hn
          (Nat.mod_one n) h
        rwa [Nat.sub_self, Nat.pow_zero, Nat.div_one] at hnano

/-- What follows the seconds of a time of day goes on without a digit. -/
private theorem noDigit_fractionText (n : Nat) (rest : List Char) :
    NoDigit ((Instant.fractionText n).toList ++ 'Z' :: rest) := by
  have hpoint (s : String) : NoDigit (("." ++ s).toList ++ 'Z' :: rest) := by
    rw [String.toList_append, List.append_assoc]
    exact noDigit_cons (by decide) _
  rw [Instant.fractionText]
  split
  · exact noDigit_cons (by decide) _
  · split
    · exact hpoint _
    · split
      · exact hpoint _
      · exact hpoint _

/-- A time of day is read; a leap second counts as the last second of its minute. -/
theorem takeTime_append {hour minute second nanosecond : Nat} (hhour : hour ≤ 23)
    (hminute : minute ≤ 59) (hsecond : second ≤ 60) (hnano : nanosecond < Instant.billion)
    (rest : List Char) :
    takeTime ((Instant.padded 2 hour).toList ++ ':' ::
        ((Instant.padded 2 minute).toList ++ ':' ::
          ((Instant.padded 2 second).toList ++
            ((Instant.fractionText nanosecond).toList ++ 'Z' :: rest)))) =
      if second = 60 then
        some (hour * 3600 + minute * 60 + 59, nanosecond + Instant.billion, 'Z' :: rest)
      else some (hour * 3600 + minute * 60 + second, nanosecond, 'Z' :: rest) := by
  have hmark : isBlank ':' = false := by decide
  have hnext (cs : List Char) : NoDigit (':' :: cs) := noDigit_cons (by decide) cs
  have hvalid : (decide (23 < hour) || decide (59 < minute) || decide (60 < second)) = false := by
    simp only [Bool.or_eq_false_iff, decide_eq_false_iff_not]
    omega
  simp only [takeTime, takeField_padded (show hour < 100 by omega) (hnext _),
    takeMarkedField_padded hmark (show minute < 100 by omega) (hnext _),
    takeMarkedField_padded hmark (show second < 100 by omega) (noDigit_fractionText _ _),
    takeFractionOfSecond_fractionText hnano, Option.bind_eq_bind, Option.bind_some, hvalid,
    Bool.false_eq_true, if_false]
  rfl

/-! ### Instants -/

/-- The years of four digits are kept. -/
theorem isKept_of_year {day : Int} (hlow : 0 ≤ (Date.ofDays day).year)
    (hhigh : (Date.ofDays day).year ≤ 9999) : isKept day = true := by
  have hkept : keptDays.1 ≤ -1000000 ∧ 10000000 ≤ keptDays.2 := by decide
  obtain ⟨hfirst, hlast⟩ : (0 - 1) * Date.daysOfEra ≤ day + Date.epoch ∧
      day + Date.epoch < 25 * Date.daysOfEra :=
    Date.bounds_of_year hlow (Int.lt_of_le_of_lt hhigh (by decide))
  rw [Date.daysOfEra, Date.epoch] at hfirst hlast
  rw [isKept, Bool.and_eq_true, decide_eq_true_eq, decide_eq_true_eq]
  omega

namespace Instant

/-- An instant that a clock can show, in the years that are kept, among them those of four digits
(`isKept_of_year`): the second is one of a day, and a leap second ends its minute. -/
structure Regular (t : Instant) : Prop where
  kept : isKept t.day = true
  second_lt : t.second < secondsOfDay
  nanosecond_lt : t.nanosecond < billion ∨ t.nanosecond < 2 * billion ∧ t.second % 60 = 59

instance (t : Instant) : Decidable t.Regular :=
  decidable_of_iff (isKept t.day = true ∧ t.second < secondsOfDay ∧
      (t.nanosecond < billion ∨ t.nanosecond < 2 * billion ∧ t.second % 60 = 59))
    ⟨fun h ↦ ⟨h.1, h.2.1, h.2.2⟩, fun h ↦ ⟨h.1, h.2, h.3⟩⟩

/-- The parts of the text of an instant, one behind the other. -/
private theorem toList_text (t : Instant) (date : Date) (second nanosecond : Nat)
    (hdate : Date.ofDays t.day = date)
    (hsecond : t.second % 60 + (if billion ≤ t.nanosecond then 1 else 0) = second)
    (hnano : (if billion ≤ t.nanosecond then t.nanosecond - billion else t.nanosecond) =
      nanosecond) :
    t.text.toList = (yearText date.year).toList ++ '-' :: ((padded 2 date.month).toList ++ '-' ::
      ((padded 2 date.day).toList ++ 'T' :: ((padded 2 (t.second / 3600)).toList ++ ':' ::
        ((padded 2 (t.second / 60 % 60)).toList ++ ':' :: ((padded 2 second).toList ++
          ((fractionText nanosecond).toList ++ 'Z' :: [])))))) := by
  subst hdate hsecond hnano
  have hdash : "-".toList = ['-'] := rfl
  have htime : "T".toList = ['T'] := rfl
  have hcolon : ":".toList = [':'] := rfl
  have hzone : "Z".toList = ['Z'] := rfl
  simp only [text, localText, String.toList_append, hdash, htime, hcolon, hzone,
    List.append_assoc, List.cons_append, List.nil_append]

/-- The time of day of a regular instant, from its parts as they are written. -/
private theorem exists_timeParts {t : Instant} (h : t.Regular) :
    ∃ second nanosecond,
      t.second % 60 + (if billion ≤ t.nanosecond then 1 else 0) = second ∧
      (if billion ≤ t.nanosecond then t.nanosecond - billion else t.nanosecond) = nanosecond ∧
      ∀ rest, takeTime ((padded 2 (t.second / 3600)).toList ++ ':' ::
        ((padded 2 (t.second / 60 % 60)).toList ++ ':' :: ((padded 2 second).toList ++
          ((fractionText nanosecond).toList ++ 'Z' :: rest)))) =
            some (t.second, t.nanosecond, 'Z' :: rest) := by
  obtain ⟨-, hsecond, hnano⟩ := h
  rw [secondsOfDay] at hsecond
  by_cases hleap : billion ≤ t.nanosecond
  · have hlast : t.second % 60 = 59 := by omega
    refine ⟨60, t.nanosecond - billion, by rw [if_pos hleap, hlast], if_pos hleap, fun rest ↦ ?_⟩
    rw [takeTime_append (by omega) (by omega) (by omega) (by omega), if_pos rfl]
    have hback : t.second / 3600 * 3600 + t.second / 60 % 60 * 60 + 59 = t.second := by omega
    rw [hback, Nat.sub_add_cancel hleap]
  · refine ⟨t.second % 60, t.nanosecond, by rw [if_neg hleap, Nat.add_zero], if_neg hleap,
      fun rest ↦ ?_⟩
    have hback : t.second / 3600 * 3600 + t.second / 60 % 60 * 60 + t.second % 60 = t.second := by
      omega
    rw [takeTime_append (by omega) (by omega) (by omega) (by omega), if_neg (by omega), hback]

/-- A regular instant is read back from its text. -/
theorem ofString?_text {t : Instant} (h : t.Regular) : ofString? t.text = some t := by
  obtain ⟨second, nanosecond, hsecond, hnano, htime⟩ := exists_timeParts h
  have hvalid := Date.isValid_ofDays t.day
  have hdays := Date.toDays_ofDays t.day
  rw [ofString?, toList_text t _ second nanosecond rfl hsecond hnano,
    takeDate_append hvalid (noDigit_cons (by decide) _)]
  generalize Date.ofDays t.day = date at hvalid hdays
  have hzone : takeZone (trimStart ['Z']) = some (0, []) := rfl
  have hend : (trimStart []).isEmpty = true := rfl
  have hoffset : ¬ (secondsOfDay : Int) ≤ (Int.natAbs 0 : Nat) := by decide
  have hlow : (0 : Int) ≤ t.second := Int.natCast_nonneg _
  have hhigh : (t.second : Int) < secondsOfDay := Int.ofNat_lt.mpr h.second_lt
  have hday : (t.second - 0 : Int).fdiv secondsOfDay = 0 := by
    rw [Int.sub_zero, Int.fdiv_eq_ediv_of_nonneg _ (by decide), Int.ediv_eq_zero_of_lt hlow hhigh]
  have hrest : (t.second - 0 : Int).fmod secondsOfDay = t.second := by
    rw [Int.sub_zero, Int.fmod_eq_emod_of_nonneg _ (by decide), Int.emod_eq_of_lt hlow hhigh]
  simp only [Option.bind_eq_bind, Option.bind_some, htime, hzone, hvalid, hdays, h.kept, hend,
    hoffset, hday, hrest, Int.add_zero, Int.toNat_natCast, Bool.not_true, Bool.false_eq_true,
    Bool.or_self, if_false]
  rfl

end Instant

/-! ### Instants that are read -/

/-- Decimal digits behind a number make less of it than the next number with zeros. -/
private theorem foldl_digits_lt {digits : List Char} (h : ∀ c ∈ digits, c.isDigit = true)
    (m : Nat) :
    digits.foldl (fun n c ↦ 10 * n + (c.toNat - '0'.toNat)) m < (m + 1) * 10 ^ digits.length := by
  induction digits generalizing m with
  | nil => simp
  | cons c digits ih =>
    have hc : c.toNat - '0'.toNat < 10 := by
      have hdigit := h c List.mem_cons_self
      simp only [Char.isDigit, Bool.and_eq_true, decide_eq_true_eq, UInt32.le_iff_toNat_le] at hdigit
      exact Nat.lt_succ_of_le (Nat.sub_le_sub_right hdigit.2 _)
    calc digits.foldl (fun n c ↦ 10 * n + (c.toNat - '0'.toNat)) (10 * m + (c.toNat - '0'.toNat))
        < (10 * m + (c.toNat - '0'.toNat) + 1) * 10 ^ digits.length :=
          ih (fun d hd ↦ h d (List.mem_cons_of_mem _ hd)) _
      _ ≤ ((m + 1) * 10) * 10 ^ digits.length := Nat.mul_le_mul_right _ (by omega)
      _ = (m + 1) * 10 ^ (digits.length + 1) := by rw [Nat.pow_succ', Nat.mul_assoc]

/-- A number is below the power of ten of the digits it took. -/
theorem lt_of_takeNumber {width n : Nat} {cs rest : List Char}
    (h : takeNumber width cs = some (n, rest)) :
    cs.length - rest.length ≤ width ∧ n < 10 ^ (cs.length - rest.length) := by
  have hdigits : ∀ c ∈ (cs.take width).takeWhile Char.isDigit, c.isDigit = true :=
    fun _ ↦ List.mem_takeWhile_imp
  have hle : ((cs.take width).takeWhile Char.isDigit).length ≤ (cs.take width).length :=
    (List.takeWhile_sublist _).length_le
  rw [List.length_take] at hle
  rw [takeNumber] at h
  generalize (cs.take width).takeWhile Char.isDigit = digits at h hdigits hle
  split at h
  · cases h
  · cases h
    have htook : cs.length - (cs.drop digits.length).length = digits.length := by
      rw [List.length_drop]
      omega
    rw [htook]
    exact ⟨by omega, by simpa using foldl_digits_lt hdigits 0⟩

/-- A fraction of a second is none of a whole one. -/
theorem lt_of_takeFractionOfSecond {n : Nat} {cs rest : List Char}
    (h : takeFractionOfSecond cs = some (n, rest)) : n < Instant.billion := by
  unfold takeFractionOfSecond at h
  split at h
  · next digits =>
    obtain ⟨⟨m, after⟩, hm, h⟩ := Option.bind_eq_some_iff.mp h
    obtain ⟨hwidth, hlt⟩ := lt_of_takeNumber hm
    cases h
    calc m * 10 ^ (9 - (digits.length - after.length))
        < 10 ^ (digits.length - after.length) * 10 ^ (9 - (digits.length - after.length)) :=
          Nat.mul_lt_mul_of_pos_right hlt (Nat.pow_pos (by decide))
      _ = 10 ^ 9 := by rw [← Nat.pow_add, Nat.add_sub_cancel' hwidth]
  · cases h
    decide

/-- Only the last second of a minute is read as a leap second. -/
theorem leap_of_takeTime {second nanosecond : Nat} {cs rest : List Char}
    (h : takeTime cs = some (second, nanosecond, rest)) :
    nanosecond < Instant.billion ∨ nanosecond < 2 * Instant.billion ∧ second % 60 = 59 := by
  rw [takeTime] at h
  obtain ⟨⟨hour, cs₁⟩, -, h⟩ := Option.bind_eq_some_iff.mp h
  obtain ⟨⟨minute, cs₂⟩, -, h⟩ := Option.bind_eq_some_iff.mp h
  obtain ⟨⟨seconds, cs₃⟩, -, h⟩ := Option.bind_eq_some_iff.mp h
  obtain ⟨⟨fraction, cs₄⟩, hfraction, h⟩ := Option.bind_eq_some_iff.mp h
  have hlt := lt_of_takeFractionOfSecond hfraction
  simp only at h
  split at h
  · cases h
  · split at h
    · cases h
      exact .inr ⟨by omega, by omega⟩
    · cases h
      exact .inl hlt

/-- Zones are ahead by whole minutes. -/
theorem dvd_of_takeOffset {n : Nat} {cs rest : List Char} (h : takeOffset cs = some (n, rest)) :
    60 ∣ n := by
  rw [takeOffset] at h
  obtain ⟨⟨hours, cs₁⟩, -, h⟩ := Option.bind_eq_some_iff.mp h
  obtain ⟨⟨minutes, cs₂⟩, -, h⟩ := Option.bind_eq_some_iff.mp h
  simp only at h
  split at h
  · cases h
  · cases h
    omega

theorem dvd_of_takeZone {offset : Int} {cs rest : List Char}
    (h : takeZone cs = some (offset, rest)) : 60 ∣ offset := by
  have hoffset (sign : Nat → Int) (hsign : ∀ n, (sign n).natAbs = n) {cs : List Char}
      (h : (takeOffset cs).map (fun taken ↦ (sign taken.1, taken.2)) = some (offset, rest)) :
      60 ∣ offset := by
    obtain ⟨⟨n, after⟩, hn, h⟩ := Option.map_eq_some_iff.mp h
    have he : sign n = offset := (Prod.mk.inj h).1
    have hdvd := dvd_of_takeOffset hn
    have habs := hsign n
    omega
  unfold takeZone at h
  split at h
  · cases h
    exact Int.dvd_zero 60
  · cases h
    exact Int.dvd_zero 60
  · exact hoffset Nat.cast Int.natAbs_natCast h
  · exact hoffset (fun n ↦ -(n : Int)) (fun n ↦ by omega) h
  · exact hoffset (fun n ↦ -(n : Int)) (fun n ↦ by omega) h
  · split at h
    · cases h
      exact Int.dvd_zero 60
    · cases h
  · cases h

/-- What is read as an instant is regular: zones shift by whole minutes, so a leap second stays at
the end of its minute. -/
theorem Instant.regular_of_ofString? {s : String} {t : Instant} (h : ofString? s = some t) :
    t.Regular := by
  rw [ofString?] at h
  obtain ⟨⟨date, cs₁⟩, -, h⟩ := Option.bind_eq_some_iff.mp h
  dsimp -zeta only at h
  extract_lets behind at h
  obtain ⟨cs₂, h⟩ : ∃ cs₂, behind cs₂ = some t := by
    split at h
    · exact ⟨_, h⟩
    · exact ⟨_, h⟩
    · exact ⟨_, h⟩
    · cases h
  obtain ⟨⟨second, nanosecond, cs₃⟩, htime, h⟩ := Option.bind_eq_some_iff.mp h
  obtain ⟨⟨offset, cs₄⟩, hzone, h⟩ := Option.bind_eq_some_iff.mp h
  have hleap := leap_of_takeTime htime
  have hminutes := dvd_of_takeZone hzone
  have hday : (secondsOfDay : Int) = 86400 := rfl
  simp only at h
  split at h
  · cases h
  split at h
  · cases h
  split at h
  · cases h
  split at h
  · cases h
  next hkept =>
    cases h
    rw [hday] at hkept ⊢
    rw [Int.fmod_eq_emod_of_nonneg _ (by decide)]
    have hlow := Int.emod_nonneg (second - offset : Int) (by decide : (86400 : Int) ≠ 0)
    have hhigh := Int.emod_lt_of_pos (second - offset : Int) (by decide : (0 : Int) < 86400)
    refine ⟨by simpa using hkept, (Int.toNat_lt hlow).mpr hhigh,
      hleap.imp_right fun hlast ↦ ⟨hlast.1, ?_⟩⟩
    change (_ : Int).toNat % 60 = 59
    omega

end RenderKit.Time
