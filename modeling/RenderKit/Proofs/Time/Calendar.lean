import RenderKit.Time.Calendar
import Mathlib.Order.Basic

/-!
# Days and dates

Every day has a date that exists, and the date has that day back (`toDays_ofDays`). A day of an era
falls in a century of it, there in a group of four years with one leap day, there in a year, and
the leap day is the last of its year.
-/

namespace RenderKit.Time

/-- A day of an era by century, group of four years, year of the group and day of the year. -/
structure EraDay (dayOfEra century group year day : Int) : Prop where
  eq : dayOfEra = 36524 * century + 1461 * group + 365 * year + day
  century_mem : 0 ≤ century ∧ century ≤ 3
  group_mem : 0 ≤ group ∧ group ≤ 24
  year_mem : 0 ≤ year ∧ year ≤ 3
  day_nonneg : 0 ≤ day
  day_le : day ≤ 364 ∨ day = 365 ∧ year = 3 ∧ (group ≤ 23 ∨ century = 3)

theorem exists_eraDay {n : Int} (hlow : 0 ≤ n) (hhigh : n < Date.daysOfEra) :
    ∃ century group year day, EraDay n century group year day := by
  rw [Date.daysOfEra] at hhigh
  -- The last century and the last year of a group have a day more than the others.
  obtain ⟨c, r, hn, hc, hr⟩ : ∃ c r, n = 36524 * c + r ∧ (0 ≤ c ∧ c ≤ 3) ∧
      0 ≤ r ∧ (r < 36524 ∨ c = 3 ∧ r = 36524) := by
    rcases eq_or_ne n 146096 with h | h
    · exact ⟨3, 36524, by omega⟩
    · exact ⟨n / 36524, n % 36524, by omega⟩
  obtain ⟨y, d, hs, hy, hd⟩ : ∃ y d, r % 1461 = 365 * y + d ∧ (0 ≤ y ∧ y ≤ 3) ∧
      0 ≤ d ∧ (d ≤ 364 ∨ d = 365 ∧ y = 3) := by
    rcases eq_or_ne (r % 1461) 1460 with h | h
    · exact ⟨3, 365, by omega⟩
    · exact ⟨r % 1461 / 365, r % 1461 % 365, by omega⟩
  exact ⟨c, r / 1461, y, d, by omega, hc, by omega, hy, hd.1, by omega⟩

namespace EraDay

variable {n c q y d : Int}

/-- The year of the era is found by taking the leap days out. -/
theorem yearOfEra_eq (h : EraDay n c q y d) :
    (n - n / 1460 + n / 36524 - n / 146096) / 365 = 100 * c + 4 * q + y := by
  obtain ⟨hn, hc, hq, hy, hd, hlast⟩ := h
  have hcenturies : n / 36524 - n / 146096 = c := by
    have hr : 0 ≤ 1461 * q + 365 * y + d ∧ 1461 * q + 365 * y + d ≤ 36524 := by omega
    have hfull : 1461 * q + 365 * y + d = 36524 → c = 3 := by omega
    rcases eq_or_ne n 146096 with h | h
    · subst h
      omega
    · have hzero : n / 146096 = 0 := by omega
      omega
  have hgroups : n / 1460 = 25 * c + q + (24 * c + q + 365 * y + d) / 1460 := by omega
  omega

/-- The day of the year is what the years before it leave. -/
theorem dayOfYear_eq (h : EraDay n c q y d) :
    n - (365 * (100 * c + 4 * q + y) + (100 * c + 4 * q + y) / 4 - (100 * c + 4 * q + y) / 100) =
      d := by
  obtain ⟨hn, hc, hq, hy, -, -⟩ := h
  omega

/-- The twenty-ninth of February is there in the years that have one. -/
theorem isLeap (h : EraDay n c q y d) (hd : d = 365) (era : Int) :
    Time.isLeap (100 * c + 4 * q + y + era * 400 + 1) = true := by
  obtain ⟨-, hc, hq, hy, -, hlast⟩ := h
  simp only [Time.isLeap, Bool.and_eq_true, Bool.or_eq_true, beq_iff_eq, bne_iff_ne]
  omega

theorem day_le_365 (h : EraDay n c q y d) : d ≤ 365 := by
  have := h.day_le
  omega

end EraDay

/-- No month is longer than thirty-one days. -/
theorem daysInMonth_le (year : Int) (month : Nat) : daysInMonth year month ≤ 31 := by
  rw [daysInMonth]
  split
  · split <;> decide
  · split <;> decide

namespace Date

/-- The month counted from March and the day of the month, counted from zero, that a day of the
year falls in. -/
private theorem exists_month {d : Int} (hlow : 0 ≤ d) (hhigh : d ≤ 365) :
    ∃ month day : Nat, (5 * d + 2) / 153 = month ∧ d = (153 * month + 2) / 5 + day ∧
      month < 12 ∧ day < 31 ∧
      (month = 1 ∨ month = 3 ∨ month = 6 ∨ month = 8 → day < 30) ∧
      (month = 11 → day < 29 ∧ (day = 28 → d = 365)) :=
  ⟨((5 * d + 2) / 153).toNat, (d - (153 * ((5 * d + 2) / 153) + 2) / 5).toNat, by omega⟩

/-- A day in an era, and the date that is made of its parts. -/
private theorem exists_ofDays (days : Int) :
    ∃ era n c q y d : Int, ∃ month day : Nat,
      days + epoch = era * daysOfEra + n ∧ EraDay n c q y d ∧
      d = (153 * month + 2) / 5 + day ∧ month < 12 ∧ day < 31 ∧
      (month = 1 ∨ month = 3 ∨ month = 6 ∨ month = 8 → day < 30) ∧
      (month = 11 → day < 29 ∧ (day = 28 → d = 365)) ∧
      ofDays days =
        if month < 10 then ⟨100 * c + 4 * q + y + era * 400, month + 3, day + 1⟩
        else ⟨100 * c + 4 * q + y + era * 400 + 1, month - 9, day + 1⟩ := by
  have hpos : 0 < daysOfEra := by decide
  have hera : (days + epoch).fdiv daysOfEra = (days + epoch) / daysOfEra :=
    Int.fdiv_eq_ediv_of_nonneg _ (Int.le_of_lt hpos)
  have hn : days + epoch - (days + epoch) / daysOfEra * daysOfEra =
      (days + epoch) % daysOfEra := by
    rw [Int.emod_def, Int.mul_comm]
  obtain ⟨c, q, y, d, h⟩ := exists_eraDay (Int.emod_nonneg _ (Int.ne_of_gt hpos))
    (Int.emod_lt_of_pos (days + epoch) hpos)
  obtain ⟨month, day, hmonth, hday, hlt, hdays⟩ := exists_month h.day_nonneg h.day_le_365
  refine ⟨(days + epoch) / daysOfEra, (days + epoch) % daysOfEra, c, q, y, d, month, day,
    (Int.ediv_mul_add_emod ..).symm, h, hday, hlt, hdays.1, hdays.2.1, hdays.2.2, ?_⟩
  simp only [ofDays, hera, hn, h.yearOfEra_eq, h.dayOfYear_eq, hmonth]
  have hday' : (d - (153 * (month : Int) + 2) / 5 + 1).toNat = day + 1 := by omega
  have hten : (month : Int) < 10 ↔ month < 10 := by omega
  simp only [hday', hten]
  split
  · rw [Date.mk.injEq]
    omega
  · rw [Date.mk.injEq]
    omega

theorem isValid_mk {year : Int} {month day : Nat} :
    (Date.mk year month day).isValid = true ↔
      1 ≤ month ∧ month ≤ 12 ∧ 1 ≤ day ∧ day ≤ daysInMonth year month := by
  simp only [isValid, Bool.and_eq_true, decide_eq_true_eq, and_assoc]

/-- The date of a day exists. -/
theorem isValid_ofDays (days : Int) : (ofDays days).isValid = true := by
  obtain ⟨era, n, c, q, y, d, month, day, -, h, -, hmonth, hday, hthirty, hleap, heq⟩ :=
    exists_ofDays days
  rw [heq]
  rcases Nat.lt_or_ge month 10 with hten | hten
  · have hfeb : month + 3 ≠ 2 := by omega
    rw [if_pos hten, isValid_mk, daysInMonth, if_neg hfeb]
    split <;> omega
  · rw [if_neg (Nat.not_lt.mpr hten), isValid_mk]
    obtain rfl | rfl : month = 10 ∨ month = 11 := by omega
    · exact ⟨by decide, by decide, Nat.succ_pos day, hday⟩
    · refine ⟨by decide, by decide, Nat.succ_pos day, ?_⟩
      rw [daysInMonth, if_pos rfl]
      obtain ⟨hlt, hlast⟩ := hleap rfl
      rcases Nat.lt_or_ge day 28 with hshort | hlong
      · split <;> omega
      · rw [if_pos (h.isLeap (hlast (by omega)) era)]
        exact hlt

/-- The date of a day is that many days from 1970. -/
theorem toDays_ofDays (days : Int) : (ofDays days).toDays = days := by
  obtain ⟨era, n, c, q, y, d, month, day, hdays, h, hd, hmonth, -, -, -, heq⟩ :=
    exists_ofDays days
  have hcentury := h.century_mem
  have hgroup := h.group_mem
  have hyear := h.year_mem
  have hback := h.dayOfYear_eq
  rw [heq]
  have hera : (100 * c + 4 * q + y + era * 400).fdiv 400 = era := by
    rw [Int.fdiv_eq_ediv_of_nonneg _ (by decide)]
    omega
  split
  · next hten =>
    have hmarch : ¬ month + 3 ≤ 2 := by omega
    simp only [toDays, if_neg hmarch, hera]
    omega
  · next hten =>
    have hmarch : month - 9 ≤ 2 := by omega
    simp only [toDays, if_pos hmarch, Int.add_sub_cancel, hera]
    omega

/-- A year's days are counted in its eras. -/
theorem bounds_of_year {days : Int} {low high : Int} (hlow : 400 * low ≤ (ofDays days).year)
    (hhigh : (ofDays days).year < 400 * high) :
    (low - 1) * daysOfEra ≤ days + epoch ∧ days + epoch < high * daysOfEra := by
  obtain ⟨era, n, c, q, y, d, month, day, hdays, h, -, -, -, -, -, heq⟩ := exists_ofDays days
  obtain ⟨hn, hc, hq, hy, hd, hlast⟩ := h
  have hyear : (ofDays days).year = 100 * c + 4 * q + y + era * 400 ∨
      (ofDays days).year = 100 * c + 4 * q + y + era * 400 + 1 := by
    rw [heq]
    split
    · exact .inl rfl
    · exact .inr rfl
  rw [daysOfEra] at hdays ⊢
  omega

end Date

end RenderKit.Time
