import RenderKit.Number.Binary
import Mathlib.Algebra.Order.Field.Power
import Mathlib.Tactic.FieldSimp
import Mathlib.Tactic.Linarith
import Mathlib.Tactic.Positivity
import Mathlib.Tactic.Ring

/-!
# Nearest values

The values of a format as rational numbers. A value owns what lies between the midpoints with its
neighbours, and a midpoint itself if its rank is even (`Owned`); what it owns is rounded to it
(`nearest_eq_of_owned`), and nothing else is. So a quotient with few binary digits is not changed by
rounding (`value_nearest_of_exact`), and every other normal one by at most a part in twice the
values of a binade (`Owned.error_le`).
-/

namespace RenderKit.Number

/-- The natural number nearest to a quotient is not more than a half away, and even if it is as much
as that. -/
theorem roundDiv_spec (num : Nat) {den : Nat} (hd : 0 < den) :
    2 * num ≤ 2 * (roundDiv num den * den) + den ∧ 2 * (roundDiv num den * den) ≤ 2 * num + den ∧
      (2 * num = 2 * (roundDiv num den * den) + den ∨ 2 * (roundDiv num den * den) = 2 * num + den →
        roundDiv num den % 2 = 0) := by
  have hsplit := Nat.div_add_mod' num den
  have hmod := Nat.mod_lt num hd
  by_cases hdown : 2 * (num % den) < den ∨ 2 * (num % den) = den ∧ num / den % 2 = 0
  · have hround : roundDiv num den = num / den := if_pos hdown
    rw [hround]
    generalize num / den * den = whole at hsplit ⊢
    omega
  · have hround : roundDiv num den = num / den + 1 := if_neg hdown
    rw [hround, Nat.succ_mul (num / den)]
    generalize num / den * den = whole at hsplit ⊢
    omega

/-! ### Powers of two -/

theorem powerOfTwo_pos (e : Int) : 0 < (powerOfTwo e).1 ∧ 0 < (powerOfTwo e).2 := by
  cases e with
  | ofNat n => exact ⟨Nat.two_pow_pos n, Nat.one_pos⟩
  | negSucc n => exact ⟨Nat.one_pos, Nat.two_pow_pos (n + 1)⟩

theorem powerOfTwo_div (e : Int) :
    ((powerOfTwo e).1 : ℚ) / ((powerOfTwo e).2 : ℚ) = (2 : ℚ) ^ e := by
  cases e with
  | ofNat n => simp [powerOfTwo]
  | negSucc n => simp [powerOfTwo, zpow_negSucc]

/-- The greatest power of two is not above the quotient. -/
theorem powerOfTwo_logTwo_le {num den : Nat} (hn : 0 < num) (hd : 0 < den) :
    (2 : ℚ) ^ logTwo num den ≤ (num : ℚ) / den := by
  have hden : (0 : ℚ) < den := by exact_mod_cast hd
  rw [logTwo]
  dsimp only
  split
  · next hle =>
    have hpos : (0 : ℚ) < (powerOfTwo ((num.log2 : Int) - den.log2)).2 := by
      exact_mod_cast (powerOfTwo_pos _).2
    rw [← powerOfTwo_div, div_le_div_iff₀ hpos hden]
    exact_mod_cast hle
  · have hnum : (2 : ℚ) ^ num.log2 ≤ num := by
      exact_mod_cast Nat.log2_self_le hn.ne'
    have hden' : (den : ℚ) ≤ 2 ^ (den.log2 + 1) := by
      exact_mod_cast Nat.lt_log2_self.le
    have hexponent : (num.log2 : Int) - den.log2 - 1 =
        (num.log2 : Int) - ((den.log2 + 1 : Nat) : Int) := by
      push_cast
      ring
    rw [hexponent, zpow_sub₀ two_ne_zero, zpow_natCast, zpow_natCast]
    exact div_le_div₀ (by positivity) hnum hden hden'

/-- The next power of two is not below it. -/
theorem le_powerOfTwo_logTwo_succ (num : Nat) {den : Nat} (hd : 0 < den) :
    (num : ℚ) / den ≤ 2 ^ (logTwo num den + 1) := by
  have hden : (0 : ℚ) < den := by exact_mod_cast hd
  rw [logTwo]
  dsimp only
  split
  · have hnum : (num : ℚ) ≤ 2 ^ (num.log2 + 1) := by
      exact_mod_cast Nat.lt_log2_self.le
    have hden' : (2 : ℚ) ^ den.log2 ≤ den := by
      exact_mod_cast Nat.log2_self_le hd.ne'
    have hexponent : (num.log2 : Int) - den.log2 + 1 =
        ((num.log2 + 1 : Nat) : Int) - (den.log2 : Int) := by
      push_cast
      ring
    rw [hexponent, zpow_sub₀ two_ne_zero, zpow_natCast, zpow_natCast]
    exact div_le_div₀ (by positivity) hnum (by positivity) hden'
  · next hgt =>
    have hpos : (0 : ℚ) < (powerOfTwo ((num.log2 : Int) - den.log2)).2 := by
      exact_mod_cast (powerOfTwo_pos _).2
    rw [Int.sub_add_cancel, ← powerOfTwo_div, div_le_div_iff₀ hden hpos]
    exact_mod_cast Nat.le_of_not_le hgt

namespace Format

variable {f : Format} {rank : Nat} {q : ℚ}

/-! ### Values and midpoints -/

/-- How often the unit is doubled at a place in a binade behind the first. -/
theorem doublings_binade {q m : Nat} (hm : m < f.binade) :
    f.doublings ((q + 1) * f.binade + m) = q := by
  rw [doublings, Nat.mul_comm, Nat.mul_add_div f.binade_pos, Nat.div_eq_of_lt hm, Nat.add_zero,
    Nat.add_sub_cancel]

/-- The value at a place in a binade behind the first. -/
theorem units_binade {q m : Nat} (hm : m < f.binade) :
    f.units ((q + 1) * f.binade + m) = (f.binade + m) * 2 ^ q := by
  have hmod : ((q + 1) * f.binade + m) % f.binade = m := by
    rw [Nat.mul_comm, Nat.mul_add_mod, Nat.mod_eq_of_lt hm]
  have hge : ¬ (q + 1) * f.binade + m < f.binade := by
    rw [Nat.succ_mul]
    omega
  rw [units, significand, if_neg hge, hmod, doublings_binade hm]
  rfl

/-- The next value is one unit of the significand further. -/
theorem units_succ (rank : Nat) : f.units (rank + 1) = f.units rank + 2 ^ f.doublings rank := by
  have hpos := f.binade_pos
  have hm := Nat.mod_lt rank hpos
  cases hq : rank / f.binade with
  | zero =>
    have hlt : rank < f.binade := Nat.lt_of_div_eq_zero hpos hq
    rw [units_of_lt_binade f hlt, doublings, hq, Nat.pow_zero]
    rcases Nat.lt_or_ge (rank + 1) f.binade with hnext | hnext
    · exact units_of_lt_binade f hnext
    · have he : rank + 1 = (0 + 1) * f.binade + 0 := by omega
      rw [he, units_binade hpos]
      omega
  | succ q =>
    have hrank : rank = (q + 1) * f.binade + rank % f.binade := by
      rw [← hq]
      exact (Nat.div_add_mod' ..).symm
    rw [hrank]
    generalize rank % f.binade = m at hm
    rw [units_binade hm, doublings_binade hm, ← Nat.succ_mul]
    rcases Nat.lt_or_ge (m + 1) f.binade with hnext | hnext
    · rw [Nat.add_assoc, units_binade hnext]
      rfl
    · have he : (q + 1) * f.binade + m + 1 = (q + 1 + 1) * f.binade + 0 := by
        rw [Nat.succ_mul (q + 1)]
        omega
      have hlast : f.binade + m + 1 = 2 * f.binade := by omega
      rw [he, units_binade hpos, Nat.succ_eq_add_one, hlast]
      ring

/-- The value at a rank. -/
def value (f : Format) (rank : Nat) : ℚ :=
  f.units rank * 2 ^ f.least

/-- The distance from the value at a rank to the next one. -/
def gap (f : Format) (rank : Nat) : ℚ :=
  2 ^ (f.least + f.doublings rank)

/-- The middle between the value at a rank and the next one. -/
def midpoint (f : Format) (rank : Nat) : ℚ :=
  f.value rank + f.gap rank / 2

theorem gap_pos (f : Format) (rank : Nat) : 0 < f.gap rank :=
  zpow_pos two_pos _

theorem value_nonneg (f : Format) (rank : Nat) : 0 ≤ f.value rank :=
  mul_nonneg (Nat.cast_nonneg _) (zpow_pos two_pos _).le

theorem value_zero (f : Format) : f.value 0 = 0 := by
  rw [value, units_of_lt_binade f f.binade_pos, Nat.cast_zero, zero_mul]

theorem value_eq (f : Format) (rank : Nat) : f.value rank = f.significand rank * f.gap rank := by
  rw [value, gap, units, zpow_add₀ two_ne_zero, zpow_natCast, Nat.pow_eq]
  push_cast
  ring

theorem significand_lt (f : Format) (rank : Nat) : f.significand rank < 2 * f.binade := by
  have := Nat.mod_lt rank f.binade_pos
  rw [significand]
  split <;> omega

theorem value_succ (f : Format) (rank : Nat) : f.value (rank + 1) = f.value rank + f.gap rank := by
  rw [value, value, units_succ, gap, zpow_add₀ two_ne_zero, zpow_natCast]
  push_cast
  ring

theorem value_strictMono : StrictMono f.value := by
  apply strictMono_nat_of_lt_succ
  intro rank
  rw [value_succ]
  exact lt_add_of_pos_right _ (gap_pos f rank)

theorem midpoint_lt (f : Format) (rank : Nat) : f.midpoint rank < f.value (rank + 1) := by
  rw [midpoint, value_succ]
  have := gap_pos f rank
  linarith

theorem lt_midpoint (f : Format) (rank : Nat) : f.value rank < f.midpoint rank := by
  rw [midpoint]
  have := gap_pos f rank
  linarith

theorem midpoint_strictMono : StrictMono f.midpoint := by
  apply strictMono_nat_of_lt_succ
  intro rank
  exact (midpoint_lt f rank).trans (lt_midpoint f (rank + 1))

/-- The value at a rank as it is computed. -/
theorem ratio_div (f : Format) (rank : Nat) :
    ((f.ratio rank).1 : ℚ) / (f.ratio rank).2 = f.value rank := by
  have hratio : f.ratio rank =
      (f.units rank * (powerOfTwo f.least).1, (powerOfTwo f.least).2) := rfl
  rw [hratio, value, ← powerOfTwo_div]
  push_cast
  ring

theorem ratio_pos (f : Format) (rank : Nat) : 0 < (f.ratio rank).2 :=
  (powerOfTwo_pos f.least).2

/-! ### Owners -/

/-- What a value owns: all between the midpoints with its neighbours, and these if its rank is
even. -/
structure Owned (f : Format) (rank : Nat) (q : ℚ) : Prop where
  lower : ∀ below, rank = below + 1 → f.midpoint below ≤ q
  upper : q ≤ f.midpoint rank
  even_of_lower : ∀ below, rank = below + 1 → q = f.midpoint below → rank % 2 = 0
  even_of_upper : q = f.midpoint rank → rank % 2 = 0

/-- No quotient has two owners. -/
theorem Owned.unique {other : Nat} (h : f.Owned rank q) (h' : f.Owned other q) : rank = other := by
  wlog hlt : rank < other generalizing rank other with hrest
  · rcases Nat.lt_or_ge other rank with hgt | hge
    · exact (hrest h' h hgt).symm
    · omega
  exfalso
  obtain ⟨below, rfl⟩ : ∃ below, other = below + 1 := ⟨other - 1, by omega⟩
  have hmid : f.midpoint rank ≤ f.midpoint below :=
    midpoint_strictMono.monotone (Nat.le_of_lt_succ hlt)
  have hq : q = f.midpoint below := le_antisymm (h.upper.trans hmid) (h'.lower below rfl)
  have hrank : rank = below :=
    midpoint_strictMono.injective (le_antisymm hmid (hq ▸ h.upper))
  have heven := h.even_of_upper (hrank ▸ hq)
  have heven' := h'.even_of_lower below rfl hq
  omega

/-- A value owns itself. -/
theorem owned_value (f : Format) (rank : Nat) : f.Owned rank (f.value rank) := by
  constructor
  · rintro below rfl
    exact (midpoint_lt f below).le
  · exact (lt_midpoint f rank).le
  · rintro below rfl he
    exact absurd he (midpoint_lt f below).ne'
  · intro he
    exact absurd he (lt_midpoint f rank).ne

/-- Between an owned quotient and one that is not owned there is a midpoint. -/
theorem Owned.exists_midpoint {v : ℚ} (h : f.Owned rank q) (hv : ¬ f.Owned rank v) :
    ∃ below, (below = rank ∨ below + 1 = rank) ∧ |q - f.midpoint below| ≤ |q - v| := by
  by_contra! hfar
  apply hv
  have hupper : v < f.midpoint rank := by
    by_contra! hle
    apply (hfar rank (.inl rfl)).not_ge
    rw [abs_sub_comm, abs_sub_comm q, abs_of_nonneg (sub_nonneg.mpr h.upper),
      abs_of_nonneg (sub_nonneg.mpr (h.upper.trans hle))]
    exact sub_le_sub_right hle q
  have hlower (below : Nat) (hbelow : rank = below + 1) : f.midpoint below < v := by
    by_contra! hle
    apply (hfar below (.inr hbelow.symm)).not_ge
    have hq := h.lower below hbelow
    rw [abs_of_nonneg (sub_nonneg.mpr hq), abs_of_nonneg (sub_nonneg.mpr (hle.trans hq))]
    exact sub_le_sub_left hle q
  constructor
  · intro below hbelow
    exact (hlower below hbelow).le
  · exact hupper.le
  · intro below hbelow he
    exact absurd he (hlower below hbelow).ne'
  · intro he
    exact absurd he hupper.ne

/-! ### Rounding -/

/-- A quotient is rounded to a number of places, a place being so many doublings of the smallest
positive value. -/
structure Rounded (f : Format) (q : ℚ) (places shift : Nat) : Prop where
  le : places ≤ 2 * f.binade
  normal : 0 < shift → f.binade * (2 : ℚ) ^ (f.least + shift) ≤ q
  lower : (places - 1 / 2) * (2 : ℚ) ^ (f.least + shift) ≤ q
  upper : q ≤ (places + 1 / 2) * (2 : ℚ) ^ (f.least + shift)
  even_of_lower : q = (places - 1 / 2) * (2 : ℚ) ^ (f.least + shift) → places % 2 = 0
  even_of_upper : q = (places + 1 / 2) * (2 : ℚ) ^ (f.least + shift) → places % 2 = 0

theorem binade_eq (hp : 2 ≤ f.precision) : (f.binade : ℚ) = 2 ^ ((f.precision : ℤ) - 1) := by
  have he : (f.precision : ℤ) - 1 = ((f.precision - 1 : Nat) : ℤ) := by omega
  rw [he, zpow_natCast, binade, Nat.pow_eq]
  push_cast
  rfl

theorem binade_even (hp : 2 ≤ f.precision) : f.binade % 2 = 0 := by
  obtain ⟨k, hk⟩ : ∃ k, f.precision - 1 = k + 1 := ⟨f.precision - 2, by omega⟩
  rw [binade, hk, Nat.pow_eq, Nat.pow_succ, Nat.mul_mod_left]

theorem exists_rounded (hp : 2 ≤ f.precision) {num den : Nat} (hn : 0 < num) (hd : 0 < den) :
    ∃ places shift, f.nearest num den = min f.top (places + shift * f.binade) ∧
      f.Rounded (num / den) places shift := by
  obtain ⟨shift, hshift⟩ : ∃ shift : Nat, f.placeOf num den = f.least + shift := by
    refine ⟨(f.placeOf num den - f.least).toNat, ?_⟩
    rw [placeOf]
    omega
  have hlog := powerOfTwo_logTwo_le hn hd
  have hlog' := le_powerOfTwo_logTwo_succ num hd
  have hunit := powerOfTwo_div (f.least + shift)
  obtain ⟨ha, hb⟩ := powerOfTwo_pos (f.least + shift)
  have hnearest : f.nearest num den = min f.top
      (roundDiv (num * (powerOfTwo (f.least + shift)).2)
        (den * (powerOfTwo (f.least + shift)).1) + shift * f.binade) := by
    rw [nearest, if_neg hn.ne']
    dsimp only
    rw [hshift, add_sub_cancel_left, Int.toNat_natCast]
  refine ⟨_, _, hnearest, ?_⟩
  rw [placeOf] at hshift
  generalize powerOfTwo (f.least + shift) = unit at hunit ha hb
  have hden : (0 : ℚ) < den := by exact_mod_cast hd
  have hb' : (0 : ℚ) < unit.2 := by exact_mod_cast hb
  have hpos := Nat.mul_pos hd ha
  have hle : num * unit.2 ≤ 2 * f.binade * (den * unit.1) := by
    have hplaces : (num : ℚ) / den ≤ 2 * f.binade * (unit.1 / unit.2) := by
      rw [hunit, binade_eq hp, ← zpow_one_add₀ two_ne_zero, ← zpow_add₀ two_ne_zero]
      exact hlog'.trans (zpow_le_zpow_right₀ one_le_two (by omega))
    rw [← mul_div_assoc, div_le_div_iff₀ hden hb', mul_right_comm, mul_assoc] at hplaces
    exact_mod_cast hplaces
  obtain ⟨hup, hlow, heven⟩ := roundDiv_spec (num * unit.2) hpos
  generalize roundDiv (num * unit.2) (den * unit.1) = places at hup hlow heven ⊢
  have hup' : (2 : ℚ) * (num * unit.2) ≤ 2 * (places * (den * unit.1)) + den * unit.1 := by
    exact_mod_cast hup
  have hlow' : (2 : ℚ) * (places * (den * unit.1)) ≤ 2 * (num * unit.2) + den * unit.1 := by
    exact_mod_cast hlow
  constructor
  · have htwice : 2 * places * (den * unit.1) ≤ (2 * (2 * f.binade) + 1) * (den * unit.1) := by
      linarith
    have := Nat.le_of_mul_le_mul_right htwice hpos
    omega
  · intro hnormal
    rw [binade_eq hp, ← zpow_add₀ two_ne_zero]
    exact (zpow_le_zpow_right₀ one_le_two (by omega)).trans hlog
  · rw [← hunit, ← mul_div_assoc, div_le_div_iff₀ hb' hden]
    linarith
  · rw [← hunit, ← mul_div_assoc, div_le_div_iff₀ hden hb']
    linarith
  · intro he
    rw [← hunit, ← mul_div_assoc, div_eq_div_iff hden.ne' hb'.ne'] at he
    have he' : (2 : ℚ) * (places * (den * unit.1)) = 2 * (num * unit.2) + den * unit.1 := by
      linarith
    exact heven (.inr (by exact_mod_cast he'))
  · intro he
    rw [← hunit, ← mul_div_assoc, div_eq_div_iff hden.ne' hb'.ne'] at he
    have he' : (2 : ℚ) * (num * unit.2) = 2 * (places * (den * unit.1)) + den * unit.1 := by
      linarith
    exact heven (.inl (by exact_mod_cast he'))

/-- The value of some places is found behind as many binades as the place is doubled. -/
theorem units_place {places shift : Nat} (hle : places ≤ 2 * f.binade)
    (h : shift = 0 ∨ f.binade ≤ places) :
    f.units (places + shift * f.binade) = places * 2 ^ shift := by
  rcases Nat.lt_or_ge places f.binade with hlt | hge
  · obtain rfl : shift = 0 := by omega
    rw [Nat.zero_mul, Nat.add_zero, units_of_lt_binade f hlt, Nat.pow_zero, Nat.mul_one]
  · obtain ⟨m, rfl⟩ := Nat.exists_eq_add_of_le hge
    rcases Nat.lt_or_ge m f.binade with hm | hm
    · have he : f.binade + m + shift * f.binade = (shift + 1) * f.binade + m := by ring
      rw [he, units_binade hm]
    · obtain rfl : m = f.binade := by omega
      have he : f.binade + f.binade + shift * f.binade = (shift + 1 + 1) * f.binade + 0 := by ring
      rw [he, units_binade f.binade_pos]
      ring

theorem value_place {places shift : Nat} (hle : places ≤ 2 * f.binade)
    (h : shift = 0 ∨ f.binade ≤ places) :
    f.value (places + shift * f.binade) = places * (2 : ℚ) ^ (f.least + shift) := by
  rw [value, units_place hle h, zpow_add₀ two_ne_zero, zpow_natCast]
  push_cast
  ring

/-- The next value behind some places is not nearer than one of them. -/
theorem le_gap_place {places shift : Nat} (h : shift = 0 ∨ f.binade ≤ places) :
    (2 : ℚ) ^ (f.least + shift) ≤ f.gap (places + shift * f.binade) := by
  have hshift : shift ≤ f.doublings (places + shift * f.binade) := by
    rw [doublings, Nat.add_mul_div_right _ _ f.binade_pos]
    rcases h with h | h
    · omega
    · have := (Nat.one_le_div_iff f.binade_pos).mpr h
      omega
  exact zpow_le_zpow_right₀ one_le_two (by omega)

/-- What is rounded is owned by what it is rounded to. -/
theorem Rounded.owned (hp : 2 ≤ f.precision) {places shift : Nat} (h : f.Rounded q places shift) :
    f.Owned (places + shift * f.binade) q := by
  have hunit : (0 : ℚ) < 2 ^ (f.least + shift) := zpow_pos two_pos _
  have hparity : (places + shift * f.binade) % 2 = places % 2 := by
    rw [Nat.add_mod, Nat.mul_mod, binade_even hp, Nat.mul_zero, Nat.zero_mod, Nat.add_zero,
      Nat.mod_mod]
  -- A quotient above a binade's first value is rounded to no fewer places.
  have hplace : shift = 0 ∨ f.binade ≤ places := by
    by_contra! hnot
    have hq := (h.normal (by omega)).trans h.upper
    have hle : ((places : ℚ) + 1) ≤ f.binade := by exact_mod_cast hnot.2
    have := (mul_le_mul_iff_of_pos_right hunit).mp hq
    linarith
  have hvalue := value_place h.le hplace
  have hgap := le_gap_place hplace
  have hbelow (below : Nat) (he : places + shift * f.binade = below + 1) :
      f.midpoint below = (places - 1 / 2) * 2 ^ (f.least + shift) ∨ f.midpoint below < q := by
    by_cases hfirst : 0 < shift ∧ places = f.binade
    · have hlt := midpoint_lt f below
      rw [← he, hvalue, hfirst.2] at hlt
      exact .inr (hlt.trans_le (h.normal hfirst.1))
    · have hsplit : below = (places - 1) + shift * f.binade := by
        rcases hplace with rfl | hge
        · omega
        · have := f.binade_pos
          omega
      have hmid : f.midpoint below = (f.value below + f.value (below + 1)) / 2 := by
        rw [midpoint, value_succ]
        ring
      have hpos : 0 < places := by
        rcases hplace with rfl | hge
        · omega
        · exact f.binade_pos.trans_le hge
      rw [hmid, ← he, hvalue, hsplit, value_place (by have := h.le; omega) (by omega),
        Nat.cast_pred hpos]
      exact .inl (by ring)
  constructor
  · intro below he
    rcases hbelow below he with hmid | hlt
    · exact hmid ▸ h.lower
    · exact hlt.le
  · rw [midpoint, hvalue]
    have := h.upper
    linarith
  · intro below he hq
    rcases hbelow below he with hmid | hlt
    · exact hparity.trans (h.even_of_lower (hq.trans hmid))
    · exact absurd hq hlt.ne'
  · intro hq
    rw [midpoint, hvalue] at hq
    have hupper := h.upper
    exact hparity.trans (h.even_of_upper (by linarith))

/-- Every quotient is owned by the rank it is rounded to, up to infinity's. -/
theorem exists_owner (hp : 2 ≤ f.precision) (num : Nat) {den : Nat} (hd : 0 < den) :
    ∃ rank, f.nearest num den = min f.top rank ∧ f.Owned rank (num / den) := by
  rcases Nat.eq_zero_or_pos num with rfl | hn
  · refine ⟨0, by simp, ?_⟩
    rw [Nat.cast_zero, zero_div, ← f.value_zero]
    exact owned_value f 0
  · obtain ⟨places, shift, hnearest, hrounded⟩ := exists_rounded hp hn hd
    exact ⟨_, hnearest, hrounded.owned hp⟩

/-- What a finite value owns is rounded to it. -/
theorem nearest_eq_of_owned (hp : 2 ≤ f.precision) {num den : Nat} (hd : 0 < den)
    (hrank : rank < f.top) (h : f.Owned rank (num / den)) : f.nearest num den = rank := by
  obtain ⟨owner, hnearest, howned⟩ := exists_owner hp num hd
  rw [hnearest, howned.unique h]
  exact Nat.min_eq_right hrank.le

/-- What is rounded to a finite value is owned by it. -/
theorem owned_nearest (hp : 2 ≤ f.precision) {num den : Nat} (hd : 0 < den)
    (hlt : f.nearest num den < f.top) : f.Owned (f.nearest num den) (num / den) := by
  obtain ⟨owner, hnearest, howned⟩ := exists_owner hp num hd
  obtain he : f.nearest num den = owner := by omega
  rwa [he]

/-- The relative error of rounding what is not below the first binade's end. -/
theorem Owned.error_le (h : f.Owned rank q) (hq : f.value f.binade ≤ q) :
    |f.value rank - q| ≤ q / (2 * f.binade) := by
  have hpos : (0 : ℚ) < f.binade := by exact_mod_cast f.binade_pos
  have hgap {r : Nat} (hr : f.binade ≤ r) : f.binade * f.gap r ≤ f.value r := by
    have hle : (f.binade : ℚ) ≤ f.significand r := by
      rw [significand, if_neg hr.not_gt]
      exact_mod_cast Nat.le_add_right _ _
    rw [value_eq]
    exact mul_le_mul_of_nonneg_right hle (gap_pos f r).le
  rw [le_div_iff₀ (by positivity)]
  rcases lt_or_ge q (f.value rank) with hlt | hle
  · have hrank : f.binade < rank := value_strictMono.lt_iff_lt.mp (hq.trans_lt hlt)
    obtain ⟨below, rfl⟩ : ∃ below, rank = below + 1 := ⟨rank - 1, by omega⟩
    have hlower := h.lower below rfl
    have hbelow := hgap (Nat.le_of_lt_succ hrank)
    have hle := (lt_midpoint f below).le.trans hlower
    rw [midpoint] at hlower
    rw [abs_of_pos (by linarith), value_succ]
    nlinarith
  · have hrank : f.binade ≤ rank := by
      by_contra! hlt
      have := h.upper.trans_lt (midpoint_lt f rank)
      exact this.not_ge ((value_strictMono.monotone hlt).trans hq)
    have hupper := h.upper
    have := hgap hrank
    rw [midpoint] at hupper
    rw [abs_of_nonpos (by linarith)]
    nlinarith

/-- A number with few binary digits is a value. -/
theorem exists_value {m : Nat} (hm : m < 2 * f.binade) {j : ℤ} (hj : f.least ≤ j) :
    ∃ rank, f.value rank = m * (2 : ℚ) ^ j := by
  obtain ⟨shift, rfl⟩ := Int.exists_add_of_le hj
  induction shift generalizing m with
  | zero => exact ⟨_, value_place hm.le (.inl rfl)⟩
  | succ shift ih =>
    rcases Nat.lt_or_ge m f.binade with hlt | hge
    · obtain ⟨rank, hrank⟩ := ih (m := 2 * m) (by omega) (by omega)
      refine ⟨rank, hrank.trans ?_⟩
      rw [Nat.cast_succ, ← add_assoc, zpow_add_one₀ two_ne_zero]
      push_cast
      ring
    · exact ⟨_, value_place hm.le (.inr hge)⟩

/-- A number with few binary digits is not changed by rounding. -/
theorem value_nearest_of_exact (hp : 2 ≤ f.precision) {num den : Nat} (hd : 0 < den)
    (hlt : f.nearest num den < f.top) {m : Nat} (hm : m < 2 * f.binade) {j : ℤ} (hj : f.least ≤ j)
    (hq : (num : ℚ) / den = m * (2 : ℚ) ^ j) : f.value (f.nearest num den) = num / den := by
  obtain ⟨rank, hrank⟩ := exists_value hm hj
  have howned := owned_value f rank
  rw [hrank, ← hq] at howned
  rw [(owned_nearest hp hd hlt).unique howned, hrank, hq]

end Format

end RenderKit.Number
