import RenderKit.Proofs.Number.Numerals
import RenderKit.Proofs.Number.Separation

/-!
# Written coordinates are restored

A numeral is read through a value of 64 bits. That value is near the decimal, and is the decimal
itself if it has few binary digits (`Reads`): both if the decimal is rounded at once and if its
digits are scaled by a rounded power of ten. A value of 32 bits is restored from its shortest
decimal unless there is a midpoint between the decimal and the value of 64 bits, which then is the
decimal, or the decimal is a near miss. So every finite value is restored from its numeral as it is
read, and all but one and its negative through the nearest value of 64 bits (`restored`).
-/

namespace RenderKit.Number

open Json (Numeral)

/-! ### Values of 64 bits -/

theorem binary64_precision : 2 ≤ binary64.precision := by
  decide

section

variable {num den : Nat} (hd : 0 < den)

include hd

/-- A quotient of moderate size is not rounded to infinity. -/
theorem nearest_lt_top (hhigh : (num : ℚ) / den ≤ 2 ^ 250) :
    binary64.nearest num den < binary64.top := by
  obtain ⟨rank, hnearest, howned⟩ := Format.exists_owner binary64_precision num hd
  suffices hlt : rank < binary64.top by omega
  by_contra! htop
  have hbinade := binary64.binade_pos
  have hlast : binary64.top = 2047 * binary64.binade := rfl
  obtain ⟨below, rfl⟩ : ∃ below, rank = below + 1 := ⟨rank - 1, by omega⟩
  -- The last binade starts with this power of two.
  have hvalue : (2 : ℚ) ^ (1023 : ℤ) ≤ binary64.value below := by
    have hstart : binary64.value (binary64.binade + 2045 * binary64.binade) = _ :=
      Format.value_place (by omega) (.inr le_rfl)
    rw [Format.binade_eq binary64_precision, ← zpow_add₀ two_ne_zero] at hstart
    exact hstart.symm.trans_le (Format.value_strictMono.monotone (by omega))
  have hq := (Format.lt_midpoint binary64 below).trans_le (howned.lower below rfl)
  have hsmall : (2 : ℚ) ^ 250 ≤ 2 ^ (1023 : ℤ) := by
    rw [← zpow_natCast]
    exact zpow_le_zpow_right₀ one_le_two (by decide)
  exact ((hvalue.trans_lt hq).trans_le hhigh).not_ge hsmall

/-- The relative error of rounding a quotient of moderate size. -/
theorem nearest_error_le (hlow : 1 / 2 ^ 250 ≤ (num : ℚ) / den)
    (hhigh : (num : ℚ) / den ≤ 2 ^ 250) :
    |binary64.value (binary64.nearest num den) - num / den| ≤ num / den / 2 ^ 53 := by
  have hbinade : (binary64.binade : ℚ) = 2 ^ 52 := by
    have hbinade : binary64.binade = 2 ^ 52 := rfl
    exact_mod_cast hbinade
  have hnormal : binary64.value binary64.binade ≤ 1 / 2 ^ 250 := by
    have hvalue : binary64.value (binary64.binade + 0 * binary64.binade) = _ :=
      Format.value_place (by omega) (.inl rfl)
    have hleast : binary64.least = -1074 := rfl
    rw [Nat.zero_mul, Nat.add_zero, hbinade, hleast] at hvalue
    rw [hvalue, ← zpow_natCast, ← zpow_natCast, ← zpow_add₀ two_ne_zero, one_div, ← zpow_neg]
    exact zpow_le_zpow_right₀ one_le_two (by decide)
  have herror := (Format.owned_nearest binary64_precision hd (nearest_lt_top hd hhigh)).error_le
    (hnormal.trans hlow)
  rw [hbinade] at herror
  exact herror.trans_eq (by ring)

/-- A quotient of moderate size with few binary digits is not changed by rounding. -/
theorem nearest_eq_of_exact (hhigh : (num : ℚ) / den ≤ 2 ^ 250) {m : Nat} (hm : m < 2 ^ 53) {j : ℤ}
    (hj : -1074 ≤ j) (hq : (num : ℚ) / den = m * (2 : ℚ) ^ j) :
    binary64.value (binary64.nearest num den) = num / den := by
  have htwice : 2 * binary64.binade = 2 ^ 53 := rfl
  exact Format.value_nearest_of_exact binary64_precision hd (nearest_lt_top hd hhigh)
    (hm.trans_eq htwice.symm) hj hq

end

/-- A value of 64 bits that a decimal is read as: near the decimal, and the decimal itself if it has
few binary digits. -/
structure Reads (q : ℚ) (rank : Nat) : Prop where
  near : |q - binary64.value rank| ≤ readingError * q
  exact : ∀ m : Nat, m < 2 ^ 25 → ∀ j : ℤ, -1074 ≤ j → q = m * (2 : ℚ) ^ j → binary64.value rank = q

/-- A decimal as numerator and denominator. -/
def Decimal.ratio (d : Decimal) : Nat × Nat :=
  (d.digits * (Format.powerOfTen d.exponent).1, (Format.powerOfTen d.exponent).2)

theorem Decimal.ratio_div (d : Decimal) : (d.ratio.1 : ℚ) / d.ratio.2 = d.value := by
  rw [ratio, value, ← Format.powerOfTen_div]
  push_cast
  ring

theorem Decimal.ratio_pos (d : Decimal) : 0 < d.ratio.2 :=
  (Format.powerOfTen_pos _).2

/-- A decimal of moderate size is read as the nearest value. -/
theorem reads_nearest {d : Decimal} (hlow : 1 / 2 ^ 250 ≤ d.value) (hhigh : d.value ≤ 2 ^ 250) :
    Reads d.value (binary64.nearest d.ratio.1 d.ratio.2) := by
  have hpos : (0 : ℚ) < d.value := (by positivity : (0 : ℚ) < 1 / 2 ^ 250).trans_le hlow
  rw [← d.ratio_div] at hlow hhigh hpos ⊢
  constructor
  · rw [abs_sub_comm]
    have hhalf : (1 : ℚ) / 2 ^ 53 ≤ readingError := by
      rw [readingError]
      norm_num
    calc _ ≤ (d.ratio.1 : ℚ) / d.ratio.2 / 2 ^ 53 := nearest_error_le d.ratio_pos hlow hhigh
      _ = 1 / 2 ^ 53 * ((d.ratio.1 : ℚ) / d.ratio.2) := by ring
      _ ≤ readingError * ((d.ratio.1 : ℚ) / d.ratio.2) := mul_le_mul_of_nonneg_right hhalf hpos.le
  · intro m hm j hj hq
    exact nearest_eq_of_exact d.ratio_pos hhigh (hm.trans (by decide)) hj hq

/-- A value of 32 bits is restored from what its shortest decimal is read as, if that is no near
miss. -/
theorem Decimal.Shortest.nearest_eq {d : Decimal} {rank read : Nat} (h : d.Shortest rank)
    (htop : rank < binary32.top) (hmiss : d ∉ nearMisses) (hread : Reads d.value read) :
    binary32.nearest (binary64.ratio read).1 (binary64.ratio read).2 = rank := by
  apply Format.nearest_eq_of_owned binary32_precision (Format.ratio_pos _ _) htop
  rw [Format.ratio_div]
  by_contra hlost
  obtain ⟨below, hside, hnear⟩ := h.owned.exists_midpoint hlost
  have hmid := (h.eq_midpoint_or_mem_nearMisses htop hside (hnear.trans hread.near)).resolve_right
    hmiss
  have hm : 2 * binary32.significand below + 1 < 2 ^ 25 := by
    have hsignificand := Format.significand_lt binary32 below
    have hbinade : 2 * binary32.binade = 2 ^ 24 := rfl
    omega
  apply hlost
  rw [hread.exact _ hm _ (by omega) (hmid.trans (midpoint_eq below))]
  exact h.owned

/-! ### Scaling by a rounded power of ten -/

/-- A factor of the greater part of an equation up to a power of two is a factor of the other. -/
theorem five_pow_dvd {a b e : Nat} {i : ℤ} (h : (a : ℚ) = b * 5 ^ e * (2 : ℚ) ^ i) : 5 ^ e ∣ a := by
  have hcoprime (n : Nat) : Nat.Coprime (5 ^ e) (2 ^ n) := Nat.Coprime.pow e n (by decide)
  cases i with
  | ofNat n =>
    rw [Int.ofNat_eq_natCast, zpow_natCast] at h
    have hnat : a = b * 5 ^ e * 2 ^ n := by exact_mod_cast h
    exact ⟨b * 2 ^ n, by rw [hnat]; ring⟩
  | negSucc n =>
    rw [zpow_negSucc, ← div_eq_mul_inv, eq_div_iff (by positivity)] at h
    have hnat : a * 2 ^ (n + 1) = b * 5 ^ e := by exact_mod_cast h
    exact (hcoprime (n + 1)).dvd_of_dvd_mul_right ⟨b, by rw [hnat, Nat.mul_comm]⟩

theorem ten_pow_eq (e : Nat) : (10 : ℚ) ^ e = 5 ^ e * 2 ^ e := by
  rw [← mul_pow]
  norm_num

/-- A power of ten of moderate size is rounded to a value near it, and to itself if its odd part is
small. -/
structure TenRead (e : Nat) (t : ℚ) : Prop where
  near : |t - 10 ^ e| ≤ 10 ^ e / 2 ^ 53
  exact : 5 ^ e < 2 ^ 53 → t = 10 ^ e

theorem tenRead {e : Nat} (he : e ≤ 61) : TenRead e (binary64.value (tenRank e)) := by
  have hquotient : ((10 ^ e : Nat) : ℚ) / (1 : Nat) = 10 ^ e := by
    push_cast
    exact div_one _
  have hhigh : (10 : ℚ) ^ e ≤ 2 ^ 250 :=
    (pow_le_pow_right₀ (by norm_num) he).trans (by norm_num)
  have hlow : 1 / 2 ^ 250 ≤ (10 : ℚ) ^ e :=
    (by norm_num : (1 : ℚ) / 2 ^ 250 ≤ 1).trans (one_le_pow₀ (by norm_num))
  rw [← hquotient] at hhigh hlow
  constructor
  · rw [← hquotient]
    exact nearest_error_le Nat.one_pos hlow hhigh
  · intro hfive
    rw [← hquotient]
    refine nearest_eq_of_exact Nat.one_pos hhigh hfive (j := e) (by omega) (hquotient.trans ?_)
    rw [zpow_natCast, ten_pow_eq]
    push_cast
    rfl

section

variable {digits e : Nat} {t : ℚ}

theorem TenRead.bounds (h : TenRead e t) :
    (1 - 1 / 2 ^ 53) * 10 ^ e ≤ t ∧ t ≤ (1 + 1 / 2 ^ 53) * 10 ^ e := by
  obtain ⟨hlow, hhigh⟩ := abs_le.mp h.near
  constructor <;> linarith

/-- Two roundings of a product. -/
theorem mul_error_le {q v : ℚ} (hq : 0 ≤ q) (ht : TenRead e t) (hv : |v - q * t| ≤ q * t / 2 ^ 53) :
    |q * 10 ^ e - v| ≤ readingError * (q * 10 ^ e) := by
  have hten : (0 : ℚ) < 10 ^ e := by positivity
  obtain ⟨hlow, hhigh⟩ := ht.bounds
  have hlow' := mul_le_mul_of_nonneg_left hlow hq
  have hhigh' := mul_le_mul_of_nonneg_left hhigh hq
  have hpos : 0 ≤ q * 10 ^ e := mul_nonneg hq hten.le
  rw [readingError, abs_le]
  obtain ⟨hv, hv'⟩ := abs_le.mp hv
  constructor
  · linarith
  · linarith

/-- Two roundings of a quotient. -/
theorem div_error_le {q v : ℚ} (hq : 0 ≤ q) (ht : TenRead e t) (hv : |v - q / t| ≤ q / t / 2 ^ 53) :
    |q / 10 ^ e - v| ≤ readingError * (q / 10 ^ e) := by
  have hten : (0 : ℚ) < 10 ^ e := by positivity
  obtain ⟨hlow, hhigh⟩ := ht.bounds
  have hpos : 0 < t := lt_of_lt_of_le (by positivity) hlow
  have hequal : q / t * t = q / 10 ^ e * 10 ^ e := by
    rw [div_mul_cancel₀ q hpos.ne', div_mul_cancel₀ q hten.ne']
  have hnonneg : 0 ≤ q / t := div_nonneg hq hpos.le
  have hlow' : q / t * (1 - 1 / 2 ^ 53) ≤ q / 10 ^ e := by
    apply le_of_mul_le_mul_right _ hten
    rw [← hequal, mul_assoc]
    exact mul_le_mul_of_nonneg_left hlow hnonneg
  have hhigh' : q / 10 ^ e ≤ q / t * (1 + 1 / 2 ^ 53) := by
    apply le_of_mul_le_mul_right _ hten
    rw [← hequal, mul_assoc]
    exact mul_le_mul_of_nonneg_left hhigh hnonneg
  rw [readingError, abs_le]
  obtain ⟨hv, hv'⟩ := abs_le.mp hv
  constructor
  · linarith
  · linarith

end

theorem value_start {digits : Nat} (h : digits < 2 ^ 53) :
    binary64.value (binary64.nearest digits 1) = digits := by
  have hquotient : (digits : ℚ) / (1 : Nat) = digits := by simp
  have hhigh : (digits : ℚ) / (1 : Nat) ≤ 2 ^ 250 := by
    have : (digits : ℚ) ≤ 2 ^ 53 := by exact_mod_cast h.le
    rw [hquotient]
    exact this.trans (by norm_num)
  rw [nearest_eq_of_exact Nat.one_pos hhigh h (j := 0) (by decide) (by simp), hquotient]

/-- A product is rounded as one quotient. -/
theorem mulRank_quotient (r s : Nat) : ∃ num den, 0 < den ∧
    mulRank r s = binary64.nearest num den ∧
    (num : ℚ) / den = binary64.value r * binary64.value s := by
  refine ⟨(binary64.ratio r).1 * (binary64.ratio s).1, (binary64.ratio r).2 * (binary64.ratio s).2,
    Nat.mul_pos (Format.ratio_pos _ _) (Format.ratio_pos _ _), ?_, ?_⟩
  · rw [mulRank]
  · rw [← Format.ratio_div, ← Format.ratio_div, div_mul_div_comm]
    push_cast
    rfl

/-- A quotient of values is rounded as one quotient. -/
theorem divRank_quotient (r : Nat) {s : Nat} (hs : 0 < binary64.value s) : ∃ num den, 0 < den ∧
    divRank r s = binary64.nearest num den ∧
    (num : ℚ) / den = binary64.value r / binary64.value s := by
  have hpos : 0 < (binary64.ratio s).1 := by
    by_contra! hzero
    rw [← Format.ratio_div, Nat.le_zero.mp hzero, Nat.cast_zero, zero_div] at hs
    exact hs.false
  refine ⟨(binary64.ratio r).1 * (binary64.ratio s).2, (binary64.ratio r).2 * (binary64.ratio s).1,
    Nat.mul_pos (Format.ratio_pos _ _) hpos, ?_, ?_⟩
  · rw [divRank]
  · rw [← Format.ratio_div, ← Format.ratio_div, div_div_div_eq]
    push_cast
    rfl

/-- Digits that are multiplied by a rounded power of ten. -/
theorem mulRank_reads {digits e : Nat} (hpos : 0 < digits) (hdigits : digits < 2 ^ 53)
    (he : e ≤ 58) : mulRank (binary64.nearest digits 1) (tenRank e) < binary64.top ∧
      Reads (digits * 10 ^ e) (mulRank (binary64.nearest digits 1) (tenRank e)) := by
  have hdigits' : (digits : ℚ) ≤ 2 ^ 53 := by exact_mod_cast hdigits.le
  have hone : (1 : ℚ) ≤ digits := by exact_mod_cast hpos
  have hten := tenRead (e := e) (by omega)
  obtain ⟨num, den, hden, hmul, hquotient⟩ :=
    mulRank_quotient (binary64.nearest digits 1) (tenRank e)
  rw [value_start hdigits] at hquotient
  rw [hmul]
  generalize binary64.value (tenRank e) = t at hten hquotient
  obtain ⟨hlow, hhigh⟩ := hten.bounds
  have hlow' : (1 - 1 / 2 ^ 53) * 1 ≤ t :=
    (mul_le_mul_of_nonneg_left (one_le_pow₀ (by norm_num)) (by norm_num)).trans hlow
  have hhigh' : t ≤ (1 + 1 / 2 ^ 53) * 10 ^ 58 :=
    hhigh.trans (mul_le_mul_of_nonneg_left (pow_le_pow_right₀ (by norm_num) he) (by norm_num))
  have hbound : (num : ℚ) / den ≤ 2 ^ 250 := by
    rw [hquotient]
    exact (mul_le_mul hdigits' hhigh' (by linarith) (by positivity)).trans (by norm_num)
  have hbound' : 1 / 2 ^ 250 ≤ (num : ℚ) / den := by
    rw [hquotient]
    exact (by norm_num : (1 : ℚ) / 2 ^ 250 ≤ 1 * ((1 - 1 / 2 ^ 53) * 1)).trans
      (mul_le_mul hone hlow' (by norm_num) (by linarith))
  refine ⟨nearest_lt_top hden hbound, ?_, ?_⟩
  · apply mul_error_le (by linarith) hten
    rw [← hquotient]
    exact nearest_error_le hden hbound' hbound
  · intro m hm j hj hq
    have hfactor : (m : ℚ) = digits * 5 ^ e * (2 : ℚ) ^ (e - j) := by
      rw [zpow_sub₀ two_ne_zero, zpow_natCast, ← mul_div_assoc, eq_div_iff (by positivity), ← hq,
        ten_pow_eq, mul_assoc]
    have hm' : 0 < m := by
      have : (0 : ℚ) < m := by
        rw [hfactor]
        positivity
      exact_mod_cast this
    have hfive := Nat.le_of_dvd hm' (five_pow_dvd hfactor)
    have ht := hten.exact (by omega)
    rw [← ht, ← hquotient] at hq ⊢
    exact nearest_eq_of_exact hden hbound (by omega) hj hq

/-- Digits that are divided by a rounded power of ten. -/
theorem divRank_reads {digits e : Nat} (hpos : 0 < digits) (hdigits : digits < 2 ^ 53)
    (he : e ≤ 61) :
    Reads (digits / 10 ^ e) (divRank (binary64.nearest digits 1) (tenRank e)) := by
  have hdigits' : (digits : ℚ) ≤ 2 ^ 53 := by exact_mod_cast hdigits.le
  have hone : (1 : ℚ) ≤ digits := by exact_mod_cast hpos
  have hten := tenRead he
  obtain ⟨hlow, hhigh⟩ := hten.bounds
  have hlow' : (1 - 1 / 2 ^ 53) * 1 ≤ binary64.value (tenRank e) :=
    (mul_le_mul_of_nonneg_left (one_le_pow₀ (by norm_num)) (by norm_num)).trans hlow
  have hhigh' : binary64.value (tenRank e) ≤ (1 + 1 / 2 ^ 53) * 10 ^ 61 :=
    hhigh.trans (mul_le_mul_of_nonneg_left (pow_le_pow_right₀ (by norm_num) he) (by norm_num))
  have ht : 0 < binary64.value (tenRank e) := lt_of_lt_of_le (by norm_num) hlow'
  obtain ⟨num, den, hden, hdiv, hquotient⟩ := divRank_quotient (binary64.nearest digits 1) ht
  rw [value_start hdigits] at hquotient
  rw [hdiv]
  generalize binary64.value (tenRank e) = t at hten hquotient hlow' hhigh' ht
  have hbound : (num : ℚ) / den ≤ 2 ^ 250 := by
    rw [hquotient]
    exact (div_le_div₀ (by positivity) hdigits' (by norm_num) hlow').trans (by norm_num)
  have hbound' : 1 / 2 ^ 250 ≤ (num : ℚ) / den := by
    rw [hquotient]
    exact (by norm_num : (1 : ℚ) / 2 ^ 250 ≤ 1 / ((1 + 1 / 2 ^ 53) * 10 ^ 61)).trans
      (div_le_div₀ (by linarith) hone ht hhigh')
  constructor
  · apply div_error_le (by linarith) hten
    rw [← hquotient]
    exact nearest_error_le hden hbound' hbound
  · intro m hm j hj hq
    have hfactor : (digits : ℚ) = m * 5 ^ e * (2 : ℚ) ^ (j + e) := by
      rw [div_eq_iff (by positivity), ten_pow_eq] at hq
      rw [hq, zpow_add₀ two_ne_zero, zpow_natCast]
      ring
    have hfive := Nat.le_of_dvd hpos (five_pow_dvd hfactor)
    have ht := hten.exact (by omega)
    rw [← ht, ← hquotient] at hq ⊢
    exact nearest_eq_of_exact hden hbound (by omega) hj hq

theorem scaledRank?_reads {digits : Nat} {exponent : ℤ} (hpos : 0 < digits)
    (hdigits : digits < 2 ^ 53) (hlow : -61 ≤ exponent) (hhigh : exponent ≤ 58) :
    ∃ r, scaledRank? digits exponent = some r ∧ Reads (digits * 10 ^ exponent) r := by
  cases exponent with
  | ofNat e =>
    rw [Int.ofNat_eq_natCast] at hhigh
    obtain ⟨hlt, hreads⟩ := mulRank_reads (e := e) hpos hdigits (by omega)
    have hlimit : e ≤ tenLimit := by
      rw [tenLimit]
      omega
    refine ⟨_, ?_, hreads⟩
    rw [scaledRank?]
    simp only [if_neg hpos.ne', if_pos hlimit, if_pos hlt]
  | negSucc e =>
    have he : e + 1 ≤ 61 := by omega
    have hlimit : e + 1 ≤ tenLimit := by
      rw [tenLimit]
      omega
    refine ⟨divRank (binary64.nearest digits 1) (tenRank (e + 1)), ?_, ?_⟩
    · rw [scaledRank?]
      simp only [if_pos hlimit]
    · rw [zpow_negSucc, ← div_eq_mul_inv]
      exact divRank_reads hpos hdigits he

/-! ### Numerals -/

/-- The value of 32 bits nearest to a decimal. -/
def Decimal.nearest32 (d : Decimal) (negative : Bool) : Binary32 :=
  .ofRatio negative d.ratio.1 d.ratio.2

namespace Binary32

/-- The value of 32 bits nearest to the value of 64 bits that is nearest to a numeral. -/
def throughNearest (n : Numeral) : Binary32 :=
  let (a, b) := binary64.ratio (binary64.nearest n.decimal.ratio.1 n.decimal.ratio.2)
  ofRatio n.negative a b

/-- The positive value that is not restored through the nearest value of 64 bits: its decimal is so
near the midpoint above it that the nearest value is the midpoint. -/
def lost : Binary32 := { rank := 0x15AE43FD }

/-- From 7.038531e-26 the nearest value of 64 bits leads to the neighbour above. -/
theorem throughNearest_lost :
    ∃ n, lost.numeral? = some n ∧ n.text = "7.038531e-26" ∧
      throughNearest n = { rank := 0x15AE43FE } ∧ throughNearest n ≠ lost :=
  ⟨⟨false, [7], [0, 3, 8, 5, 3, 1], some (-26)⟩, by decide +kernel⟩

/-- Near misses are restored as they are read. -/
theorem ofNumeral?_nearMiss : ∀ d ∈ nearMisses, ∀ negative,
    ofNumeral? (d.numeral negative) = some (d.nearest32 negative) := by
  decide +kernel

/-- Of the near misses that are shortest decimals one is lost. -/
theorem throughNearest_nearMiss : ∀ d ∈ nearMisses, ∀ negative,
    (d.nearest32 negative).rank = lost.rank ∨
      binary32.shortest? (d.nearest32 negative).rank 38 100 ≠ some d ∨
      throughNearest (d.numeral negative) = d.nearest32 negative := by
  decide +kernel

end Binary32

namespace Decimal

variable {d : Decimal} {rank : Nat} {n : Numeral}

theorem Shortest.nearest32_eq (h : d.Shortest rank) (htop : rank < binary32.top)
    (negative : Bool) : d.nearest32 negative = ⟨negative, rank, htop.le⟩ := by
  have howned := h.owned
  rw [← d.ratio_div] at howned
  simp only [nearest32, Binary32.ofRatio,
    Format.nearest_eq_of_owned binary32_precision d.ratio_pos htop howned]

/-- A numeral that a decimal is written as is read as a value of 64 bits near the decimal. -/
theorem Spelled.rank64?_reads (h : d.Spelled n) :
    ∃ r, rank64? n = some r ∧ Reads d.value r := by
  obtain ⟨r, hr, hreads⟩ := scaledRank?_reads h.digits_pos h.digits_lt h.le_exponent
    h.exponent_le
  refine ⟨r, ?_, h.value ▸ hreads⟩
  rw [rank64?, significandOf_eq (h.digits_lt.trans (by decide))]
  exact hr

/-- Digits of moderate number with an exponent of moderate size are a number of moderate size. -/
theorem Spelled.bounds (h : d.Spelled n) :
    1 / 2 ^ 250 ≤ d.value ∧ d.value ≤ 2 ^ 250 := by
  have hdigits : (n.decimal.digits : ℚ) ≤ 2 ^ 53 := by exact_mod_cast h.digits_lt.le
  have hone : (1 : ℚ) ≤ n.decimal.digits := by exact_mod_cast h.digits_pos
  have hlow : (10 : ℚ) ^ (-61 : ℤ) ≤ 10 ^ n.decimal.exponent :=
    zpow_le_zpow_right₀ (by norm_num) h.le_exponent
  have hhigh : (10 : ℚ) ^ n.decimal.exponent ≤ 10 ^ (58 : ℤ) :=
    zpow_le_zpow_right₀ (by norm_num) h.exponent_le
  rw [← h.value, Decimal.value]
  constructor
  · exact (by norm_num : (1 : ℚ) / 2 ^ 250 ≤ 1 * 10 ^ (-61 : ℤ)).trans
      (mul_le_mul hone hlow (by positivity) (by linarith))
  · exact (mul_le_mul hdigits hhigh (by positivity) (by positivity)).trans (by norm_num)

end Decimal

namespace Binary32

/-- Every finite value is written as a proper numeral. It is restored from it as it is read, and all
but one and its negative through the nearest value of 64 bits. -/
theorem restored {x : Binary32} (h : x.isFinite = true) :
    ∃ n, x.numeral? = some n ∧ n.Proper ∧ ofNumeral? n = some x ∧
      (x.rank ≠ lost.rank → throughNearest n = x) := by
  have htop : x.rank < binary32.top := of_decide_eq_true h
  obtain ⟨negative, rank, hle⟩ := x
  simp only at htop ⊢
  rcases Nat.eq_zero_or_pos rank with rfl | hr
  · have hzero : ∀ negative, ofNumeral? ⟨negative, [Numeral.zeroDigit], [Numeral.zeroDigit], none⟩ =
          some { negative, rank := 0 } ∧
        throughNearest ⟨negative, [Numeral.zeroDigit], [Numeral.zeroDigit], none⟩ =
          { negative, rank := 0 } := by
      decide +kernel
    exact ⟨_, rfl, ⟨by simp, fun _ ↦ by simp⟩, (hzero negative).1, fun _ ↦ (hzero negative).2⟩
  · obtain ⟨d, hd⟩ := exists_shortest hr
    have hshortest := shortest_spec hr htop hd
    have hspelled := hshortest.spelled hr negative
    obtain ⟨hnegative, hwhole⟩ := Decimal.numeral_face d negative
    have hnearest := hshortest.nearest32_eq htop negative
    have hword : isWordInteger (d.numeral negative) = false := by
      rw [isWordInteger, hwhole, Bool.false_and]
    refine ⟨d.numeral negative, ?_, hspelled.proper, ?_, fun hlost ↦ ?_⟩
    · rw [numeral?]
      simp only [if_neg hr.ne', isFinite, htop, decide_true, if_true, hd, Option.map_some]
    · by_cases hmiss : d ∈ nearMisses
      · rw [ofNumeral?_nearMiss d hmiss, hnearest]
      · obtain ⟨r, hrank, hreads⟩ := hspelled.rank64?_reads
        rw [ofNumeral?, hword, if_neg Bool.false_ne_true, hrank, Option.map_some, Option.some.injEq]
        simp only [hnegative, ofRatio, hshortest.nearest_eq htop hmiss hreads]
    · by_cases hmiss : d ∈ nearMisses
      · rcases throughNearest_nearMiss d hmiss negative with hrank | hother | hsame
        · rw [hnearest] at hrank
          exact absurd hrank hlost
        · rw [hnearest] at hother
          exact absurd hd hother
        · rw [hsame, hnearest]
      · obtain ⟨hlow, hhigh⟩ := hspelled.bounds
        rw [← hspelled.value] at hlow hhigh
        have hreads := reads_nearest hlow hhigh
        rw [hspelled.value] at hreads
        rw [throughNearest]
        simp only [hnegative, ofRatio, hshortest.nearest_eq htop hmiss hreads]

end Binary32

end RenderKit.Number
