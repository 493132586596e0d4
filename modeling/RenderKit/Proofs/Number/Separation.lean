import RenderKit.Proofs.Number.Shortest
import Mathlib.Data.Nat.GCD.Basic

/-!
# Decimals near midpoints

A midpoint of two values of 32 bits is an odd multiple of a power of two. A decimal that is nearer
to it than rounding twice to 64 bits can tell is the midpoint itself, or one of three decimals
(`eq_midpoint_or_mem_nearMisses`). On one grid the decimal is a multiple `n` of a step, so `n` steps
are almost an odd number `m` of half gaps. If `p` half gaps are almost `s` steps for a best
approximation `p / s` of the step, `n * p` and `m * s` differ by less than one, and so `n` is a
multiple of `s`: all that is left is to try the few multiples that are small enough. There is a best
approximation that is good enough for every gap (`exists_separates`).
-/

namespace RenderKit.Number

/-- The relative error of a number of 64 bits that was rounded twice. -/
def readingError : ℚ :=
  (2 ^ 20 + 1) / 2 ^ 72

theorem readingError_pos : 0 < readingError := by
  rw [readingError]
  positivity

/-- The coarsest grid on which a decimal can be near a midpoint, by the doublings of the gap. -/
def gridOf (doublings : Nat) : Int :=
  (((doublings : Int) - 150) * 30103 + 99999) / 100000

/-- A step of the grid in half gaps, as numerator and denominator. -/
def stepOf (doublings : Nat) : Nat × Nat :=
  ((Format.powerOfTen (gridOf doublings)).1 * (powerOfTwo (150 - doublings)).1,
    (Format.powerOfTen (gridOf doublings)).2 * (powerOfTwo (150 - doublings)).2)

/-- The decimals that are too near a midpoint for rounding twice to 64 bits to tell. -/
def nearMisses : List Decimal :=
  [⟨7038531, -32⟩, ⟨14077062, -32⟩, ⟨25645849, -15⟩]

/-- The best approximations of a quotient, from its continued fraction. -/
def convergents : Nat → Nat → Nat → Nat × Nat → Nat × Nat → List (Nat × Nat)
  | 0, _, _, _, _ => []
  | fuel + 1, num, den, last, this =>
    if den = 0 then []
    else
      let next := (num / den * this.1 + last.1, num / den * this.2 + last.2)
      next :: convergents fuel den (num % den) this next

/-- How far some steps are from some half gaps, by the denominator of a step. -/
def misfit (doublings p s : Nat) : Nat :=
  ((stepOf doublings).1 * s - p * (stepOf doublings).2) +
    (p * (stepOf doublings).2 - (stepOf doublings).1 * s)

/-- An approximation `p / s` of a step is good enough: a multiple of the step that is near an odd
number of half gaps is a multiple of `s`, and is that number or one of the near misses. -/
structure Separates (doublings p s : Nat) : Prop where
  coprime : p.Coprime s
  small : (2 ^ 20 + 1) * (s * (stepOf doublings).1) + 2 ^ 72 * misfit doublings p s <
    2 ^ 47 * (stepOf doublings).1
  apart : misfit doublings p s = 0 ∨
    (2 ^ 20 + 1) * (s * (stepOf doublings).1) < 2 ^ 72 * misfit doublings p s ∨
    2 ^ 25 ≤ 3 * p ∧ ⟨s, gridOf doublings⟩ ∈ nearMisses

instance (doublings p s : Nat) : Decidable (Separates doublings p s) :=
  decidable_of_iff (_ ∧ _ ∧ _) ⟨fun h ↦ ⟨h.1, h.2.1, h.2.2⟩, fun h ↦ ⟨h.1, h.2, h.3⟩⟩

/-- There is a good approximation for every gap between finite values. -/
theorem exists_separates {doublings : Nat} (h : doublings < 254) :
    ∃ p s, Separates doublings p s := by
  have hfind : ∀ doublings < 254,
      ((convergents 100 (stepOf doublings).1 (stepOf doublings).2 (0, 1) (1, 0)).find? fun c =>
        Separates doublings c.1 c.2).isSome := by
    decide +kernel
  obtain ⟨c, hc⟩ := Option.isSome_iff_exists.mp (hfind doublings h)
  have hseparates := List.find?_some hc
  exact ⟨c.1, c.2, of_decide_eq_true hseparates⟩

theorem stepOf_pos (doublings : Nat) : 0 < (stepOf doublings).1 ∧ 0 < (stepOf doublings).2 :=
  ⟨Nat.mul_pos (Format.powerOfTen_pos _).1 (powerOfTwo_pos _).1,
    Nat.mul_pos (Format.powerOfTen_pos _).2 (powerOfTwo_pos _).2⟩

/-- A step of the grid in half gaps. -/
def step (doublings : Nat) : ℚ :=
  (stepOf doublings).1 / (stepOf doublings).2

theorem step_eq (doublings : Nat) :
    step doublings = 10 ^ gridOf doublings * 2 ^ (150 - doublings : ℤ) := by
  rw [← Format.powerOfTen_div, ← powerOfTwo_div, div_mul_div_comm, step, stepOf]
  push_cast
  rfl

theorem step_pos (doublings : Nat) : 0 < step doublings := by
  obtain ⟨hnum, hden⟩ := stepOf_pos doublings
  exact div_pos (by exact_mod_cast hnum) (by exact_mod_cast hden)

theorem abs_sub_step (doublings p s : Nat) :
    |s * step doublings - p| = misfit doublings p s / (stepOf doublings).2 := by
  have hden : (0 : ℚ) < (stepOf doublings).2 := by exact_mod_cast (stepOf_pos doublings).2
  have hsplit : s * step doublings - p =
      ((stepOf doublings).1 * s - p * (stepOf doublings).2) / (stepOf doublings).2 := by
    rw [step]
    field_simp
  rw [hsplit, abs_div, abs_of_pos hden, misfit]
  congr 1
  rcases Nat.le_total ((stepOf doublings).1 * s) (p * (stepOf doublings).2) with hle | hge
  · rw [Nat.sub_eq_zero_of_le hle, Nat.zero_add, Nat.cast_sub hle]
    push_cast
    rw [abs_of_nonpos (sub_nonpos.mpr (by exact_mod_cast hle)), neg_sub]
  · rw [Nat.sub_eq_zero_of_le hge, Nat.add_zero, Nat.cast_sub hge]
    push_cast
    rw [abs_of_nonneg (sub_nonneg.mpr (by exact_mod_cast hge))]

section

variable {doublings p s n m : Nat}

/-- What is near a number of half gaps is not far above it. -/
theorem le_of_near {x : ℚ} (hm : m < 2 ^ 25) (hnear : |x - m| ≤ readingError * x) :
    x ≤ 2 ^ 25 := by
  have hm' : (m : ℚ) + 1 ≤ 2 ^ 25 := by exact_mod_cast hm
  have hupper := (abs_le.mp hnear).2
  rw [readingError] at hupper
  linarith

/-- Steps that are near half gaps are as many times as many as those of the approximation. -/
theorem Separates.exists_multiple (h : Separates doublings p s) (hpos : 0 < m) (hm : m < 2 ^ 25)
    (hnear : |n * step doublings - m| ≤ readingError * (n * step doublings)) :
    ∃ t, m = t * p ∧ n = t * s := by
  obtain ⟨hnum, hden⟩ := stepOf_pos doublings
  have hden' : (0 : ℚ) < (stepOf doublings).2 := by exact_mod_cast hden
  have hle := le_of_near hm hnear
  have hstep := step_pos doublings
  have hsmall : (readingError * 2 ^ 25) * (s * step doublings) +
      2 ^ 25 * |s * step doublings - p| < step doublings := by
    have hsmall : ((2 : ℚ) ^ 20 + 1) * (s * (stepOf doublings).1) + 2 ^ 72 * misfit doublings p s <
        2 ^ 47 * (stepOf doublings).1 := by exact_mod_cast h.small
    rw [abs_sub_step, step, readingError, mul_div_assoc', ← mul_div_assoc, ← mul_div_assoc,
      ← add_div, div_lt_div_iff_of_pos_right hden']
    linarith
  have hcross : |(n : ℚ) * p - m * s| < 1 := by
    have hsplit : ((n : ℚ) * p - m * s) = s * (n * step doublings - m) -
        n * (s * step doublings - p) := by ring
    have hbound : |(n : ℚ) * p - m * s| ≤ s * (readingError * 2 ^ 25) +
        n * |s * step doublings - p| := by
      have herror : |n * step doublings - m| ≤ readingError * 2 ^ 25 :=
        hnear.trans (mul_le_mul_of_nonneg_left hle readingError_pos.le)
      rw [hsplit]
      refine (abs_sub _ _).trans (add_le_add ?_ ?_)
      · rw [abs_mul, Nat.abs_cast]
        exact mul_le_mul_of_nonneg_left herror (Nat.cast_nonneg s)
      · rw [abs_mul, Nat.abs_cast]
    apply lt_of_mul_lt_mul_right _ hstep.le
    calc |(n : ℚ) * p - m * s| * step doublings
        ≤ (s * (readingError * 2 ^ 25) + n * |s * step doublings - p|) * step doublings :=
          mul_le_mul_of_nonneg_right hbound hstep.le
      _ = (readingError * 2 ^ 25) * (s * step doublings) +
          n * step doublings * |s * step doublings - p| := by ring
      _ ≤ (readingError * 2 ^ 25) * (s * step doublings) +
          2 ^ 25 * |s * step doublings - p| :=
        add_le_add_right (mul_le_mul_of_nonneg_right hle (abs_nonneg _)) _
      _ < 1 * step doublings := by rwa [one_mul]
  have hequal : n * p = m * s := by
    have hint : |((n * p : Nat) : ℤ) - (m * s : Nat)| < 1 := by exact_mod_cast hcross
    have := Int.abs_lt_one_iff.mp hint
    omega
  obtain ⟨t, rfl⟩ : p ∣ m := h.coprime.dvd_of_dvd_mul_right ⟨n, by rw [← hequal, Nat.mul_comm]⟩
  have hp : 0 < p := Nat.pos_of_mul_pos_right hpos
  refine ⟨t, Nat.mul_comm .., Nat.eq_of_mul_eq_mul_right hp ?_⟩
  rw [hequal]
  ring

/-- Steps that are near an odd number of half gaps are that number, or a near miss. -/
theorem eq_or_mem_nearMisses (h : doublings < 254) (hodd : m % 2 = 1) (hm : m < 2 ^ 25)
    (hnear : |n * step doublings - m| ≤ readingError * (n * step doublings)) :
    n * step doublings = m ∨ ⟨n, gridOf doublings⟩ ∈ nearMisses := by
  obtain ⟨p, s, hseparates⟩ := exists_separates h
  obtain ⟨t, rfl, rfl⟩ := hseparates.exists_multiple (by omega) hm hnear
  have ht : 0 < t := Nat.pos_of_ne_zero fun hzero ↦ by simp [hzero] at hodd
  have ht' : (0 : ℚ) < t := by exact_mod_cast ht
  have hden : (0 : ℚ) < (stepOf doublings).2 := by exact_mod_cast (stepOf_pos doublings).2
  have hdistance : |(t * s : Nat) * step doublings - (t * p : Nat)| =
      t * |s * step doublings - p| := by
    push_cast
    rw [mul_assoc, ← mul_sub, abs_mul, Nat.abs_cast]
  rcases hseparates.apart with hzero | hfar | ⟨hlarge, hmiss⟩
  · left
    rw [abs_sub_step doublings p s, hzero, Nat.cast_zero, zero_div, mul_zero] at hdistance
    exact sub_eq_zero.mp (abs_eq_zero.mp hdistance)
  · exfalso
    rw [hdistance, Nat.cast_mul, mul_assoc, mul_left_comm, mul_le_mul_iff_of_pos_left ht',
      abs_sub_step, step, readingError, mul_div_assoc', ← mul_div_assoc,
      div_le_div_iff_of_pos_right hden] at hnear
    have hfar' : ((2 : ℚ) ^ 20 + 1) * (s * (stepOf doublings).1) <
        2 ^ 72 * misfit doublings p s := by exact_mod_cast hfar
    linarith
  · right
    have hlt : t < 3 := Nat.lt_of_mul_lt_mul_right (hm.trans_le hlarge)
    obtain rfl : t = 1 := by
      have hne : t ≠ 2 := fun htwo ↦ by
        rw [htwo, Nat.mul_mod_right] at hodd
        cases hodd
      omega
    rwa [Nat.one_mul]

end

/-! ### Decimals -/

variable {d : Decimal} {rank below : Nat}

theorem half_gap (rank : Nat) :
    binary32.gap rank / 2 = 2 ^ (binary32.doublings rank - 150 : ℤ) := by
  have he : (binary32.doublings rank - 150 : ℤ) = binary32.least + binary32.doublings rank - 1 := by
    have hleast : binary32.least = -149 := rfl
    omega
  rw [he, zpow_sub_one₀ two_ne_zero, Format.gap, div_eq_mul_inv]

/-- A midpoint is an odd number of half gaps. -/
theorem midpoint_eq (rank : Nat) : binary32.midpoint rank =
    (2 * binary32.significand rank + 1 : Nat) * 2 ^ (binary32.doublings rank - 150 : ℤ) := by
  rw [Format.midpoint, Format.value_eq, ← half_gap]
  push_cast
  ring

/-- A decimal whose grid is about as wide as half a gap is on the coarsest grid for it. -/
theorem gridOf_le {doublings : Nat} {exponent : Int} (h : doublings < 254)
    (hwide : (1 - 1 / 2 ^ 26) * (2 : ℚ) ^ (doublings - 150 : ℤ) ≤ 10 ^ exponent) :
    gridOf doublings ≤ exponent := by
  have htenth : ∀ doublings < 254,
      (stepOf doublings).1 * 2 ^ 26 + 10 * (stepOf doublings).2 <
        10 * 2 ^ 26 * (stepOf doublings).2 := by
    decide +kernel
  have hden : (0 : ℚ) < (stepOf doublings).2 := by exact_mod_cast (stepOf_pos doublings).2
  have hstep : step doublings < 10 * (1 - 1 / 2 ^ 26) := by
    have htenth : ((stepOf doublings).1 : ℚ) * 2 ^ 26 + 10 * (stepOf doublings).2 <
        10 * 2 ^ 26 * (stepOf doublings).2 := by exact_mod_cast htenth doublings h
    rw [step, div_lt_iff₀ hden]
    linarith
  by_contra! hlt
  have hpow : (10 : ℚ) ^ exponent * 10 ≤ 10 ^ gridOf doublings := by
    rw [← zpow_add_one₀ (by norm_num)]
    exact zpow_le_zpow_right₀ (by norm_num) hlt
  have hhalf : (0 : ℚ) < 2 ^ (doublings - 150 : ℤ) := zpow_pos two_pos _
  have hgrid : (10 : ℚ) ^ gridOf doublings = step doublings * 2 ^ (doublings - 150 : ℤ) := by
    rw [step_eq, mul_assoc, ← zpow_add₀ two_ne_zero]
    simp
  rw [hgrid] at hpow
  have := mul_lt_mul_of_pos_right hstep hhalf
  linarith

/-- The shortest decimal of a finite value is a midpoint at the value's side, or a near miss, if it
is too near for rounding twice to tell. -/
theorem Decimal.Shortest.eq_midpoint_or_mem_nearMisses (h : d.Shortest rank)
    (htop : rank < binary32.top) (hside : below = rank ∨ below + 1 = rank)
    (hnear : |d.value - binary32.midpoint below| ≤ readingError * d.value) :
    d.value = binary32.midpoint below ∨ d ∈ nearMisses := by
  have hdoublings : binary32.doublings below < 254 := doublings_lt (by omega)
  have hsignificand := Format.significand_lt binary32 below
  have hhalf : (0 : ℚ) < 2 ^ (binary32.doublings below - 150 : ℤ) := zpow_pos two_pos _
  have hside' : |binary32.value rank - binary32.midpoint below| =
      2 ^ (binary32.doublings below - 150 : ℤ) := by
    rw [← half_gap, Format.midpoint]
    rcases hside with rfl | rfl
    · rw [sub_add_cancel_left, abs_neg, abs_of_pos (half_pos (Format.gap_pos _ _))]
    · rw [Format.value_succ, add_sub_add_left_eq_sub, sub_half,
        abs_of_pos (half_pos (Format.gap_pos _ _))]
  rw [midpoint_eq] at hnear hside' ⊢
  obtain ⟨m, hm⟩ : ∃ m, 2 * binary32.significand below + 1 = m := ⟨_, rfl⟩
  have hm' : m < 2 ^ 25 := by
    have hbinade : 2 * binary32.binade = 2 ^ 24 := rfl
    omega
  obtain ⟨x, hx⟩ : ∃ x, d.value = x * 2 ^ (binary32.doublings below - 150 : ℤ) :=
    ⟨_, (div_mul_cancel₀ _ hhalf.ne').symm⟩
  rw [hm] at hnear hside' ⊢
  rw [hx, ← sub_mul, abs_mul, abs_of_pos hhalf, ← mul_assoc,
    mul_le_mul_iff_of_pos_right hhalf] at hnear
  have hle := le_of_near hm' hnear
  have hgrid : gridOf (binary32.doublings below) ≤ d.exponent := by
    have herror : |x - m| ≤ 1 / 2 ^ 26 := by
      have := mul_le_mul_of_nonneg_left hle readingError_pos.le
      have hsmall : readingError * 2 ^ 25 ≤ 1 / 2 ^ 26 := by
        rw [readingError]
        norm_num
      linarith
    have hdistance : |d.value - m * 2 ^ (binary32.doublings below - 150 : ℤ)| ≤
        1 / 2 ^ 26 * 2 ^ (binary32.doublings below - 150 : ℤ) := by
      rw [hx, ← sub_mul, abs_mul, abs_of_pos hhalf]
      exact mul_le_mul_of_nonneg_right herror hhalf.le
    have htriangle := abs_sub_le (binary32.value rank) d.value
      (m * 2 ^ (binary32.doublings below - 150 : ℤ))
    have hvalue := h.near
    rw [hside', abs_sub_comm (binary32.value rank)] at htriangle
    apply gridOf_le hdoublings
    linarith
  obtain ⟨k, hk⟩ := Int.exists_add_of_le hgrid
  have hsteps : x = (d.digits * 10 ^ k : Nat) * step (binary32.doublings below) := by
    have hone : (2 : ℚ) ^ (150 - binary32.doublings below : ℤ) *
        2 ^ (binary32.doublings below - 150 : ℤ) = 1 := by
      rw [← zpow_add₀ two_ne_zero, ← neg_sub, neg_add_cancel, zpow_zero]
    apply mul_right_cancel₀ hhalf.ne'
    rw [← hx, mul_assoc, step_eq, mul_assoc, hone, mul_one, Decimal.value, hk,
      zpow_add₀ (by norm_num), zpow_natCast]
    push_cast
    ring
  rw [hsteps] at hnear
  rcases RenderKit.Number.eq_or_mem_nearMisses hdoublings (by omega) hm' hnear with heq | hmiss
  · left
    rw [hx, hsteps, heq]
  · right
    -- No near miss has a zero at its end, so the decimal is on the coarsest grid itself.
    have hlast : ∀ miss ∈ nearMisses, miss.digits % 10 ≠ 0 := by decide
    have hzero : k = 0 := by
      cases k with
      | zero => rfl
      | succ k =>
        apply absurd _ (hlast _ hmiss)
        rw [Nat.pow_succ, ← Nat.mul_assoc, Nat.mul_mod_left]
    rw [hzero, Nat.pow_zero, Nat.mul_one] at hmiss
    rw [hzero, Nat.cast_zero, add_zero] at hk
    rwa [← hk] at hmiss

end RenderKit.Number
