import RenderKit.Number.Shortest
import RenderKit.Proofs.Number.Nearest
import Mathlib.Tactic.NormNum

/-!
# Shortest decimals

A decimal reads back as a value just if the value owns it (`readsBack_iff_owned`), and the shortest
one of a value is one of the value's neighbours on its grid. On a grid that is finer than half the
distance to the value below, the multiple below a value reads back. So every value of 32 bits has a
shortest decimal, its grid is not much finer than the values (`shortest_spec`), and it has few
digits.
-/

namespace RenderKit.Number

theorem Format.powerOfTen_pos (e : Int) : 0 < (powerOfTen e).1 ∧ 0 < (powerOfTen e).2 := by
  cases e with
  | ofNat n => exact ⟨Nat.pow_pos (by decide), Nat.one_pos⟩
  | negSucc n => exact ⟨Nat.one_pos, Nat.pow_pos (by decide)⟩

theorem Format.powerOfTen_div (e : Int) :
    ((powerOfTen e).1 : ℚ) / ((powerOfTen e).2 : ℚ) = (10 : ℚ) ^ e := by
  cases e with
  | ofNat n => simp [powerOfTen]
  | negSucc n => simp [powerOfTen, zpow_negSucc]

/-- The number that a decimal stands for. -/
def Decimal.value (d : Decimal) : ℚ :=
  d.digits * 10 ^ d.exponent

namespace Format

variable {f : Format} {rank : Nat} {d : Decimal} {exponent : Int}

/-! ### What reads back -/

theorem two_zpow_pred (e : ℤ) : 2 * (2 : ℚ) ^ (e - 1) = 2 ^ e := by
  rw [← zpow_one_add₀ two_ne_zero, add_sub_cancel]

/-- A value and its rank are both even or both odd. -/
theorem significand_mod_two (hp : 2 ≤ f.precision) (rank : Nat) :
    f.significand rank % 2 = rank % 2 := by
  have heven := binade_even hp
  rw [significand]
  split
  · rfl
  · rw [Nat.add_mod, heven, Nat.zero_add, Nat.mod_mod,
      Nat.mod_mod_of_dvd _ (Nat.dvd_of_mod_eq_zero heven)]

/-- What a value is said to own it owns. -/
theorem owns_iff_owned (hp : 2 ≤ f.precision) (hr : 0 < rank) {num den : Nat} (hd : 0 < den) :
    f.owns rank num den = true ↔ f.Owned rank (num / den * 2 ^ (f.least - 1)) := by
  obtain ⟨below, rfl⟩ : ∃ below, rank = below + 1 := ⟨rank - 1, by omega⟩
  have hden : (0 : ℚ) < den := by exact_mod_cast hd
  have hhalf : (0 : ℚ) < 2 ^ (f.least - 1) := zpow_pos two_pos _
  have hmid (r : Nat) :
      f.midpoint r = (f.units r + f.units (r + 1) : Nat) * 2 ^ (f.least - 1) := by
    have hmid : f.midpoint r = (f.value r + f.value (r + 1)) / 2 := by
      rw [midpoint, value_succ]
      ring
    rw [hmid, value, value, ← two_zpow_pred]
    push_cast
    ring
  have hlower : f.midpoint below ≤ num / den * 2 ^ (f.least - 1) ↔
      (f.units below + f.units (below + 1)) * den ≤ num := by
    rw [hmid, mul_le_mul_iff_of_pos_right hhalf, le_div_iff₀ hden]
    exact_mod_cast Iff.rfl
  have hupper : num / den * 2 ^ (f.least - 1) ≤ f.midpoint (below + 1) ↔
      num ≤ (f.units (below + 1) + f.units (below + 1 + 1)) * den := by
    rw [hmid, mul_le_mul_iff_of_pos_right hhalf, div_le_iff₀ hden]
    exact_mod_cast Iff.rfl
  have hlower' : num / den * 2 ^ (f.least - 1) = f.midpoint below ↔
      num = (f.units below + f.units (below + 1)) * den := by
    rw [hmid, mul_left_inj' hhalf.ne', div_eq_iff hden.ne']
    exact_mod_cast Iff.rfl
  have hupper' : num / den * 2 ^ (f.least - 1) = f.midpoint (below + 1) ↔
      num = (f.units (below + 1) + f.units (below + 1 + 1)) * den := by
    rw [hmid, mul_left_inj' hhalf.ne', div_eq_iff hden.ne']
    exact_mod_cast Iff.rfl
  have hlast (P : Nat → Prop) : (∀ r, below + 1 = r + 1 → P r) ↔ P below :=
    ⟨fun h ↦ h below rfl, fun h r he ↦ Nat.succ.inj he ▸ h⟩
  have hiff : f.Owned (below + 1) (num / den * 2 ^ (f.least - 1)) ↔
      (f.units below + f.units (below + 1)) * den ≤ num ∧
        num ≤ (f.units (below + 1) + f.units (below + 1 + 1)) * den ∧
        (num = (f.units below + f.units (below + 1)) * den → (below + 1) % 2 = 0) ∧
        (num = (f.units (below + 1) + f.units (below + 1 + 1)) * den → (below + 1) % 2 = 0) := by
    rw [← hlower, ← hupper, ← hlower', ← hupper']
    constructor
    · intro h
      exact ⟨h.lower below rfl, h.upper, h.even_of_lower below rfl, h.even_of_upper⟩
    · rintro ⟨h₁, h₂, h₃, h₄⟩
      exact ⟨(hlast _).mpr h₁, h₂, (hlast _).mpr h₃, h₄⟩
  rw [hiff, owns, significand_mod_two hp, Nat.add_sub_cancel]
  split
  · next heven => simp [heven]
  · next hodd =>
    simp only [hodd, Bool.and_eq_true, decide_eq_true_eq, imp_false]
    omega

/-- A decimal in units of half the smallest positive value is a number of them. -/
theorem halfUnits_div (f : Format) (d : Decimal) :
    ((f.halfUnits d).1 : ℚ) / (f.halfUnits d).2 * 2 ^ (f.least - 1) = d.value := by
  have hunits : f.halfUnits d =
      (d.digits * (powerOfTen d.exponent).1 * (powerOfTwo (f.least - 1)).2,
        (powerOfTen d.exponent).2 * (powerOfTwo (f.least - 1)).1) := rfl
  obtain ⟨htwo, htwo'⟩ := powerOfTwo_pos (f.least - 1)
  have hten := (powerOfTen_pos d.exponent).2
  rw [hunits, Decimal.value, ← powerOfTwo_div, ← powerOfTen_div]
  push_cast
  field_simp

theorem halfUnits_pos (f : Format) (d : Decimal) : 0 < (f.halfUnits d).2 :=
  Nat.mul_pos (powerOfTen_pos _).2 (powerOfTwo_pos _).1

/-- A decimal reads back as the value that owns it. -/
theorem readsBack_iff_owned (hp : 2 ≤ f.precision) (hr : 0 < rank) :
    f.readsBack rank d = true ↔ f.Owned rank d.value := by
  rw [← halfUnits_div f d]
  exact owns_iff_owned hp hr (halfUnits_pos f d)

/-! ### Candidates -/

/-- A value is between its neighbours on a grid. -/
theorem onGrid_bounds (f : Format) (rank : Nat) (exponent : Int) :
    (f.onGrid rank exponent).1 * (10 : ℚ) ^ exponent ≤ f.value rank ∧
      f.value rank < ((f.onGrid rank exponent).1 + 1) * (10 : ℚ) ^ exponent := by
  have hbelow : (f.onGrid rank exponent).1 =
      2 * f.units rank * (f.halfUnits ⟨1, exponent⟩).2 / (f.halfUnits ⟨1, exponent⟩).1 := rfl
  have hgrid := halfUnits_div f ⟨1, exponent⟩
  have hden : (0 : ℚ) < (f.halfUnits ⟨1, exponent⟩).2 := by
    exact_mod_cast halfUnits_pos f ⟨1, exponent⟩
  have hhalf : (0 : ℚ) < 2 ^ (f.least - 1) := zpow_pos two_pos _
  have hvalue : f.value rank = 2 * f.units rank * 2 ^ (f.least - 1) := by
    rw [value, ← two_zpow_pred]
    ring
  rw [Decimal.value, Nat.cast_one, one_mul] at hgrid
  rw [hbelow, hvalue, ← hgrid]
  generalize f.halfUnits ⟨1, exponent⟩ = grid at hgrid hden ⊢
  have hpos : 0 < grid.1 := by
    by_contra! hzero
    rw [Nat.le_zero.mp hzero, Nat.cast_zero, zero_div, zero_mul] at hgrid
    exact absurd hgrid (zpow_pos (by norm_num) _).ne
  have hlow := Nat.div_mul_le_self (2 * f.units rank * grid.2) grid.1
  have hhigh := Nat.lt_div_mul_add (a := 2 * f.units rank * grid.2) hpos
  generalize 2 * f.units rank * grid.2 / grid.1 = below at hlow hhigh
  have hlow' : (below : ℚ) * grid.1 ≤ 2 * f.units rank * grid.2 := by exact_mod_cast hlow
  have hhigh' : (2 : ℚ) * f.units rank * grid.2 < below * grid.1 + grid.1 := by
    exact_mod_cast hhigh
  rw [← mul_assoc, ← mul_assoc, mul_le_mul_iff_of_pos_right hhalf,
    mul_lt_mul_iff_of_pos_right hhalf, ← mul_div_assoc, ← mul_div_assoc, div_le_iff₀ hden,
    lt_div_iff₀ hden, add_one_mul]
  exact ⟨hlow', hhigh'⟩

/-- The decimal that is chosen on a grid reads back, and is one of the value's neighbours there. -/
theorem of_candidate? (h : f.candidate? rank exponent = some d) :
    f.readsBack rank d = true ∧ d.exponent = exponent ∧
      (d.digits = (f.onGrid rank exponent).1 ∨ d.digits = (f.onGrid rank exponent).1 + 1) := by
  rw [candidate?] at h
  simp only at h
  split at h
  · cases h
  · next hlow _ => cases h; exact ⟨hlow, rfl, .inl rfl⟩
  · next _ hhigh => cases h; exact ⟨hhigh, rfl, .inr rfl⟩
  · next hlow hhigh =>
    split at h
    · cases h; exact ⟨hlow, rfl, .inl rfl⟩
    · cases h; exact ⟨hhigh, rfl, .inr rfl⟩
    · cases h
      split
      · exact ⟨hlow, rfl, .inl rfl⟩
      · exact ⟨hhigh, rfl, .inr rfl⟩

/-- A chosen decimal is nearer to its value than the grid is wide. -/
theorem near_of_candidate? (h : f.candidate? rank exponent = some d) :
    |d.value - f.value rank| ≤ 10 ^ d.exponent := by
  obtain ⟨-, rfl, hdigits⟩ := of_candidate? h
  obtain ⟨hlow, hhigh⟩ := onGrid_bounds f rank d.exponent
  rw [add_one_mul] at hhigh
  rw [Decimal.value, abs_le]
  rcases hdigits with hdigits | hdigits
  · rw [hdigits]
    constructor <;> linarith
  · rw [hdigits, Nat.cast_succ, add_one_mul]
    constructor <;> linarith

/-- On a grid finer than half the distance to the value below there is a decimal. -/
theorem isSome_candidate? (hp : 2 ≤ f.precision) {below : Nat} (hrank : rank = below + 1)
    (hfine : (10 : ℚ) ^ exponent ≤ f.gap below / 2) : (f.candidate? rank exponent).isSome := by
  subst hrank
  obtain ⟨hlow, hhigh⟩ := onGrid_bounds f (below + 1) exponent
  have hmid : f.midpoint below < (f.onGrid (below + 1) exponent).1 * (10 : ℚ) ^ exponent := by
    rw [value_succ, add_one_mul] at hhigh
    rw [midpoint]
    linarith
  have hupper := hlow.trans_lt (lt_midpoint f (below + 1))
  have hback : f.readsBack (below + 1) ⟨(f.onGrid (below + 1) exponent).1, exponent⟩ = true := by
    rw [readsBack_iff_owned hp (Nat.succ_pos below), Decimal.value]
    constructor
    · intro r hr
      obtain rfl := Nat.succ.inj hr
      exact hmid.le
    · exact hupper.le
    · intro r hr he
      obtain rfl := Nat.succ.inj hr
      exact absurd he hmid.ne'
    · intro he
      exact absurd he hupper.ne
  rw [candidate?]
  simp only [hback]
  split
  · simp_all
  · rfl
  · rfl
  · split <;> rfl

end Format

/-! ### Shortest decimals of 32 bits -/

/-- What is known of the shortest decimal of a value: the value owns it, and is nearer to it than
its grid is wide; the next grid is not finer than half the distance to the value below. -/
structure Decimal.Shortest (d : Decimal) (rank : Nat) : Prop where
  owned : binary32.Owned rank d.value
  near : |d.value - binary32.value rank| ≤ 10 ^ d.exponent
  coarse : ∀ below, rank = below + 1 → binary32.gap below / 2 < 10 ^ (d.exponent + 1)
  exponent_le : d.exponent ≤ 38
  le_exponent : -61 ≤ d.exponent

theorem binary32_precision : 2 ≤ binary32.precision := by
  decide

variable {rank : Nat} {d : Decimal}

theorem gap_lower (rank : Nat) : (2 : ℚ) ^ (-149 : ℤ) ≤ binary32.gap rank :=
  zpow_le_zpow_right₀ one_le_two (Int.le_add_of_nonneg_right (Int.natCast_nonneg _))

theorem doublings_lt (h : rank < binary32.top) : binary32.doublings rank < 254 := by
  have htop : binary32.top = 255 * binary32.binade := rfl
  have := (Nat.div_lt_iff_lt_mul binary32.binade_pos).mpr (htop ▸ h)
  rw [Format.doublings]
  omega

theorem gap_upper (h : rank < binary32.top) : binary32.gap rank ≤ (2 : ℚ) ^ (104 : ℤ) := by
  have hdoublings := doublings_lt h
  have hleast : binary32.least = -149 := rfl
  exact zpow_le_zpow_right₀ one_le_two (by omega)

/-- Every positive value of 32 bits has a shortest decimal. -/
theorem exists_shortest (hr : 0 < rank) : ∃ d, binary32.shortest? rank 38 100 = some d := by
  have hfine : (10 : ℚ) ^ ((38 : ℤ) - (99 : Nat)) ≤ binary32.gap (rank - 1) / 2 := by
    have hten : (10 : ℚ) ^ ((38 : ℤ) - (99 : Nat)) ≤ 2 ^ (-149 : ℤ) / 2 := by norm_num
    exact hten.trans (div_le_div_of_nonneg_right (gap_lower _) zero_le_two)
  apply Option.isSome_iff_exists.mp
  rw [Format.shortest?, List.findSome?_isSome_iff]
  exact ⟨99, List.mem_range.mpr (by decide),
    Format.isSome_candidate? binary32_precision (by omega) hfine⟩

theorem shortest_spec (hr : 0 < rank) (htop : rank < binary32.top)
    (h : binary32.shortest? rank 38 100 = some d) : d.Shortest rank := by
  obtain ⟨tried, i, rest, hsplit, hd, htried⟩ := List.findSome?_eq_some_iff.mp h
  obtain ⟨k, -, rfl, hrest⟩ := List.range'_eq_append_iff.mp (List.range_eq_range' ▸ hsplit)
  obtain ⟨hi, hlt, -⟩ := List.range'_eq_cons_iff.mp hrest.symm
  obtain ⟨hback, hexponent, -⟩ := Format.of_candidate? hd
  have hleast : binary32.least = -149 := rfl
  constructor
  · exact (Format.readsBack_iff_owned binary32_precision hr).mp hback
  · exact Format.near_of_candidate? hd
  · intro below hbelow
    -- Otherwise the grid before, or a grid above all values, would have had a decimal.
    by_contra! hfine
    rcases Nat.eq_zero_or_pos i with rfl | hpos
    · have hgap : binary32.gap below ≤ 2 ^ (104 : ℤ) := gap_upper (by omega)
      rw [hexponent] at hfine
      have hten : (2 : ℚ) ^ (104 : ℤ) / 2 < 10 ^ ((38 : ℤ) - (0 : Nat) + 1) := by norm_num
      exact (hten.trans_le hfine).not_ge (div_le_div_of_nonneg_right hgap zero_le_two)
    · have hmem : i - 1 ∈ List.range' 0 k := by
        rw [List.mem_range']
        exact ⟨i - 1, by omega, by omega⟩
      have hprevious : d.exponent + 1 = 38 - (i - 1 : Nat) := by omega
      rw [hprevious] at hfine
      have hsome := Format.isSome_candidate? binary32_precision hbelow hfine
      rw [htried _ hmem] at hsome
      cases hsome
  · omega
  · omega

namespace Decimal.Shortest

theorem digits_pos (h : d.Shortest rank) (hr : 0 < rank) : 0 < d.digits := by
  by_contra! hzero
  have hlower := h.owned.lower (rank - 1) (by omega)
  rw [Decimal.value, Nat.le_zero.mp hzero, Nat.cast_zero, zero_mul] at hlower
  have hmid := Format.lt_midpoint binary32 (rank - 1)
  exact hlower.not_gt ((Format.value_nonneg _ _).trans_lt hmid)

/-- A shortest decimal has at most nine digits, and so is exact in the format of 64 bits. -/
theorem digits_lt (h : d.Shortest rank) (hr : 0 < rank) : d.digits < 2 ^ 29 := by
  obtain ⟨below, rfl⟩ : ∃ below, rank = below + 1 := ⟨rank - 1, by omega⟩
  have hten : (0 : ℚ) < 10 ^ d.exponent := zpow_pos (by norm_num) _
  have hcoarse := h.coarse below rfl
  rw [zpow_add_one₀ (by norm_num)] at hcoarse
  have hsignificand : (binary32.significand below : ℚ) + 1 ≤ 2 ^ 24 := by
    exact_mod_cast Format.significand_lt binary32 below
  have hvalue : binary32.value (below + 1) ≤ 2 ^ 24 * binary32.gap below := by
    rw [Format.value_succ, Format.value_eq, ← add_one_mul]
    exact mul_le_mul_of_nonneg_right hsignificand (Format.gap_pos _ _).le
  have hnear := (abs_le.mp h.near).2
  have hlt : (d.digits : ℚ) * 10 ^ d.exponent < 2 ^ 29 * 10 ^ d.exponent := by
    rw [← Decimal.value]
    linarith
  exact_mod_cast lt_of_mul_lt_mul_right hlt hten.le

end Decimal.Shortest

end RenderKit.Number
