import RenderKit.Number.Binary32
import RenderKit.Proofs.Json.Scanning
import RenderKit.Proofs.Number.Shortest

/-!
# Numerals of decimals

A numeral stands for a decimal: its digits as one number, scaled by its exponent and by the places
behind its point. If a word holds the number, all the digits count when the numeral is read
(`significandOf_eq`). A decimal is written as a proper numeral that stands for it
(`Shortest.spelled`).
-/

namespace RenderKit

namespace Json.Numeral

theorem ofDigits_append (ds es : List (Fin 10)) :
    ofDigits (ds ++ es) = ofDigits ds * 10 ^ es.length + ofDigits es := by
  induction es using List.reverseRecOn with
  | nil => simp
  | append_singleton es e ih =>
    rw [← List.append_assoc, ofDigits_append_singleton, ih, ofDigits_append_singleton,
      List.length_append, List.length_singleton, Nat.pow_succ]
    ring

@[simp] theorem ofDigits_replicate_zero (n : Nat) : ofDigits (List.replicate n zeroDigit) = 0 := by
  induction n with
  | zero => rfl
  | succ n ih => rw [List.replicate_succ', ofDigits_append_singleton, ih]; rfl

theorem ofDigits_le_append (ds es : List (Fin 10)) : ofDigits ds ≤ ofDigits (ds ++ es) := by
  rw [ofDigits_append]
  exact (Nat.le_mul_of_pos_right _ (Nat.pow_pos (by decide))).trans (Nat.le_add_right _ _)

/-- The decimal that a numeral stands for, up to its sign. -/
def decimal (n : Numeral) : Number.Decimal :=
  ⟨ofDigits (n.whole ++ n.fraction), n.exponent.getD 0 - n.fraction.length⟩

end Json.Numeral

namespace Number

open Json (Numeral)

/-! ### All digits count -/

theorem takeWhole_ofDigits (ds es : List (Fin 10))
    (h : Numeral.ofDigits (ds ++ es) < wordLimit) :
    takeWhole (Numeral.ofDigits ds) es = (Numeral.ofDigits (ds ++ es), 0) := by
  induction es generalizing ds with
  | nil => rw [takeWhole, List.append_nil]
  | cons e es ih =>
    rw [List.append_cons] at h ⊢
    have hfit := (Numeral.ofDigits_le_append (ds ++ [e]) es).trans_lt h
    have hnext := ih (ds ++ [e]) h
    rw [Numeral.ofDigits_append_singleton] at hfit hnext
    rw [takeWhole, if_pos hfit, hnext]

theorem takeFraction_ofDigits (ds es : List (Fin 10)) (taken : Nat)
    (h : Numeral.ofDigits (ds ++ es) < wordLimit) :
    takeFraction (Numeral.ofDigits ds) taken es =
      (Numeral.ofDigits (ds ++ es), taken + es.length) := by
  induction es generalizing ds taken with
  | nil => rw [takeFraction, List.append_nil, List.length_nil, Nat.add_zero]
  | cons e es ih =>
    rw [List.append_cons] at h ⊢
    have hfit := (Numeral.ofDigits_le_append (ds ++ [e]) es).trans_lt h
    have hnext := ih (ds ++ [e]) (taken + 1) h
    rw [Numeral.ofDigits_append_singleton] at hfit hnext
    rw [takeFraction, if_pos hfit, hnext, List.length_cons, Nat.add_right_comm, Nat.add_assoc]

/-- If a word holds the digits of a numeral, it is read as the decimal it stands for. -/
theorem significandOf_eq {n : Numeral} (h : n.decimal.digits < wordLimit) :
    significandOf n = (n.decimal.digits, n.decimal.exponent) := by
  have hwhole := takeWhole_ofDigits [] n.whole
    ((Numeral.ofDigits_le_append n.whole n.fraction).trans_lt h)
  have hfraction := takeFraction_ofDigits n.whole n.fraction 0 h
  rw [Numeral.ofDigits_nil, List.nil_append] at hwhole
  rw [significandOf, hwhole]
  simp only [hfraction, Numeral.decimal, Prod.mk.injEq, true_and]
  omega

/-! ### What is written stands for the decimal -/

namespace Decimal

/-- Zeros at its end do not change what a decimal stands for. -/
theorem value_strip (fuel : Nat) (d : Decimal) : (d.strip fuel).value = d.value := by
  induction fuel generalizing d with
  | zero => rfl
  | succ fuel ih =>
    rw [strip]
    split
    · next h =>
      have hsplit : (d.digits : ℚ) = (d.digits / 10 : Nat) * 10 := by
        exact_mod_cast (Nat.div_mul_cancel (Nat.dvd_of_mod_eq_zero h.1)).symm
      rw [ih, value, value, hsplit, zpow_add_one₀ (by norm_num)]
      ring
    · rfl

theorem digits_strip_le (fuel : Nat) (d : Decimal) : (d.strip fuel).digits ≤ d.digits := by
  induction fuel generalizing d with
  | zero => exact Nat.le_refl _
  | succ fuel ih =>
    rw [strip]
    split
    · exact (ih _).trans (Nat.div_le_self _ _)
    · exact Nat.le_refl _

/-- A positive decimal has digits without zeros at its end. -/
theorem digits_strip_pos (fuel : Nat) {d : Decimal} (h : 0 < d.digits) :
    0 < (d.strip fuel).digits := by
  induction fuel generalizing d with
  | zero => exact h
  | succ fuel ih =>
    rw [strip]
    split
    · next hzero => exact ih (by simp only; omega)
    · exact h

theorem exponent_strip (fuel : Nat) (d : Decimal) :
    d.exponent ≤ (d.strip fuel).exponent ∧ (d.strip fuel).exponent ≤ d.exponent + fuel := by
  induction fuel generalizing d with
  | zero => exact ⟨Int.le_refl _, by simp [strip]⟩
  | succ fuel ih =>
    rw [strip]
    split
    · have := ih ⟨d.digits / 10, d.exponent + 1⟩
      simp only at this
      omega
    · omega

/-- A numeral stands for the decimal without zeros at its end, or for that decimal with all places
in front of the point and one behind it. -/
theorem decimal_numeral (d : Decimal) (negative : Bool) :
    (d.numeral negative).decimal = d.strip 20 ∨
      ∃ zeros : Nat, (d.strip 20).exponent = zeros ∧
        (d.strip 20).digits * 10 ^ (zeros + 1) < 10 ^ 14 ∧
        (d.numeral negative).decimal = ⟨(d.strip 20).digits * 10 ^ (zeros + 1), -1⟩ := by
  rw [numeral]
  generalize d.strip 20 = d
  have hdigits := Numeral.ofDigits_digitsOf d.digits
  have hlt : d.digits < 10 ^ (Numeral.digitsOf d.digits).length :=
    (Numeral.length_digitsOf_le_iff
      (List.length_pos_of_ne_nil (Numeral.digitsOf_ne_nil d.digits))).mp (Nat.le_refl _)
  have hpos := List.length_pos_of_ne_nil (Numeral.digitsOf_ne_nil d.digits)
  obtain ⟨digits, exponent⟩ := d
  simp only at hdigits hlt hpos ⊢
  generalize Numeral.digitsOf digits = list at hdigits hlt hpos ⊢
  split
  · left
    rw [Numeral.decimal]
    simp only [List.take_append_drop, hdigits, List.length_drop, Option.getD_some,
      Decimal.mk.injEq, true_and]
    omega
  · split
    · left
      rw [Numeral.decimal]
      simp only [List.singleton_append]
      rw [← List.cons_append, ← List.replicate_succ, Numeral.ofDigits_append,
        Numeral.ofDigits_replicate_zero, Nat.zero_mul, Nat.zero_add, hdigits, List.length_append,
        List.length_replicate, Option.getD_none]
      simp only [Decimal.mk.injEq, true_and]
      omega
    · obtain ⟨places, hplaces⟩ : ∃ places : Nat, exponent + list.length - 1 = places :=
        ⟨(exponent + list.length - 1).toNat, by omega⟩
      rw [hplaces, Int.toNat_natCast]
      rcases Nat.lt_or_ge (places + 1) list.length with hfew | hmany
      · left
        have hne : (list.drop (places + 1)).isEmpty = false := by simpa using hfew
        have hnone : places + 1 - list.length = 0 := by omega
        rw [hne, if_neg Bool.false_ne_true, hnone, List.replicate_zero, List.append_nil,
          Numeral.decimal]
        simp only [List.take_append_drop, hdigits, List.length_drop, Option.getD_none,
          Decimal.mk.injEq, true_and]
        omega
      · right
        have hnil : list.drop (places + 1) = [] := List.drop_eq_nil_of_le hmany
        refine ⟨places + 1 - list.length, by omega, ?_, ?_⟩
        · calc digits * 10 ^ (places + 1 - list.length + 1)
              < 10 ^ list.length * 10 ^ (places + 1 - list.length + 1) :=
                Nat.mul_lt_mul_of_pos_right hlt (Nat.pow_pos (by decide))
            _ = 10 ^ (places + 2) := by
              rw [← Nat.pow_add]
              congr 1
              omega
            _ ≤ 10 ^ 14 := Nat.pow_le_pow_right (by decide) (by omega)
        · rw [hnil, List.isEmpty_nil, if_pos rfl, List.take_of_length_le hmany, Numeral.decimal]
          simp only [List.append_assoc, ← List.replicate_succ']
          rw [Numeral.ofDigits_append, Numeral.ofDigits_replicate_zero, List.length_replicate,
            hdigits, Nat.add_zero]
          rfl

/-- A positive decimal is written as a proper numeral. -/
theorem proper_numeral {d : Decimal} (hpos : 0 < d.digits) (negative : Bool) :
    (d.numeral negative).Proper := by
  have hdigits := Numeral.head?_digitsOf (digits_strip_pos 20 hpos)
  have hne := Numeral.digitsOf_ne_nil (d.strip 20).digits
  rw [numeral]
  simp only
  generalize (d.strip 20).exponent + (Numeral.digitsOf (d.strip 20).digits).length - 1 = lead
  generalize Numeral.digitsOf (d.strip 20).digits = digits at hdigits hne ⊢
  obtain ⟨c, cs, rfl⟩ := List.exists_cons_of_ne_nil hne
  split
  · exact ⟨by simp, fun _ ↦ by simp⟩
  · split
    · exact ⟨by simp, fun _ ↦ by simp⟩
    · refine ⟨by simp, fun hzero ↦ absurd ?_ hdigits⟩
      simpa using hzero

/-- A decimal is written with its sign, and always with a fraction or an exponent. -/
theorem numeral_face (d : Decimal) (negative : Bool) :
    (d.numeral negative).negative = negative ∧ (d.numeral negative).isWhole = false := by
  rw [numeral]
  simp only
  split
  · exact ⟨rfl, by simp [Numeral.isWhole]⟩
  · split
    · exact ⟨rfl, by simp [Numeral.isWhole, Numeral.digitsOf_ne_nil]⟩
    · refine ⟨rfl, ?_⟩
      rw [Numeral.isWhole]
      split
      · rfl
      · next hne => rw [Bool.eq_false_of_not_eq_true hne, Bool.false_and]

/-- What is known of the numeral that a shortest decimal is written as: it stands for the decimal,
and the significand and the exponent that it is read with are of moderate size. -/
structure Spelled (d : Decimal) (n : Numeral) : Prop where
  proper : n.Proper
  value : n.decimal.value = d.value
  digits_pos : 0 < n.decimal.digits
  digits_lt : n.decimal.digits < 2 ^ 53
  le_exponent : -61 ≤ n.decimal.exponent
  exponent_le : n.decimal.exponent ≤ 58

theorem Shortest.spelled {d : Decimal} {rank : Nat} (h : d.Shortest rank) (hr : 0 < rank)
    (negative : Bool) : d.Spelled (d.numeral negative) := by
  have hvalue := value_strip 20 d
  obtain ⟨hlow, hhigh⟩ := exponent_strip 20 d
  have hle := h.exponent_le
  have hge := h.le_exponent
  have hproper := proper_numeral (h.digits_pos hr) negative
  have hpos := digits_strip_pos 20 (h.digits_pos hr)
  have hdigits := (digits_strip_le 20 d).trans_lt (h.digits_lt hr)
  rcases decimal_numeral d negative with hn | ⟨zeros, hzeros, hlt, hn⟩
  · constructor
    · exact hproper
    · rw [hn, hvalue]
    · rw [hn]
      exact hpos
    · rw [hn]
      exact hdigits.trans (by decide)
    · rw [hn]
      omega
    · rw [hn]
      omega
  · constructor
    · exact hproper
    · rw [hn, ← hvalue, Decimal.value, Decimal.value, hzeros]
      push_cast
      rw [pow_succ, zpow_natCast, zpow_neg_one]
      field_simp
    · rw [hn]
      exact Nat.mul_pos hpos (Nat.pow_pos (by decide))
    · rw [hn]
      exact hlt.trans (by decide)
    · rw [hn]
      show (-61 : ℤ) ≤ -1
      decide
    · rw [hn]
      show (-1 : ℤ) ≤ 58
      decide

end Decimal

/-- A natural number of a word is read as some value. -/
theorem Binary32.isSome_ofNumeral?_ofNat {n : Nat} (h : n < wordLimit) :
    (ofNumeral? (.ofNat n)).isSome = true := by
  have hword : isWordInteger (.ofNat n) = true := by
    rw [isWordInteger]
    simp [Numeral.ofNat, Numeral.isWhole, Numeral.ofDigits_digitsOf, h]
  rw [ofNumeral?, if_pos hword]
  rfl

end Number

end RenderKit
