import RenderKit.Json.Token
import Mathlib.Algebra.Group.Nat.Defs

/-!
# Decimal digits

The digits of a natural number name it again, and start with no zero unless it is zero. Digits are
read from a text as far as it goes on with digits.
-/

namespace RenderKit.Json

namespace Numeral

/-! ### Characters -/

/-- The character of a digit. -/
def digitChar (d : Fin 10) : Char :=
  Char.ofNat ('0'.toNat + d.val)

@[simp] theorem isDigit_digitChar (d : Fin 10) : (digitChar d).isDigit = true := by
  revert d
  decide

@[simp] theorem digitOf_digitChar (d : Fin 10) : digitOf (digitChar d) = d := by
  revert d
  decide

theorem digitChar_digitOf {c : Char} (h : c.isDigit = true) : digitChar (digitOf c) = c := by
  have hlow : '0'.toNat ≤ c.toNat := (Char.isDigit_iff_toNat.mp h).1
  have hhigh : c.toNat ≤ '9'.toNat := (Char.isDigit_iff_toNat.mp h).2
  have hlt : c.toNat - '0'.toNat < 10 := by
    have : '9'.toNat = '0'.toNat + 9 := rfl
    omega
  rw [digitChar, digitOf, Fin.val_ofNat, Nat.mod_eq_of_lt hlt, Nat.add_sub_cancel' hlow,
    Char.ofNat_toNat]

@[simp] theorem toList_digitText (digits : List (Fin 10)) :
    (digitText digits).toList = digits.map digitChar :=
  String.toList_ofList

/-- The digits of a number are those of its decimal notation. -/
theorem map_digitChar_digitsOf (n : Nat) : (digitsOf n).map digitChar = Nat.toDigits 10 n := by
  rw [digitsOf, List.map_map]
  refine (List.map_congr_left fun c hc ↦ ?_).trans (List.map_id _)
  exact digitChar_digitOf (Nat.isDigit_of_mem_toDigits (by omega) (by omega) hc)

/-! ### Numbers -/

theorem digitsOf_ne_nil (n : Nat) : digitsOf n ≠ [] := by
  rw [digitsOf, Ne, List.map_eq_nil_iff]
  exact Nat.toDigits_ne_nil

private theorem digitOf_digitChar_ofNat : ∀ n < 10, digitOf n.digitChar = Fin.ofNat 10 n := by
  decide

theorem digitsOf_of_lt {n : Nat} (h : n < 10) : digitsOf n = [Fin.ofNat 10 n] := by
  rw [digitsOf, Nat.toDigits_of_lt_base h, List.map_singleton, digitOf_digitChar_ofNat n h]

/-- The last digit of a number is what its division by ten leaves. -/
theorem digitsOf_of_le {n : Nat} (h : 10 ≤ n) :
    digitsOf n = digitsOf (n / 10) ++ [Fin.ofNat 10 (n % 10)] := by
  rw [digitsOf, digitsOf, Nat.toDigits_of_base_le (by omega) h, List.map_append,
    List.map_singleton, digitOf_digitChar_ofNat _ (Nat.mod_lt n (by omega))]

theorem ofDigits_digitsOf (n : Nat) : ofDigits (digitsOf n) = n := by
  induction n using Nat.strongRecOn with
  | ind n ih =>
    rcases Nat.lt_or_ge n 10 with h | h
    · rw [digitsOf_of_lt h]
      simp [ofDigits, Nat.mod_eq_of_lt h]
    · rw [digitsOf_of_le h, ofDigits_append_singleton, ih (n / 10) (by omega)]
      simp
      omega

/-- A positive number does not start with a zero. -/
theorem head?_digitsOf {n : Nat} (h : 0 < n) : (digitsOf n).head? ≠ some zeroDigit := by
  induction n using Nat.strongRecOn with
  | ind n ih =>
    rcases Nat.lt_or_ge n 10 with hlt | hle
    · rw [digitsOf_of_lt hlt, List.head?_singleton, Ne, Option.some.injEq, Fin.ext_iff,
        Fin.val_ofNat, Nat.mod_eq_of_lt hlt]
      exact Nat.ne_of_gt h
    · rw [digitsOf_of_le hle, List.head?_append]
      have hne := digitsOf_ne_nil (n / 10)
      have hfirst := ih (n / 10) (by omega) (by omega)
      cases hd : digitsOf (n / 10) with
      | nil => exact absurd hd hne
      | cons d ds =>
        rw [hd] at hfirst
        exact hfirst

theorem length_digitsOf_le_iff {n k : Nat} (hk : 0 < k) : (digitsOf n).length ≤ k ↔ n < 10 ^ k := by
  rw [digitsOf, List.length_map]
  exact Nat.length_toDigits_le_iff (by omega) hk

end Numeral

namespace Token

/-- A text does not go on with a digit. -/
def NoDigit (cs : List Char) : Prop :=
  ∀ c, cs.head? = some c → c.isDigit = false

/-- Digits in front of something else end where that starts. -/
theorem takeWhile_digits (digits : List (Fin 10)) {rest : List Char} (h : NoDigit rest) :
    (digits.map Numeral.digitChar ++ rest).takeWhile Char.isDigit = digits.map Numeral.digitChar ∧
      (digits.map Numeral.digitChar ++ rest).dropWhile Char.isDigit = rest := by
  have hall : ∀ c ∈ digits.map Numeral.digitChar, c.isDigit = true := by
    intro c hc
    obtain ⟨d, -, rfl⟩ := List.mem_map.mp hc
    exact Numeral.isDigit_digitChar d
  rw [List.takeWhile_append_of_pos hall, List.dropWhile_append_of_pos hall]
  cases rest with
  | nil => simp
  | cons c rest => simp [h c rfl]

/-- Digits in front of something else are read as they are. -/
theorem leadingDigits_append (digits : List (Fin 10)) {rest : List Char} (h : NoDigit rest) :
    leadingDigits (digits.map Numeral.digitChar ++ rest) = digits ∧
      afterDigits (digits.map Numeral.digitChar ++ rest) = rest := by
  rw [leadingDigits, afterDigits, (takeWhile_digits digits h).1, (takeWhile_digits digits h).2]
  simp [Function.comp_def]

end Token

end RenderKit.Json
