import RenderKit.Json.Printer
import RenderKit.Proofs.Number.Digits
import Mathlib.Data.List.Basic
import Mathlib.Tactic.IntervalCases

/-!
# Words of printed JSON

What the writer puts down for a number or a string is read back as one word, whatever follows. A
numeral is proper when it has digits and no zero in front of others; behind it must stand something
that does not belong to a number.
-/

namespace RenderKit.Json

namespace Numeral

/-- A numeral has a whole part, with no zero in front of other digits. -/
structure Proper (n : Numeral) : Prop where
  ne_nil : n.whole ≠ []
  single : n.whole.head? = some zeroDigit → n.whole.length ≤ 1

/-- The characters of a fraction. -/
def fractionChars (digits : List (Fin 10)) : List Char :=
  if digits.isEmpty then [] else '.' :: digits.map digitChar

/-- The characters of an exponent. -/
def exponentChars : Option Int → List Char
  | none => []
  | some (.ofNat e) => 'e' :: '+' :: (digitsOf e).map digitChar
  | some (.negSucc e) => 'e' :: '-' :: (digitsOf (e + 1)).map digitChar

theorem toList_text (n : Numeral) :
    n.text.toList = (if n.negative then ['-'] else []) ++ (n.whole.map digitChar ++
      (fractionChars n.fraction ++ exponentChars n.exponent)) := by
  obtain ⟨negative, whole, fraction, exponent⟩ := n
  have hsign : (if negative then "-" else "").toList = if negative then ['-'] else [] := by
    cases negative <;> rfl
  have hfraction : (if fraction.isEmpty then "" else "." ++ digitText fraction).toList =
      fractionChars fraction := by
    rw [fractionChars]
    split
    · rfl
    · rw [String.toList_append, toList_digitText]
      rfl
  simp only [text, String.toList_append, toList_digitText, hsign, hfraction, List.append_assoc]
  cases exponent with
  | none => rfl
  | some e =>
    cases e with
    | ofNat e => simp [exponentChars, map_digitChar_digitsOf, String.toList_append]
    | negSucc e => simp [exponentChars, map_digitChar_digitsOf, String.toList_append]

theorem toList_text_ne_nil {n : Numeral} (h : n.Proper) : n.text.toList ≠ [] := by
  rw [toList_text]
  simp [h.ne_nil]

end Numeral

theorem toList_stringText_ne_nil (s : Option String) : (stringText s).toList ≠ [] := by
  cases s with
  | none => decide
  | some s => simp [stringText, String.toList_append]

namespace Token

/-- A text does not go on with a character that belongs to a number. -/
def NumberEnds (cs : List Char) : Prop :=
  ∀ c, cs.head? = some c → c.isDigit = false ∧ c ≠ '.' ∧ c ≠ 'e' ∧ c ≠ 'E'

theorem numberEnds_cons {c : Char} {cs : List Char}
    (h : c.isDigit = false ∧ c ≠ '.' ∧ c ≠ 'e' ∧ c ≠ 'E') : NumberEnds (c :: cs) := by
  intro first hf
  cases hf
  exact h

/-! ### Numbers -/

section

variable {rest : List Char}

/-- An exponent goes on with its letter. -/
private theorem head_exponentChars (h : NumberEnds rest) (exponent : Option Int) (c : Char)
    (hc : (Numeral.exponentChars exponent ++ rest).head? = some c) :
    c.isDigit = false ∧ c ≠ '.' := by
  cases exponent with
  | none => exact ⟨(h c hc).1, (h c hc).2.1⟩
  | some e =>
    have he : c = 'e' := by
      cases e with
      | ofNat e => exact (Option.some.inj hc).symm
      | negSucc e => exact (Option.some.inj hc).symm
    subst he
    decide

private theorem noDigit_fractionChars (h : NumberEnds rest) (fraction : List (Fin 10))
    (exponent : Option Int) :
    NoDigit (Numeral.fractionChars fraction ++ (Numeral.exponentChars exponent ++ rest)) := by
  intro c hc
  rw [Numeral.fractionChars] at hc
  split at hc
  · exact (head_exponentChars h exponent c hc).1
  · cases hc
    decide

private theorem scanFraction_fractionChars (h : NumberEnds rest) (fraction : List (Fin 10))
    (exponent : Option Int) :
    scanFraction (Numeral.fractionChars fraction ++ (Numeral.exponentChars exponent ++ rest)) =
      some (fraction, Numeral.exponentChars exponent ++ rest) := by
  have hends := head_exponentChars h exponent
  generalize Numeral.exponentChars exponent ++ rest = tail at hends
  cases fraction with
  | nil =>
    cases tail with
    | nil => rfl
    | cons c tail => simp [Numeral.fractionChars, scanFraction, (hends c rfl).2]
  | cons d ds =>
    obtain ⟨hlead, hafter⟩ := leadingDigits_append (d :: ds) fun c hc ↦ (hends c hc).1
    rw [Numeral.fractionChars, List.isEmpty_cons, if_neg Bool.false_ne_true, List.cons_append,
      scanFraction, hlead, hafter]
    rfl

private theorem scanExponentDigits_digits (h : NumberEnds rest) (n : Nat) :
    scanExponentDigits ('+' :: ((Numeral.digitsOf n).map Numeral.digitChar ++ rest)) =
        some ((n : Int), rest) ∧
      scanExponentDigits ('-' :: ((Numeral.digitsOf n).map Numeral.digitChar ++ rest)) =
        some (-(n : Int), rest) := by
  obtain ⟨hlead, hafter⟩ :=
    leadingDigits_append (Numeral.digitsOf n) fun c hc ↦ (h c hc).1
  constructor <;>
    simp [scanExponentDigits, hlead, hafter, Numeral.digitsOf_ne_nil, Numeral.ofDigits_digitsOf]

private theorem scanExponent_exponentChars (h : NumberEnds rest) (exponent : Option Int) :
    scanExponent (Numeral.exponentChars exponent ++ rest) = some (exponent, rest) := by
  cases exponent with
  | none =>
    cases rest with
    | nil => rfl
    | cons c rest =>
      obtain ⟨-, -, he, hE⟩ := h c rfl
      simp [Numeral.exponentChars, scanExponent, he, hE]
  | some e =>
    cases e with
    | ofNat e =>
      have hs := (scanExponentDigits_digits h e).1
      simp only [Numeral.exponentChars, List.cons_append, scanExponent, hs]
      rfl
    | negSucc e =>
      have hs := (scanExponentDigits_digits h (e + 1)).2
      simp only [Numeral.exponentChars, List.cons_append, scanExponent, hs]
      rfl

/-- The digits of a proper numeral are read up to where they end. -/
private theorem scanNumber_text {n : Numeral} (hn : n.Proper) (h : NumberEnds rest) :
    scanNumber n.negative (n.whole.map Numeral.digitChar ++
        (Numeral.fractionChars n.fraction ++ (Numeral.exponentChars n.exponent ++ rest))) =
      some (.number n, rest) := by
  obtain ⟨hlead, hafter⟩ := leadingDigits_append n.whole
    (noDigit_fractionChars h n.fraction n.exponent)
  have hok : (n.whole.isEmpty ||
      (n.whole.head? == some Numeral.zeroDigit && n.whole.length > 1)) = false := by
    rw [Bool.or_eq_false_iff, List.isEmpty_eq_false_iff]
    refine ⟨hn.ne_nil, ?_⟩
    by_contra hc
    simp only [Bool.not_eq_false, Bool.and_eq_true, beq_iff_eq, decide_eq_true_eq] at hc
    exact Nat.not_le_of_gt hc.2 (hn.single hc.1)
  simp only [scanNumber, hlead, hafter, hok, Bool.false_eq_true, if_false,
    scanFraction_fractionChars h, Option.bind_eq_bind, Option.bind_some,
    scanExponent_exponentChars h]
  rfl

private theorem scan?_digitChar (d : Fin 10) (cs : List Char) :
    scan? (Numeral.digitChar d :: cs) = scanNumber false (Numeral.digitChar d :: cs) := by
  obtain ⟨n, hn⟩ := d
  interval_cases n <;> rfl

/-- A printed number is read back, where it ends. -/
theorem scan?_number {n : Numeral} (hn : n.Proper) (h : NumberEnds rest) :
    scan? (n.text.toList ++ rest) = some (.number n, rest) := by
  have hs := scanNumber_text hn h
  rw [Numeral.toList_text, List.append_assoc, List.append_assoc, List.append_assoc]
  cases hneg : n.negative with
  | true =>
    rw [hneg] at hs
    exact hs
  | false =>
    rw [hneg] at hs
    cases hw : n.whole with
    | nil => exact absurd hw hn.ne_nil
    | cons d ds =>
      rw [hw] at hs
      exact (scan?_digitChar d _).trans hs

end

/-! ### Strings -/

/-- The ways in which a character is written: by the number of a code, by a short escape, or as it
is. -/
private inductive Written (c : Char) : List Char → Piece → Prop where
  | code {h i j k : Char} : hex4? h i j k = some c.toNat → c.toNat < 0x20 →
      Written c ['\\', 'u', h, i, j, k] (.code c.toNat)
  | short {e : Char} : e ≠ 'u' → shortEscape? e = some c → Written c ['\\', e] (.char c)
  | plain : c ≠ '"' → c ≠ '\\' → ¬ c.toNat < 0x20 → Written c [c] (.char c)

private theorem hex_of_lt : ∀ n < 0x10,
    (Text.hex n).toList = [n.digitChar] ∧ hex4? '0' '0' '0' n.digitChar = some n := by
  decide

private theorem hex_of_le : ∀ n < 0x20, 0x10 ≤ n →
    (Text.hex n).toList = ['1', (n - 0x10).digitChar] ∧
      hex4? '0' '0' '1' (n - 0x10).digitChar = some n := by
  decide

/-- Every character is written in one of the ways. -/
private theorem exists_written (c : Char) : ∃ piece, Written c (escaped c).toList piece := by
  unfold escaped
  split
  · exact ⟨_, .short (e := '"') (by decide) rfl⟩
  · exact ⟨_, .short (e := '\\') (by decide) rfl⟩
  · exact ⟨_, .short (e := 'b') (by decide) rfl⟩
  · exact ⟨_, .short (e := 'f') (by decide) rfl⟩
  · exact ⟨_, .short (e := 'n') (by decide) rfl⟩
  · exact ⟨_, .short (e := 'r') (by decide) rfl⟩
  · exact ⟨_, .short (e := 't') (by decide) rfl⟩
  · next hquote hslash _ _ _ _ _ =>
    split
    · next hlt =>
      obtain ⟨hhex, hcode⟩ := hex_of_lt c.toNat hlt
      rw [String.toList_append, hhex]
      exact ⟨_, .code hcode (by omega)⟩
    · split
      · next hle hlt =>
        obtain ⟨hhex, hcode⟩ := hex_of_le c.toNat hlt (Nat.le_of_not_lt hle)
        rw [String.toList_append, hhex]
        exact ⟨_, .code hcode hlt⟩
      · next hle =>
        rw [String.toList_singleton]
        exact ⟨_, .plain hquote hslash hle⟩

/-- What is written for a character is scanned as its piece. -/
private theorem Written.scanPieces {c : Char} {text : List Char} {piece : Piece}
    (h : Written c text piece) (seen : List Piece) (rest : List Char) :
    Token.scanPieces seen (text ++ rest) = Token.scanPieces (piece :: seen) rest := by
  cases h with
  | code hcode hlt => simp [Token.scanPieces, hcode]
  | short hne hescape => simp [Token.scanPieces, hescape, hne]
  | plain hquote hslash hle => simp [Token.scanPieces, hslash, hle]

/-- Its piece stands for the character. -/
private theorem Written.joinPieces {c : Char} {text : List Char} {piece : Piece}
    (h : Written c text piece) (seen : List Char) (rest : List Piece) :
    Token.joinPieces seen (piece :: rest) = Token.joinPieces (c :: seen) rest := by
  cases h with
  | code hcode hlt =>
    have hhigh : isHighHalf c.toNat = false := by
      simp [isHighHalf]
      omega
    have hlow : isLowHalf c.toNat = false := by
      simp [isLowHalf]
      omega
    rw [Token.joinPieces.eq_def]
    simp [hhigh, hlow, Char.ofNat_toNat]
  | short | plain => rfl

private theorem exists_scanPieces (cs : List Char) (rest : List Char) :
    ∃ pieces, (∀ seen, scanPieces seen (cs.flatMap (fun c ↦ (escaped c).toList) ++ '"' :: rest) =
        some (seen.reverse ++ pieces, rest)) ∧
      ∀ seen, joinPieces seen pieces = some (seen.reverse ++ cs) := by
  induction cs with
  | nil => exact ⟨[], fun seen ↦ by simp [scanPieces], fun seen ↦ by simp [joinPieces]⟩
  | cons c cs ih =>
    obtain ⟨pieces, hscan, hjoin⟩ := ih
    obtain ⟨piece, hw⟩ := exists_written c
    refine ⟨piece :: pieces, fun seen ↦ ?_, fun seen ↦ ?_⟩
    · rw [List.flatMap_cons, List.append_assoc, hw.scanPieces, hscan]
      simp
    · rw [hw.joinPieces, hjoin]
      simp

/-- A printed string is read back. -/
theorem scan?_string (s : Option String) (rest : List Char) :
    scan? ((stringText s).toList ++ rest) = some (.string s, rest) := by
  have hopen : ∀ cs, scan? ('"' :: cs) = scanString cs := fun _ ↦ rfl
  cases s with
  | none =>
    have hlist : (stringText none).toList ++ rest =
        '"' :: '\\' :: 'u' :: 'd' :: '8' :: '0' :: '0' :: '"' :: rest := rfl
    rw [hlist, hopen]
    simp [scanString, scanPieces, hex4?, hexDigit?, joinPieces, isHighHalf]
  | some s =>
    obtain ⟨pieces, hscan, hjoin⟩ := exists_scanPieces s.toList rest
    have hlist : (stringText (some s)).toList ++ rest =
        '"' :: (s.toList.flatMap (fun c ↦ (escaped c).toList) ++ '"' :: rest) := by
      simp [stringText, String.toList_append, String.toList_join, List.flatMap_map]
    rw [hlist, hopen, scanString, hscan]
    simp [hjoin]

end Token

end RenderKit.Json
