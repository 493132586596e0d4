import RenderKit.Definition.Template
import RenderKit.Proofs.Refusal

/-!
# Scanning templates

A template is read from left to right: up to the leftmost opening braces, then up to the nearest
closing braces behind them, and on from there. `Scanned` says so of characters alone, and knows
nothing of pins. Main statements: `exists_scanned` says that every text can be read so, and
`parse_of_scanned` that the parser reads it so.
-/

namespace RenderKit.Template

variable {mark : Char} {cs before behind tail : List Char} {pieces : List (List Char × String)}
  {inputs outputs : List PinSpec}

/-- The characters before and behind the leftmost place where a character is doubled. -/
structure FirstDoubled (mark : Char) (cs before behind : List Char) : Prop where
  split : cs = before ++ mark :: mark :: behind
  leftmost : ∀ {earlier later}, cs = earlier ++ mark :: mark :: later →
    before.length ≤ earlier.length

/-- A character is nowhere doubled. -/
def Undoubled (mark : Char) (cs : List Char) : Prop :=
  ∀ earlier later, cs ≠ earlier ++ mark :: mark :: later

/-- What a text consists of: each placeholder with the text in front of it, and the text behind the
last one. Opening braces that are never closed are text. -/
inductive Scanned : List Char → List (List Char × String) → List Char → Prop where
  | unopened {cs : List Char} : Undoubled '\x7b' cs → Scanned cs [] cs
  | unclosed {cs before behind : List Char} :
      FirstDoubled '\x7b' cs before behind → Undoubled '\x7d' behind → Scanned cs [] cs
  | placeholder {cs before behind name rest tail : List Char}
      {pieces : List (List Char × String)} :
      FirstDoubled '\x7b' cs before behind → FirstDoubled '\x7d' behind name rest →
        Scanned rest pieces tail →
          Scanned cs ((before, String.ofList name) :: pieces) tail

/-! ## Cutting -/

/-- No place is further left than the start. -/
theorem firstDoubled_nil : FirstDoubled mark (mark :: mark :: behind) [] behind where
  split := rfl
  leftmost := fun _ ↦ Nat.zero_le _

/-- Where the start is no such place, it is in front of the leftmost one. -/
theorem FirstDoubled.cons {a b : Char} {rest : List Char} (hab : ¬ (a = mark ∧ b = mark))
    (h : FirstDoubled mark (b :: rest) before behind) :
    FirstDoubled mark (a :: b :: rest) (a :: before) behind where
  split := by rw [h.split, List.cons_append]
  leftmost := fun {earlier later} he ↦ by
    cases earlier with
    | nil =>
      obtain ⟨ha, hb, -⟩ : a = mark ∧ b = mark ∧ rest = later := by simpa using he
      exact absurd ⟨ha, hb⟩ hab
    | cons c earlier => exact Nat.succ_le_succ (h.leftmost (List.cons.inj he).2)

theorem cut?_eq_none (h : cut? mark cs = none) : Undoubled mark cs := by
  intro earlier later he
  fun_induction cut? mark cs generalizing earlier with
  | case1 => cases h
  | case2 a b rest hab ih =>
    cases earlier with
    | nil =>
      obtain ⟨ha, hb, -⟩ : a = mark ∧ b = mark ∧ rest = later := by simpa using he
      exact hab ⟨ha, hb⟩
    | cons c earlier =>
      exact ih (by simpa using h) earlier (List.cons.inj he).2
  | case3 cs hshort =>
    cases earlier with
    | nil => exact hshort mark mark later he
    | cons c earlier =>
      cases earlier with
      | nil => exact hshort c mark (mark :: later) he
      | cons d earlier => exact hshort c d (earlier ++ mark :: mark :: later) he

theorem firstDoubled_of_cut? (h : cut? mark cs = some (before, behind)) :
    FirstDoubled mark cs before behind := by
  fun_induction cut? mark cs generalizing before with
  | case1 a b rest hab =>
    obtain ⟨rfl, rfl⟩ := hab
    cases h
    exact firstDoubled_nil
  | case2 a b rest hab ih =>
    obtain ⟨⟨before', behind'⟩, h', he⟩ := Option.map_eq_some_iff.mp h
    cases he
    exact (ih h').cons hab
  | case3 => cases h

/-- A text has no second leftmost place. -/
theorem FirstDoubled.unique {before' behind' : List Char} (h : FirstDoubled mark cs before behind)
    (h' : FirstDoubled mark cs before' behind') : before = before' ∧ behind = behind' := by
  have hlength : before.length = before'.length :=
    Nat.le_antisymm (h.leftmost h'.split) (h'.leftmost h.split)
  obtain ⟨hbefore, hrest⟩ := List.append_inj (h.split.symm.trans h'.split) hlength
  exact ⟨hbefore, by simpa using hrest⟩

theorem cut?_eq_some_iff :
    cut? mark cs = some (before, behind) ↔ FirstDoubled mark cs before behind := by
  refine ⟨firstDoubled_of_cut?, fun h ↦ ?_⟩
  cases hcut : cut? mark cs with
  | none => exact absurd h.split (cut?_eq_none hcut _ _)
  | some found =>
    obtain ⟨rfl, rfl⟩ := h.unique (firstDoubled_of_cut? hcut)
    rfl

theorem cut?_eq_none_iff : cut? mark cs = none ↔ Undoubled mark cs := by
  refine ⟨cut?_eq_none, fun h ↦ ?_⟩
  cases hcut : cut? mark cs with
  | none => rfl
  | some found => exact absurd (firstDoubled_of_cut? hcut).split (h _ _)

/-! ## Reading on -/

/-- Every text consists of placeholders and of text. -/
theorem exists_scanned (cs : List Char) : ∃ pieces tail, Scanned cs pieces tail := by
  -- as the parser goes: the text behind a placeholder is shorter
  fun_induction parse [] [] cs with
  | case1 cs hopened => exact ⟨[], cs, .unopened (cut?_eq_none hopened)⟩
  | case2 cs before behind hopened hclosed =>
    exact ⟨[], cs, .unclosed (firstDoubled_of_cut? hopened) (cut?_eq_none hclosed)⟩
  | case3 cs before behind hopened name rest hclosed ih =>
    obtain ⟨pieces, tail, h⟩ := ih
    exact ⟨_, tail, .placeholder (firstDoubled_of_cut? hopened) (firstDoubled_of_cut? hclosed) h⟩

/-- The segments of a placeholder and of the text in front of it. -/
def pieceSegments (inputs outputs : List PinSpec) (piece : List Char × String) :
    Except TemplateError (List Segment) := do
  return textSegment piece.1 ++ [← resolve inputs outputs piece.2]

theorem parse_of_unclosed (hopened : cut? '\x7b' cs = some (before, behind))
    (hclosed : cut? '\x7d' behind = none) : parse inputs outputs cs = .ok (textSegment cs) := by
  rw [parse]
  split
  · rfl
  · next h =>
    cases hopened.symm.trans h
    split
    · rfl
    · next h' => cases hclosed.symm.trans h'

theorem parse_of_closed {name rest : List Char} (hopened : cut? '\x7b' cs = some (before, behind))
    (hclosed : cut? '\x7d' behind = some (name, rest)) :
    parse inputs outputs cs = do
      let segments ← pieceSegments inputs outputs (before, String.ofList name)
      return segments ++ (← parse inputs outputs rest) := by
  rw [parse]
  split
  · next h => cases hopened.symm.trans h
  · next h =>
    cases hopened.symm.trans h
    split
    · next h' => cases hclosed.symm.trans h'
    · next h' =>
      cases hclosed.symm.trans h'
      simp only [pieceSegments, bind_assoc, pure_bind, List.append_assoc, List.cons_append,
        List.nil_append]

/-- The parser goes from placeholder to placeholder. -/
theorem parse_of_scanned (h : Scanned cs pieces tail) :
    parse inputs outputs cs = do
      let parts ← pieces.mapM (pieceSegments inputs outputs)
      return parts.flatten ++ textSegment tail := by
  induction h with
  | unopened hopened => exact parse_of_cut?_eq_none (cut?_eq_none_iff.mpr hopened)
  | unclosed hopened hclosed =>
    exact parse_of_unclosed (cut?_eq_some_iff.mpr hopened) (cut?_eq_none_iff.mpr hclosed)
  | placeholder hopened hclosed _ ih =>
    rw [parse_of_closed (cut?_eq_some_iff.mpr hopened) (cut?_eq_some_iff.mpr hclosed), ih]
    simp

end RenderKit.Template
