import RenderKit.Proofs.Shader.Hygiene

/-!
# Texts of one pattern

Generated source as a list of pieces: characters as they are, and names of locals of nodes. Filling
in other numbers for the nodes changes those names and nothing else. Two texts are instances of one
pattern (`SamePattern`) when they come from the same pieces; what source is put together with keeps
this, and so does cutting it into lines, since the name of a local has no blanks and no line break.
-/

namespace RenderKit

/-- The words in front of the locals of all families. -/
def allWords : List String :=
  Template.outputWord :: localWords

/-- A piece of source: a character, or the name of a local of one of some nodes. -/
inductive Piece (ids : List NodeId) where
  | char (c : Char)
  | name (word : String) (node : NodeId) (hword : word ∈ allWords) (hnode : node ∈ ids)

/-- Pieces of source in order. -/
abbrev Pattern (ids : List NodeId) :=
  List (Piece ids)

variable {ids : List NodeId} {φ : NodeId → NodeId} {q : Char → Bool}

namespace Piece

/-- The characters of a piece, with other numbers for the nodes. -/
def fill (φ : NodeId → NodeId) : Piece ids → List Char
  | .char c => [c]
  | .name word node _ _ => (localName word (φ node)).toList

/-- Whether a piece is a character of a class. -/
def is (q : Char → Bool) : Piece ids → Bool
  | .char c => q c
  | .name .. => false

end Piece

namespace Pattern

/-- The characters of a pattern, with other numbers for the nodes. -/
def fill (φ : NodeId → NodeId) (p : Pattern ids) : List Char :=
  p.flatMap (Piece.fill φ)

/-- The text of a pattern, with other numbers for the nodes. -/
def text (φ : NodeId → NodeId) (p : Pattern ids) : String :=
  .ofList (p.fill φ)

/-- The pattern without the blanks at either end. -/
def trim (p : Pattern ids) : Pattern ids :=
  (((p.dropWhile (Piece.is Text.isBlank)).reverse).dropWhile (Piece.is Text.isBlank)).reverse

/-- The lines of a pattern that hold more than blanks, each without the blanks at its ends. -/
def lines (p : Pattern ids) : List (Pattern ids) :=
  ((p.splitOnP (Piece.is (· == '\n'))).map trim).filter (!·.isEmpty)

@[simp] theorem fill_nil (φ : NodeId → NodeId) : fill φ ([] : Pattern ids) = [] := rfl

@[simp] theorem fill_cons (φ : NodeId → NodeId) (piece : Piece ids) (p : Pattern ids) :
    fill φ (piece :: p) = piece.fill φ ++ fill φ p := rfl

@[simp] theorem text_append (φ : NodeId → NodeId) (p p' : Pattern ids) :
    text φ (p ++ p') = text φ p ++ text φ p' := by
  rw [text, fill, List.flatMap_append, String.ofList_append]
  rfl

/-! ### Cutting patterns -/

/-- Characters that pieces are read by: a piece has some, and they are of a class when the piece is,
which then is a single one. -/
structure Read (q : Char → Bool) (read : Piece ids → List Char) : Prop where
  nonempty : ∀ piece, read piece ≠ []
  all : ∀ piece, ∀ c ∈ read piece, q c = piece.is q
  single : ∀ piece, piece.is q = true → ∃ c, read piece = [c]

/-- Names of locals have no characters of a class that identifiers have none of. -/
theorem read_fill (hq : ∀ c, Text.isIdentifierRest c = true → q c = false) (φ : NodeId → NodeId) :
    Read q (Piece.fill φ : Piece ids → List Char) where
  nonempty
    | .char c => List.cons_ne_nil c []
    | .name word node _ _ => by
      rw [Piece.fill, toList_localName]
      simp
  all
    | .char c => by simp [Piece.fill, Piece.is]
    | .name word node hword _ => by
      intro c hc
      have hletters : ∀ c ∈ word.toList, Text.isIdentifierRest c = true := by
        have hall : ∀ word ∈ allWords, word.toList.all Text.isIdentifierRest = true := by decide
        exact List.all_eq_true.mp (hall word hword)
      exact hq c (isIdentifierRest_localName (φ node) hletters c hc)
  single
    | .char c => fun _ ↦ ⟨c, rfl⟩
    | .name .. => fun h ↦ absurd h Bool.false_ne_true

/-- Characters in front of a text that it is not split at belong to its first part. -/
private theorem splitOnP_append_of_neg {cs rest : List Char} (hcs : ∀ c ∈ cs, q c = false) :
    (cs ++ rest).splitOnP q = (rest.splitOnP q).modifyHead (cs ++ ·) := by
  induction cs with
  | nil =>
    rw [List.nil_append]
    cases rest.splitOnP q <;> rfl
  | cons c cs ih =>
    rw [List.cons_append, List.splitOnP_cons_eq_if_modifyHead, hcs c List.mem_cons_self,
      if_neg Bool.false_ne_true, ih fun c hc ↦ hcs c (List.mem_cons_of_mem _ hc)]
    cases rest.splitOnP q <;> rfl

section

variable {read : Piece ids → List Char} (h : Read q read)

include h

theorem Read.reverse : Read q fun piece ↦ (read piece).reverse where
  nonempty piece := by
    rw [ne_eq, List.reverse_eq_nil_iff]
    exact h.nonempty piece
  all piece c hc := h.all piece c (List.mem_reverse.mp hc)
  single piece hp := by
    obtain ⟨c, hc⟩ := h.single piece hp
    exact ⟨c, by rw [hc, List.reverse_singleton]⟩

/-- Pieces at the front go with their characters. -/
theorem Read.dropWhile (p : Pattern ids) :
    (p.flatMap read).dropWhile q = (p.dropWhile (Piece.is q)).flatMap read := by
  -- A piece of the class is one character of it, and any other starts with one that is not.
  induction p with
  | nil => rfl
  | cons piece p ih =>
    rw [List.flatMap_cons, List.dropWhile_cons]
    cases hp : piece.is q with
    | true =>
      rw [if_pos rfl, List.dropWhile_append_of_pos fun c hc ↦ (h.all piece c hc).trans hp, ih]
    | false =>
      obtain ⟨c, cs, hcs⟩ := List.exists_cons_of_ne_nil (h.nonempty piece)
      have hc : q c = false := by
        rw [h.all piece c (by simp [hcs]), hp]
      rw [if_neg Bool.false_ne_true, List.flatMap_cons, hcs, List.cons_append,
        List.dropWhile_cons_of_neg (by simp [hc])]

/-- A pattern is split where its characters are. -/
theorem Read.splitOnP (p : Pattern ids) :
    (p.flatMap read).splitOnP q = (p.splitOnP (Piece.is q)).map (·.flatMap read) := by
  induction p with
  | nil => rfl
  | cons piece p ih =>
    rw [List.flatMap_cons, List.splitOnP_cons_eq_if_modifyHead]
    cases hp : piece.is q with
    | true =>
      obtain ⟨c, hc⟩ := h.single piece hp
      have hq : q c = true := by
        rw [h.all piece c (by simp [hc]), hp]
      rw [if_pos rfl, hc, List.singleton_append, List.splitOnP_cons_eq_if_modifyHead, if_pos hq, ih]
      rfl
    | false =>
      rw [if_neg Bool.false_ne_true, splitOnP_append_of_neg fun c hc ↦ (h.all piece c hc).trans hp,
        ih]
      cases p.splitOnP (Piece.is q) <;> rfl

end

/-- Characters of identifiers stand between the first digit and the last letter. -/
private theorem toNat_of_isIdentifierRest {c : Char} (h : Text.isIdentifierRest c = true) :
    0x30 ≤ c.toNat ∧ c.toNat ≤ 0x7A := by
  have hupper (h : c.isUpper = true) : 0x41 ≤ c.toNat ∧ c.toNat ≤ 0x5A := of_decide_eq_true h
  have hlower (h : c.isLower = true) : 0x61 ≤ c.toNat ∧ c.toNat ≤ 0x7A := by
    have hb := Bool.and_eq_true_iff.mp h
    exact ⟨of_decide_eq_true hb.1, of_decide_eq_true hb.2⟩
  have hdigit (h : c.isDigit = true) : 0x30 ≤ c.toNat ∧ c.toNat ≤ 0x39 :=
    Char.isDigit_iff_toNat.mp h
  rcases Bool.or_eq_true_iff.mp h with h | h
  · rcases Bool.or_eq_true_iff.mp h with h | h
    · rcases Bool.or_eq_true_iff.mp h with h | h
      · have := hupper h
        omega
      · have := hlower h
        omega
    · have := hdigit h
      omega
  · rw [beq_iff_eq.mp h]
    decide

private theorem isBlank_of_isIdentifierRest {c : Char} (h : Text.isIdentifierRest c = true) :
    Text.isBlank c = false := by
  have hc := toNat_of_isIdentifierRest h
  simp only [Text.isBlank, Bool.or_eq_false_iff, Bool.and_eq_false_iff, decide_eq_false_iff_not,
    beq_eq_false_iff_ne]
  omega

private theorem ne_newline_of_isIdentifierRest {c : Char} (h : Text.isIdentifierRest c = true) :
    (c == '\n') = false := by
  rw [beq_eq_false_iff_ne]
  rintro rfl
  revert h
  decide

theorem trim_fill (φ : NodeId → NodeId) (p : Pattern ids) :
    Text.trim (p.fill φ) = p.trim.fill φ := by
  have h : Read Text.isBlank (Piece.fill φ : Piece ids → List Char) :=
    read_fill (fun _ ↦ isBlank_of_isIdentifierRest) φ
  have hreverse : (List.reverse ∘ fun piece : Piece ids ↦ (piece.fill φ).reverse) =
      Piece.fill φ :=
    funext fun piece ↦ List.reverse_reverse (piece.fill φ)
  rw [Text.trim, Text.trimStart, Text.trimStart, fill, h.dropWhile, List.reverse_flatMap]
  show (List.dropWhile Text.isBlank
    (List.flatMap (fun piece : Piece ids ↦ (piece.fill φ).reverse) _)).reverse = _
  rw [h.reverse.dropWhile, List.reverse_flatMap, hreverse]
  rfl

private theorem isEmpty_fill (φ : NodeId → NodeId) (p : Pattern ids) :
    (p.fill φ).isEmpty = p.isEmpty := by
  cases p with
  | nil => rfl
  | cons piece p =>
    have h : Read (fun _ ↦ false) (Piece.fill φ : Piece ids → List Char) :=
      read_fill (fun _ _ ↦ rfl) φ
    obtain ⟨c, cs, hcs⟩ := List.exists_cons_of_ne_nil (h.nonempty piece)
    rw [fill_cons, hcs]
    rfl

/-- A text is cut into lines where its pattern is. -/
theorem trimmedLines_text (φ : NodeId → NodeId) (p : Pattern ids) :
    Text.trimmedLines (p.text φ) = p.lines.map (text φ) := by
  have h : Read (· == '\n') (Piece.fill φ : Piece ids → List Char) :=
    read_fill (fun _ ↦ ne_newline_of_isIdentifierRest) φ
  have htrim : Text.trim ∘ (List.flatMap (Piece.fill φ) : Pattern ids → List Char) =
      fill φ ∘ trim :=
    funext (trim_fill φ)
  have hempty : (fun cs : List Char ↦ !cs.isEmpty) ∘ (fill φ : Pattern ids → List Char) =
      fun p ↦ !p.isEmpty := by
    funext p
    exact congrArg (!·) (isEmpty_fill φ p)
  rw [Text.trimmedLines, text, String.toList_ofList, List.splitOn, fill, h.splitOnP, List.map_map,
    htrim, ← List.map_map, List.filter_map, hempty, List.map_map]
  rfl

end Pattern

/-! ### Instances of one pattern -/

/-- Two texts come from one pattern: they differ in the numbers of nodes in names of locals only,
where corresponding nodes stand. -/
def SamePattern (ids : List NodeId) (φ : NodeId → NodeId) (s s' : String) : Prop :=
  ∃ p : Pattern ids, s = p.text id ∧ s' = p.text φ

namespace SamePattern

variable {s s' t t' : String}

theorem refl (s : String) : SamePattern ids φ s s := by
  have h : ∀ φ, s = Pattern.text φ (s.toList.map Piece.char : Pattern ids) := by
    intro φ
    have hchars : (s.toList.flatMap fun c ↦ Piece.fill φ (.char c : Piece ids)) = s.toList :=
      List.flatMap_singleton' _
    rw [Pattern.text, Pattern.fill, List.flatMap_map, hchars, String.ofList_toList]
  exact ⟨_, h id, h φ⟩

theorem append (h : SamePattern ids φ s s') (ht : SamePattern ids φ t t') :
    SamePattern ids φ (s ++ t) (s' ++ t') := by
  obtain ⟨p, rfl, rfl⟩ := h
  obtain ⟨p', rfl, rfl⟩ := ht
  exact ⟨p ++ p', (Pattern.text_append id p p').symm, (Pattern.text_append φ p p').symm⟩

theorem localName {word : String} (hword : word ∈ allWords) {node : NodeId} (hnode : node ∈ ids) :
    SamePattern ids φ (localName word node) (localName word (φ node)) := by
  have h : ∀ φ, RenderKit.localName word (φ node) =
      Pattern.text φ ([.name word node hword hnode] : Pattern ids) := by
    intro φ
    rw [Pattern.text, Pattern.fill_cons, Pattern.fill_nil, List.append_nil]
    exact String.ofList_toList.symm
  exact ⟨_, h id, h φ⟩

theorem outputName {node : NodeId} (hnode : node ∈ ids) (output : Nat) :
    SamePattern ids φ (outputName Template.outputWord node output)
      (outputName Template.outputWord (φ node) output) :=
  ((localName (by decide) hnode).append (refl _)).append (refl _)

theorem join {texts texts' : List String} (h : List.Forall₂ (SamePattern ids φ) texts texts') :
    SamePattern ids φ (String.join texts) (String.join texts') := by
  induction h with
  | nil => exact refl _
  | cons h _ ih =>
    rw [String.join_cons, String.join_cons]
    exact h.append ih

theorem intercalate (mark : String) {texts texts' : List String}
    (h : List.Forall₂ (SamePattern ids φ) texts texts') :
    SamePattern ids φ (mark.intercalate texts) (mark.intercalate texts') := by
  induction h with
  | nil => exact refl _
  | cons h htail ih =>
    cases htail with
    | nil =>
      rw [String.intercalate_singleton, String.intercalate_singleton]
      exact h
    | cons h' htail' =>
      rw [String.intercalate_cons_cons, String.intercalate_cons_cons]
      exact (h.append (refl _)).append ih

theorem trimmedLines (h : SamePattern ids φ s s') :
    List.Forall₂ (SamePattern ids φ) (Text.trimmedLines s) (Text.trimmedLines s') := by
  obtain ⟨p, rfl, rfl⟩ := h
  rw [Pattern.trimmedLines_text, Pattern.trimmedLines_text, List.forall₂_map_left_iff,
    List.forall₂_map_right_iff]
  exact List.forall₂_same.mpr fun line _ ↦ ⟨line, rfl, rfl⟩

end SamePattern

end RenderKit
