import RenderKit.Proofs.Definition.Reading
import RenderKit.Proofs.Definition.Scanning
import RenderKit.Proofs.Requirement

/-!
# What a definition must meet

A definition that was decoded is taken exactly if its name is not blank, its outputs are not too
many, its pins can be told apart by name, and its template asks for no other pins. Main statement:
`TemplateDefinition.ofString_checked` says so, with the error for what is not met, and that the
segments of a definition that is taken spell its template again.
-/

namespace RenderKit

/-- The first name that stands in a list for the second time. -/
def FirstRepeated (names : List String) (name : String) : Prop :=
  ∃ before after, names = before ++ name :: after ∧ name ∈ before ∧ before.Nodup

/-- The names of pins differ. -/
def pinsDiffer (pins : List PinSpec) : Requirement DefinitionError where
  met := (pins.map (·.name)).Nodup
  tells := fun e ↦ ∃ name, FirstRepeated (pins.map (·.name)) name ∧ e = .duplicatePin name

namespace Segment

/-- Whether a segment stands in the place of a placeholder. -/
def isPlaceholder : Segment → Bool
  | .text _ => false
  | .input _ => true
  | .output _ => true

end Segment

namespace DefinitionRecord

/-- A placeholder is an input's name, or an output's with `_out` behind it. -/
def Knows (r : DefinitionRecord) (name : String) : Prop :=
  name ∈ r.inputs.map (·.name) ∨ name ∈ r.outputs.map (·.name ++ "_out")

/-- The template asks only for pins that there are. -/
def placeholdersKnown (r : DefinitionRecord) (pieces : List (List Char × String)) :
    Requirement DefinitionError where
  met := ∀ piece ∈ pieces, r.Knows piece.2
  tells := fun e ↦ ∃ before piece after, pieces = before ++ piece :: after ∧
    (∀ earlier ∈ before, r.Knows earlier.2) ∧ ¬ r.Knows piece.2 ∧ e = .unknownPlaceholder piece.2

/-- What a definition must meet, in the order in which it is checked. -/
def requirements (r : DefinitionRecord) (pieces : List (List Char × String)) :
    List (Requirement DefinitionError) :=
  [⟨∃ c ∈ r.name.toList, ¬ Text.isBlank c, (· = .emptyName)⟩,
    ⟨r.outputs.length < 1000, (· = .tooManyOutputs r.outputs.length)⟩,
    pinsDiffer r.inputs, pinsDiffer r.outputs, r.placeholdersKnown pieces]

/-- How a segment is written in a template. -/
def written (r : DefinitionRecord) : Segment → String
  | .text s => s
  | .input i => "\x7b\x7b" ++ (r.inputs.map (·.name))[i]?.getD "" ++ "\x7d\x7d"
  | .output i => "\x7b\x7b" ++ (r.outputs.map (·.name ++ "_out"))[i]?.getD "" ++ "\x7d\x7d"

/-- The pin that a placeholder stands for. What may be an input is no output. -/
def Denotes (r : DefinitionRecord) (name : String) : Segment → Prop
  | .text _ => False
  | .input i => (r.inputs.map (·.name))[i]? = some name
  | .output i =>
    (r.outputs.map (·.name ++ "_out"))[i]? = some name ∧ name ∉ r.inputs.map (·.name)

/-- A segment names a pin that is there. -/
def InRange (r : DefinitionRecord) : Segment → Prop
  | .text _ => True
  | .input i => i < r.inputs.length
  | .output i => i < r.outputs.length

/-- Segments hold a text, with its placeholders in order, without loss. -/
structure Spelled (r : DefinitionRecord) (text : String) (pieces : List (List Char × String))
    (segments : List Segment) : Prop where
  lossless : String.join (segments.map r.written) = text
  inRange : ∀ segment ∈ segments, r.InRange segment
  placeholders : List.Forall₂ (fun piece segment ↦ r.Denotes piece.2 segment) pieces
    (segments.filter (·.isPlaceholder))

end DefinitionRecord

/-! ## Names -/

theorem firstRepeated?_eq_none_iff {seen names : List String} :
    firstRepeated? seen names = none ↔ names.Nodup ∧ names.Disjoint seen := by
  induction names generalizing seen with
  | nil => simp [firstRepeated?]
  | cons name rest ih =>
    by_cases hseen : name ∈ seen
    · simp [firstRepeated?, hseen]
    · rw [firstRepeated?, if_neg hseen, ih]
      simp [hseen, and_assoc, and_left_comm]

/-- The name that is found was seen, or stands in front; in front of it there is no such name. -/
theorem firstRepeated?_eq_some_iff {seen names : List String} {name : String} :
    firstRepeated? seen names = some name ↔
      ∃ before after, names = before ++ name :: after ∧ (name ∈ before ∨ name ∈ seen) ∧
        firstRepeated? seen before = none := by
  induction names generalizing seen with
  | nil => simp [firstRepeated?]
  | cons first rest ih =>
    by_cases hseen : first ∈ seen
    · rw [firstRepeated?, if_pos hseen, Option.some.injEq]
      constructor
      · rintro rfl
        exact ⟨[], rest, rfl, .inr hseen, rfl⟩
      · rintro ⟨before, after, hsplit, -, hnone⟩
        rcases List.cons_eq_append_iff.mp hsplit with ⟨-, hcons⟩ | ⟨before, rfl, -⟩
        · exact (List.cons.inj hcons).1.symm
        · simp [firstRepeated?, hseen] at hnone
    · rw [firstRepeated?, if_neg hseen, ih]
      constructor
      · rintro ⟨before, after, rfl, hmem, hnone⟩
        refine ⟨first :: before, after, rfl, ?_, by rwa [firstRepeated?, if_neg hseen]⟩
        rw [List.mem_cons] at hmem ⊢
        exact or_assoc.mpr (or_left_comm.mp hmem)
      · rintro ⟨before, after, hsplit, hmem, hnone⟩
        rcases List.cons_eq_append_iff.mp hsplit with ⟨rfl, hcons⟩ | ⟨before, rfl, rfl⟩
        · obtain ⟨rfl, -⟩ := List.cons.inj hcons
          exact absurd (hmem.resolve_left List.not_mem_nil) hseen
        · rw [firstRepeated?, if_neg hseen] at hnone
          rw [List.mem_cons] at hmem
          refine ⟨before, after, rfl, ?_, hnone⟩
          rw [List.mem_cons]
          exact or_left_comm.mpr (or_assoc.mp hmem)

theorem firstRepeated?_nil_eq_some_iff {names : List String} {name : String} :
    firstRepeated? [] names = some name ↔ FirstRepeated names name := by
  simp [firstRepeated?_eq_some_iff, firstRepeated?_eq_none_iff, FirstRepeated]

theorem checks_checkPinNames (pins : List PinSpec) :
    Checks (checkPinNames pins) [pinsDiffer pins] := by
  unfold checkPinNames
  cases h : firstRepeated? [] (pins.map (·.name)) with
  | none => exact .met (firstRepeated?_eq_none_iff.mp h).1 (.nil ())
  | some name =>
    refine .unmet (fun hdiffer ↦ ?_) fun cause ↦ ?_
    · have hnone := firstRepeated?_eq_none_iff.mpr ⟨hdiffer, List.disjoint_nil_right _⟩
      cases h.symm.trans hnone
    · -- the first repeated name is the one that was found
      simp only [pinsDiffer, ← firstRepeated?_nil_eq_some_iff, h, Option.some.injEq]
      exact ⟨fun ⟨_, hname, he⟩ ↦ hname ▸ he, fun he ↦ ⟨name, rfl, he⟩⟩

/-! ## Placeholders -/

section

variable {pins : List PinSpec} {spelling : PinSpec → String} {name : String} {i : Nat}

theorem findIdx?_beq_eq_none_iff :
    pins.findIdx? (spelling · == name) = none ↔ name ∉ pins.map spelling := by
  simp

theorem getElem?_of_findIdx?_beq (h : pins.findIdx? (spelling · == name) = some i) :
    (pins.map spelling)[i]? = some name := by
  obtain ⟨hi, hname, -⟩ := List.findIdx?_eq_some_iff_getElem.mp h
  rw [List.getElem?_map, List.getElem?_eq_getElem hi, Option.map_some, beq_iff_eq.mp hname]

end

namespace DefinitionRecord

variable {r : DefinitionRecord} {name : String} {segment : Segment}
  {pieces : List (List Char × String)} {tail : List Char} {segments : List Segment}

theorem denotes_of_resolve (h : Template.resolve r.inputs r.outputs name = .ok segment) :
    r.Denotes name segment := by
  unfold Template.resolve at h
  split at h
  · next i hi =>
    cases h
    exact getElem?_of_findIdx?_beq hi
  · next hi =>
    split at h
    · next i ho =>
      cases h
      exact ⟨getElem?_of_findIdx?_beq ho, findIdx?_beq_eq_none_iff.mp hi⟩
    · cases h

theorem checks_resolve (r : DefinitionRecord) (name : String) :
    Checks (Template.resolve r.inputs r.outputs name)
      [⟨r.Knows name, (· = .unknownPlaceholder name)⟩] := by
  unfold Template.resolve
  split
  · next i hi => exact .met (.inl (List.mem_of_getElem? (getElem?_of_findIdx?_beq hi))) (.nil _)
  · next hi =>
    split
    · next i ho => exact .met (.inr (List.mem_of_getElem? (getElem?_of_findIdx?_beq ho))) (.nil _)
    · next ho =>
      refine .unmet (fun hknown ↦ ?_) fun _ ↦ .rfl
      exact hknown.elim (findIdx?_beq_eq_none_iff.mp hi) (findIdx?_beq_eq_none_iff.mp ho)

/-- A template is refused for its first unknown placeholder. -/
theorem checks_parse (h : Template.Scanned r.code.toList pieces tail) :
    Checks ((Template.parse r.inputs r.outputs r.code.toList).mapError .ofTemplate)
      [r.placeholdersKnown pieces] := by
  rw [Template.parse_of_scanned h]
  have hpieces := Checks.mapM (fun piece : List Char × String ↦
    (r.checks_resolve piece.2).map fun segment ↦ Template.textSegment piece.1 ++ [segment]) pieces
  refine (hpieces.map _).mapError .rfl fun e ↦ ?_
  constructor
  · rintro ⟨before, piece, after, hsplit, hbefore, hunknown, rfl⟩
    exact ⟨_, ⟨before, piece, after, hsplit, hbefore, hunknown, rfl⟩, rfl⟩
  · rintro ⟨_, ⟨before, piece, after, hsplit, hbefore, hunknown, rfl⟩, rfl⟩
    exact ⟨before, piece, after, hsplit, hbefore, hunknown, rfl⟩

/-! ## Segments -/

theorem Denotes.written_eq (h : r.Denotes name segment) :
    r.written segment = "\x7b\x7b" ++ name ++ "\x7d\x7d" := by
  cases segment with
  | text s => cases h
  | input i =>
    have hi : (r.inputs.map (·.name))[i]? = some name := h
    rw [written, hi, Option.getD_some]
  | output i => rw [written, h.1, Option.getD_some]

theorem Denotes.isPlaceholder (h : r.Denotes name segment) : segment.isPlaceholder = true := by
  cases segment with
  | text s => cases h
  | input i => rfl
  | output i => rfl

theorem Denotes.inRange (h : r.Denotes name segment) : r.InRange segment := by
  cases segment with
  | text s => trivial
  | input i =>
    have hi := (List.getElem?_eq_some_iff.mp (h : _ = some name)).1
    rwa [List.length_map] at hi
  | output i =>
    have hi := (List.getElem?_eq_some_iff.mp h.1).1
    rwa [List.length_map] at hi

namespace Spelled

theorem append {text text' : String} {pieces' : List (List Char × String)}
    {segments' : List Segment} (h : r.Spelled text pieces segments)
    (h' : r.Spelled text' pieces' segments') :
    r.Spelled (text ++ text') (pieces ++ pieces') (segments ++ segments') where
  lossless := by rw [List.map_append, String.join_append, h.lossless, h'.lossless]
  inRange := List.forall_mem_append.mpr ⟨h.inRange, h'.inRange⟩
  placeholders := by
    rw [List.filter_append]
    exact List.rel_append h.placeholders h'.placeholders

theorem textSegment (cs : List Char) :
    r.Spelled (String.ofList cs) [] (Template.textSegment cs) := by
  cases cs with
  | nil => exact ⟨rfl, by simp [Template.textSegment], .nil⟩
  | cons c cs =>
    exact ⟨by simp [Template.textSegment, written], by simp [Template.textSegment, InRange], .nil⟩

theorem placeholder {piece : List Char × String} (h : r.Denotes piece.2 segment) :
    r.Spelled ("\x7b\x7b" ++ piece.2 ++ "\x7d\x7d") [piece] [segment] where
  lossless := by simp [h.written_eq]
  inRange := by simp [h.inRange]
  placeholders := by
    rw [List.filter_cons_of_pos h.isPlaceholder]
    exact .cons h .nil

end Spelled

/-- What is read piece by piece is spelled so. -/
theorem spelled_of_scanned {cs : List Char} {parts : List (List Segment)}
    (h : Template.Scanned cs pieces tail)
    (hparts : pieces.mapM (Template.pieceSegments r.inputs r.outputs) = .ok parts) :
    r.Spelled (String.ofList cs) pieces (parts.flatten ++ Template.textSegment tail) := by
  induction h generalizing parts with
  | unopened | unclosed =>
    cases hparts
    exact .textSegment _
  | @placeholder cs before behind name rest tail pieces hopened hclosed _ ih =>
    rw [mapM_eq_ok_iff] at hparts
    obtain ⟨part, parts, hpart, hrest, rfl⟩ := List.forall₂_cons_left_iff.mp hparts
    obtain ⟨segment, hsegment, hmade⟩ := bind_eq_ok_iff.mp hpart
    cases hmade
    have htext : String.ofList cs = String.ofList before ++
        ("\x7b\x7b" ++ String.ofList name ++ "\x7d\x7d") ++ String.ofList rest := by
      rw [hopened.split, hclosed.split, ← String.toList_inj]
      simp
    have hpin : r.Spelled ("\x7b\x7b" ++ String.ofList name ++ "\x7d\x7d")
        [(before, String.ofList name)] [segment] := .placeholder (denotes_of_resolve hsegment)
    have hrest := ih (mapM_eq_ok_iff.mpr hrest)
    rw [htext, List.flatten_cons, List.append_assoc]
    exact ((Spelled.textSegment before).append hpin).append hrest

theorem spelled_of_parse (h : Template.Scanned r.code.toList pieces tail)
    (hp : Template.parse r.inputs r.outputs r.code.toList = .ok segments) :
    r.Spelled r.code pieces segments := by
  rw [Template.parse_of_scanned h] at hp
  obtain ⟨parts, hparts, hmade⟩ := bind_eq_ok_iff.mp hp
  cases hmade
  simpa using spelled_of_scanned h hparts

/-- All requirements are checked, in order. -/
theorem checks_ofRecord (h : Template.Scanned r.code.toList pieces tail) :
    Checks (TemplateDefinition.ofRecord r) (r.requirements pieces) := by
  unfold TemplateDefinition.ofRecord
  by_cases hname : Text.allBlank r.name = true
  · simp only [if_pos hname, error_bind]
    refine .unmet (fun ⟨c, hc, hshown⟩ ↦ hshown ?_) fun _ ↦ .rfl
    exact List.all_eq_true.mp hname c hc
  · have hshown : ∃ c ∈ r.name.toList, ¬ Text.isBlank c := by
      simpa [Text.allBlank] using hname
    simp only [if_neg hname]
    refine .met hshown ?_
    by_cases hmany : OutputKey.stride ≤ r.outputs.length
    · simp only [if_pos hmany, error_bind]
      exact .unmet (fun hfew ↦ Nat.not_lt.mpr hmany hfew) fun _ ↦ .rfl
    · simp only [if_neg hmany]
      refine .met (Nat.lt_of_not_le hmany) ?_
      exact (checks_checkPinNames r.inputs).andThen fun _ _ ↦
        (checks_checkPinNames r.outputs).andThen fun _ _ ↦ (checks_parse h).map _

end DefinitionRecord

namespace TemplateDefinition

open Json

variable {r : DefinitionRecord} {text : String}

/-- A definition that was decoded is taken exactly if it meets all that a definition must meet, and
is refused for the first thing that it does not meet, where the placeholders are those that are met
when its template is read from left to right. The segments of a definition that is taken spell its
template, and stand in the order of the placeholders for the pins that these name. -/
theorem ofString_checked
    (hr : (Value.ofString? text >>= DefinitionRecord.ofJson?) = some r) :
    (∃ pieces tail, Template.Scanned r.code.toList pieces tail) ∧
      ∀ pieces tail, Template.Scanned r.code.toList pieces tail →
        Checks (ofString text) (r.requirements pieces) ∧
          ∀ d, ofString text = .ok d →
            d.descriptor = ⟨r.name, r.category, r.description, r.inputs, r.outputs⟩ ∧
              r.Spelled r.code pieces d.segments := by
  have hread : ofString text = ofRecord r := by
    rw [ofString, hr]
  rw [hread]
  refine ⟨Template.exists_scanned _, fun pieces tail hscanned ↦ ?_⟩
  refine ⟨DefinitionRecord.checks_ofRecord hscanned, fun d hd ↦ ?_⟩
  obtain ⟨-, -, -, -, segments, hsegments, rfl⟩ := ofRecord_eq_ok_iff.mp hd
  exact ⟨rfl, DefinitionRecord.spelled_of_parse hscanned hsegments⟩

/-- A definition of which one placeholder may be an input and an output, with braces at the end of
its template that are never closed. -/
def rippleText : String :=
  "\x7b\"name\":\"Ripple\",\"inputs\":[\x7b\"name\":\"A_out\",\"type\":\"float\"\x7d]," ++
    "\"outputs\":[\x7b\"name\":\"A\",\"type\":\"float\"\x7d,\x7b\"name\":\"B\",\"type\":\"float\"\x7d]," ++
    "\"code\":\"\x7b\x7bA_out\x7d\x7d·\x7b\x7bB_out\x7d\x7d\x7d\x7b\x7bC\"\x7d"

def ripple : DefinitionRecord where
  name := "Ripple"
  category := "Custom"
  description := ""
  inputs := [⟨"A_out", .float, ""⟩]
  outputs := [⟨"A", .float, ""⟩, ⟨"B", .float, ""⟩]
  code := "\x7b\x7bA_out\x7d\x7d·\x7b\x7bB_out\x7d\x7d\x7d\x7b\x7bC"

/-- The placeholders of `ripple`, with the text in front of each. -/
def ripplePieces : List (List Char × String) :=
  [([], "A_out"), (['·'], "B_out")]

private theorem scanned_ripple :
    Template.Scanned ripple.code.toList ripplePieces "\x7d\x7b\x7bC".toList := by
  refine @Template.Scanned.placeholder _ [] _ "A_out".toList _ _ _
    (Template.cut?_eq_some_iff.mp rfl) (Template.cut?_eq_some_iff.mp rfl) ?_
  refine @Template.Scanned.placeholder _ ['·'] _ "B_out".toList _ _ _
    (Template.cut?_eq_some_iff.mp rfl) (Template.cut?_eq_some_iff.mp rfl) ?_
  exact .unclosed (Template.cut?_eq_some_iff.mp rfl) (Template.cut?_eq_none_iff.mp rfl)

theorem ofString_checked_ripple :
    (Value.ofString? rippleText >>= DefinitionRecord.ofJson?) = some ripple ∧
      ∃ d, ofString rippleText = .ok d ∧ ripple.Spelled ripple.code ripplePieces d.segments := by
  have hr : (Value.ofString? rippleText >>= DefinitionRecord.ofJson?) = some ripple := by
    decide +kernel
  refine ⟨hr, ?_⟩
  obtain ⟨-, hscanned⟩ := ofString_checked hr
  obtain ⟨hchecks, hspelled⟩ := hscanned _ _ scanned_ripple
  have hshown : ∃ c ∈ ripple.name.toList, ¬ Text.isBlank c := ⟨'R', by decide, by decide⟩
  have hmet : ∀ q ∈ ripple.requirements ripplePieces, q.met := by
    simpa [DefinitionRecord.requirements, pinsDiffer, DefinitionRecord.placeholdersKnown,
      DefinitionRecord.Knows, ripple, ripplePieces] using hshown
  obtain ⟨d, hd⟩ := hchecks.accepts.mpr hmet
  exact ⟨d, hd, (hspelled d hd).2⟩

end TemplateDefinition

end RenderKit
