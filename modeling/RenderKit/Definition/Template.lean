import RenderKit.Pin
import RenderKit.Shader.Snippet
import RenderKit.Text.Blank

/-!
# Code templates

Shader source with placeholders in doubled braces: the name of an input pin stands for the
expression on that pin, and the name of an output pin with `_out` behind it for the output's
variable. A template is cut at the leftmost opening braces and the nearest closing ones behind
them; what is never closed is text. Main statement: `cut?_eq_some` says that cutting loses nothing
but the mark.
-/

namespace RenderKit

/-- Why a definition of a node family cannot be used. -/
inductive TemplateError where
  | unknownPlaceholder (name : String)
deriving DecidableEq, Repr

/-- A piece of a template. -/
inductive Segment where
  | text (s : String)
  | input (index : Nat)
  | output (index : Nat)
deriving DecidableEq, Repr

namespace Template

/-- The text before and behind the first place where a character is doubled. -/
def cut? (mark : Char) : List Char → Option (List Char × List Char)
  | a :: b :: rest =>
    if a = mark ∧ b = mark then some ([], rest)
    else (cut? mark (b :: rest)).map fun (before, behind) => (a :: before, behind)
  | _ => none

theorem cut?_eq_some {mark : Char} {cs before behind : List Char}
    (h : cut? mark cs = some (before, behind)) : cs = before ++ mark :: mark :: behind := by
  fun_induction cut? mark cs generalizing before with
  | case1 a b rest hab =>
    obtain ⟨rfl, rfl⟩ := hab
    cases h
    rfl
  | case2 a b rest hab ih =>
    obtain ⟨⟨u, v⟩, hu, huv⟩ := Option.map_eq_some_iff.1 h
    cases huv
    rw [ih hu]
    rfl
  | case3 => cases h

theorem length_lt_of_cut? {mark : Char} {cs before behind : List Char}
    (h : cut? mark cs = some (before, behind)) : behind.length < cs.length := by
  rw [cut?_eq_some h]
  simp
  omega

/-- What a placeholder stands for. An input's name comes before an output's. -/
def resolve (inputs outputs : List PinSpec) (name : String) : Except TemplateError Segment :=
  match inputs.findIdx? (·.name == name) with
  | some i => .ok (.input i)
  | none =>
    match outputs.findIdx? (·.name ++ "_out" == name) with
    | some i => .ok (.output i)
    | none => .error (.unknownPlaceholder name)

/-- Text as a segment; none for no text. -/
def textSegment (cs : List Char) : List Segment :=
  if cs.isEmpty then [] else [.text (String.ofList cs)]

/-- The segments of a template. -/
def parse (inputs outputs : List PinSpec) (cs : List Char) :
    Except TemplateError (List Segment) :=
  match _opened : cut? '\x7b' cs with
  | none => .ok (textSegment cs)
  | some (before, behind) =>
    match _closed : cut? '\x7d' behind with
    | none => .ok (textSegment cs)
    | some (name, rest) => do
      let segment ← resolve inputs outputs (String.ofList name)
      let segments ← parse inputs outputs rest
      return textSegment before ++ segment :: segments
termination_by cs.length
decreasing_by
  have := length_lt_of_cut? _opened
  have := length_lt_of_cut? _closed
  omega

/-- A template without opening braces is text. -/
theorem parse_of_cut?_eq_none {inputs outputs : List PinSpec} {cs : List Char}
    (h : cut? '\x7b' cs = none) : parse inputs outputs cs = .ok (textSegment cs) := by
  rw [parse]
  split
  · rfl
  · next h' =>
    rw [h] at h'
    cases h'

/-- The word in front of the variables of template outputs. -/
def outputWord : String := "custom"

/-- What a segment becomes for a node with these expressions on its inputs. -/
def fill (node : NodeId) (inputs : List String) : Segment → String
  | .text s => s
  | .input i => inputs[i]?.getD ""
  | .output i => outputName outputWord node i

/-- The source that a template becomes, all placeholders replaced at once. -/
def expand (node : NodeId) (inputs : List String) (segments : List Segment) : String :=
  String.join (segments.map (fill node inputs))

/-- The lines of the expanded source, and a variable for every output. -/
def snippet (segments : List Segment) (outputs : Nat) (node : NodeId) (inputs : List String) :
    Snippet :=
  .writes ((Text.trimmedLines (expand node inputs segments)).map .verbatim)
    (.binds ((List.range outputs).map fun i => (i, outputName outputWord node i)) .done)

end Template

end RenderKit
