import RenderKit.Proofs.Definition.Checking
import RenderKit.Proofs.Shader.Emission
import RenderKit.Proofs.Shader.Families
import RenderKit.Proofs.Shader.Reachable
import Mathlib.Data.List.DropRight

/-!
# What templates write

A node with a template writes the template's own text with all placeholders replaced at once
(`Filled`): which placeholders there are is a matter of the template alone, so the expressions on
the inputs are never read again. What comes out is cut into lines (`KeptLines`), and the declared
outputs are bound to the names that stand in the text. Main statement: `Reachable.emit_template`.
-/

namespace RenderKit

/-! ### Lines -/

namespace Text

variable {line kept : List Char}

/-- A line without the blanks at its ends. -/
structure Trimmed (line kept : List Char) : Prop where
  split : ∃ before after, line = before ++ kept ++ after ∧ (∀ c ∈ before, isBlank c = true) ∧
    ∀ c ∈ after, isBlank c = true
  first : ∀ h : kept ≠ [], isBlank (kept.head h) = false
  last : ∀ h : kept ≠ [], isBlank (kept.getLast h) = false

/-- The lines of a text: what is between its line feeds. -/
structure Lines (text : String) (lines : List (List Char)) : Prop where
  ne_nil : lines ≠ []
  unbroken : ∀ line ∈ lines, '\n' ∉ line
  joined : ['\n'].intercalate lines = text.toList

/-- The lines of a text without the blanks at their ends, those left out of which nothing is
left. -/
def KeptLines (text : String) (kept : List String) : Prop :=
  ∃ lines trimmed, Lines text lines ∧ List.Forall₂ Trimmed lines trimmed ∧
    kept = (trimmed.filter (!·.isEmpty)).map String.ofList

theorem trim_eq (cs : List Char) : trim cs = (cs.dropWhile isBlank).rdropWhile isBlank := rfl

theorem trimmed_trim (line : List Char) : Trimmed line (trim line) where
  split := by
    refine ⟨line.takeWhile isBlank, (line.dropWhile isBlank).rtakeWhile isBlank, ?_,
      fun c ↦ List.mem_takeWhile_imp, fun c ↦ List.mem_rtakeWhile_imp⟩
    rw [trim_eq, List.append_assoc, List.rdropWhile_append_rtakeWhile,
      List.takeWhile_append_dropWhile]
  first h := by
    have hkept : trim line <+: line.dropWhile isBlank := List.rdropWhile_prefix isBlank _
    rw [hkept.head h]
    exact List.head_dropWhile_not isBlank _
  last h := by
    rw [trim_eq] at h
    simpa [trim_eq] using List.rdropWhile_last_not isBlank (line.dropWhile isBlank) h

theorem trimmed_iff : Trimmed line kept ↔ trim line = kept := by
  refine ⟨fun h ↦ ?_, fun h ↦ h ▸ trimmed_trim line⟩
  obtain ⟨⟨before, after, rfl, hbefore, hafter⟩, hfirst, hlast⟩ := h
  have hnone : after.dropWhile isBlank = [] := List.dropWhile_eq_nil_iff.mpr hafter
  cases kept with
  | nil => rw [trim_eq, List.append_nil, List.dropWhile_append_of_pos hbefore, hnone]; rfl
  | cons c cs =>
    have hc : isBlank c = false := hfirst (List.cons_ne_nil c cs)
    have hself : (c :: cs).rdropWhile isBlank = c :: cs :=
      List.rdropWhile_eq_self_iff.mpr fun h ↦ by simpa using hlast h
    rw [trim_eq, List.append_assoc, List.dropWhile_append_of_pos hbefore, List.cons_append,
      List.dropWhile_cons_of_neg (by simp [hc]), ← List.cons_append, List.rdropWhile,
      List.reverse_append, List.dropWhile_append_of_pos (by simpa using hafter)]
    exact hself

/-- No line of a text has a line feed. -/
theorem not_mem_of_mem_splitOn {cs : List Char} (h : line ∈ cs.splitOn '\n') : '\n' ∉ line := by
  induction cs generalizing line with
  | nil =>
    rw [List.splitOn_nil, List.mem_singleton] at h
    rw [h]
    exact List.not_mem_nil
  | cons c cs ih =>
    rw [List.splitOn_cons_eq_if_modifyHead] at h
    obtain ⟨first, rest, hcs⟩ := List.exists_cons_of_ne_nil (List.splitOn_ne_nil '\n' cs)
    rw [hcs] at h ih
    by_cases hc : c = '\n'
    · rw [if_pos (by simp [hc])] at h
      rcases List.mem_cons.mp h with rfl | h
      · exact List.not_mem_nil
      · exact ih h
    · rw [if_neg (by simp [hc]), List.modifyHead_cons] at h
      rcases List.mem_cons.mp h with rfl | h
      · rw [List.mem_cons, not_or]
        exact ⟨Ne.symm hc, ih List.mem_cons_self⟩
      · exact ih (List.mem_cons_of_mem _ h)

theorem lines_iff {text : String} {lines : List (List Char)} :
    Lines text lines ↔ text.toList.splitOn '\n' = lines := by
  constructor
  · intro h
    rw [← h.joined, List.splitOn_intercalate '\n' h.unbroken h.ne_nil]
  · rintro rfl
    exact ⟨List.splitOn_ne_nil _ _, fun _ ↦ not_mem_of_mem_splitOn, List.intercalate_splitOn '\n'⟩

theorem keptLines_iff {text : String} {kept : List String} :
    KeptLines text kept ↔ trimmedLines text = kept := by
  have htrimmed : ∀ lines trimmed : List (List Char),
      List.Forall₂ Trimmed lines trimmed ↔ lines.map trim = trimmed := by
    intro lines trimmed
    rw [← List.forall₂_eq_eq_eq, List.forall₂_map_left_iff]
    simp only [← trimmed_iff]
  simp only [KeptLines, htrimmed, lines_iff, exists_and_left, exists_eq_left', trimmedLines]
  exact eq_comm

end Text

/-! ### Placeholders -/

namespace Template

theorem expand_append (node : NodeId) (inputs : List String) (first second : List Segment) :
    expand node inputs (first ++ second) =
      expand node inputs first ++ expand node inputs second := by
  rw [expand, List.map_append, String.join_append]
  rfl

theorem expand_singleton (node : NodeId) (inputs : List String) (segment : Segment) :
    expand node inputs [segment] = fill node inputs segment := by
  simp [expand]

theorem expand_textSegment (node : NodeId) (inputs : List String) (cs : List Char) :
    expand node inputs (textSegment cs) = String.ofList cs := by
  cases cs with
  | nil => rfl
  | cons c cs => exact expand_singleton node inputs _

end Template

namespace DefinitionRecord

variable {r : DefinitionRecord} {node : NodeId} {inputs : List String} {name value text : String}
  {pieces : List (List Char × String)} {tail : List Char}

/-- What is written in the place of a placeholder: the expression on the input of that name, or the
variable of the output of that name with `_out` behind it, where no input has the name. -/
inductive StandsFor (r : DefinitionRecord) (node : NodeId) (inputs : List String) (name : String) :
    String → Prop where
  | input {i : Nat} {expression : String} : (r.inputs.map (·.name))[i]? = some name →
      inputs[i]? = some expression → StandsFor r node inputs name expression
  | output {i : Nat} : (r.outputs.map (·.name ++ "_out"))[i]? = some name →
      name ∉ r.inputs.map (·.name) →
        StandsFor r node inputs name (outputName Template.outputWord node i)

/-- A template with what stands for each of its placeholders in their place. The placeholders, with
the texts in front of them, and the text behind the last one are those of the template. -/
inductive Filled (r : DefinitionRecord) (node : NodeId) (inputs : List String) :
    List (List Char × String) → List Char → String → Prop where
  | tail (cs : List Char) : Filled r node inputs [] cs (String.ofList cs)
  | placeholder {before tail : List Char} {name value text : String}
      {pieces : List (List Char × String)} : r.StandsFor node inputs name value →
      Filled r node inputs pieces tail text →
        Filled r node inputs ((before, name) :: pieces) tail (String.ofList before ++ value ++ text)

/-- The pins of a definition that is taken can be told apart by name. -/
structure Distinct (r : DefinitionRecord) : Prop where
  inputs : (r.inputs.map (·.name)).Nodup
  outputs : (r.outputs.map (·.name)).Nodup

theorem distinct_of_ofRecord {t : TemplateDefinition} (h : TemplateDefinition.ofRecord r = .ok t) :
    r.Distinct := by
  obtain ⟨-, -, hinputs, houtputs, -⟩ := TemplateDefinition.ofRecord_eq_ok_iff.mp h
  exact ⟨(checks_checkPinNames r.inputs).accepts.mp ⟨_, hinputs⟩ _ (List.mem_singleton_self _),
    (checks_checkPinNames r.outputs).accepts.mp ⟨_, houtputs⟩ _ (List.mem_singleton_self _)⟩

/-- Outputs can be told apart by their placeholders. -/
theorem Distinct.nodup_suffixed (h : r.Distinct) : (r.outputs.map (·.name ++ "_out")).Nodup := by
  have hmap : r.outputs.map (·.name ++ "_out") = (r.outputs.map (·.name)).map (· ++ "_out") := by
    rw [List.map_map]
    rfl
  rw [hmap]
  exact h.outputs.map fun first second he ↦ by simpa using he

/-- A placeholder stands for one text, that of its segment. -/
theorem standsFor_iff (hd : r.Distinct) (hl : inputs.length = r.inputs.length) {segment : Segment}
    (hs : r.Denotes name segment) :
    r.StandsFor node inputs name value ↔ Template.fill node inputs segment = value := by
  cases segment with
  | text s => cases hs
  | input i =>
    have hi : (r.inputs.map (·.name))[i]? = some name := hs
    have hrange := (List.getElem?_eq_some_iff.mp hi).1
    have hlt : i < inputs.length := by rwa [hl, ← List.length_map]
    have hfill : Template.fill node inputs (.input i) = inputs[i] := by
      rw [Template.fill, List.getElem?_eq_getElem hlt, Option.getD_some]
    rw [hfill]
    constructor
    · rintro (⟨hj, he⟩ | ⟨-, hfree⟩)
      · have hij := (List.getElem?_inj hrange hd.inputs).mp (hi.trans hj.symm)
        subst hij
        rw [List.getElem?_eq_getElem hlt] at he
        exact Option.some.inj he
      · exact absurd (List.mem_of_getElem? hi) hfree
    · rintro rfl
      exact .input hi (List.getElem?_eq_getElem hlt)
  | output i =>
    obtain ⟨hi, hfree⟩ := hs
    constructor
    · rintro (⟨hj, -⟩ | ⟨hj, -⟩)
      · exact absurd (List.mem_of_getElem? hj) hfree
      · have hlt := (List.getElem?_eq_some_iff.mp hi).1
        have hij := (List.getElem?_inj hlt hd.nodup_suffixed).mp (hi.trans hj.symm)
        rw [hij, Template.fill]
    · rintro rfl
      exact .output hi hfree

/-- The segments that were read from a template become the filled template, and no other text
is. -/
theorem filled_iff (hd : r.Distinct) (hl : inputs.length = r.inputs.length)
    {parts : List (List Segment)}
    (hparts : List.Forall₂ (fun piece part ↦
      Template.pieceSegments r.inputs r.outputs piece = .ok part) pieces parts) :
    r.Filled node inputs pieces tail text ↔
      Template.expand node inputs (parts.flatten ++ Template.textSegment tail) = text := by
  induction hparts generalizing text with
  | nil =>
    rw [List.flatten_nil, List.nil_append, Template.expand_textSegment]
    constructor
    · rintro ⟨⟩
      rfl
    · rintro rfl
      exact .tail tail
  | @cons piece part pieces parts hpart _ ih =>
    obtain ⟨segment, hsegment, hmade⟩ := bind_eq_ok_iff.mp hpart
    cases hmade
    have hvalue : ∀ value, r.StandsFor node inputs piece.2 value ↔
        Template.fill node inputs segment = value :=
      fun value ↦ standsFor_iff hd hl (denotes_of_resolve hsegment)
    rw [List.flatten_cons, List.append_assoc, Template.expand_append, Template.expand_append,
      Template.expand_textSegment, Template.expand_singleton]
    constructor
    · rintro (_ | ⟨hs, hf⟩)
      rw [(hvalue _).mp hs, ih.mp hf, String.append_assoc]
    · rintro rfl
      exact .placeholder ((hvalue _).mpr rfl) (ih.mpr rfl)

/-- A template that is taken is filled in one way. -/
theorem filled_iff_of_ofRecord {t : TemplateDefinition} (h : TemplateDefinition.ofRecord r = .ok t)
    (hs : Template.Scanned r.code.toList pieces tail) (hl : inputs.length = r.inputs.length) :
    r.Filled node inputs pieces tail text ↔ Template.expand node inputs t.segments = text := by
  have hd := distinct_of_ofRecord h
  obtain ⟨-, -, -, -, segments, hparse, rfl⟩ := TemplateDefinition.ofRecord_eq_ok_iff.mp h
  rw [Template.parse_of_scanned hs] at hparse
  obtain ⟨parts, hparts, hmade⟩ := bind_eq_ok_iff.mp hparse
  cases hmade
  exact filled_iff hd hl (mapM_eq_ok_iff.mp hparts)

end DefinitionRecord

/-! ### Nodes -/

/-- A template writes its lines, and binds its outputs and nothing else to their names. -/
theorem Template.run_snippet (segments : List Segment) {outputs : Nat}
    (ho : outputs ≤ OutputKey.stride) (node : NodeId) (inputs : List String) (sheet : Sheet) :
    ∃ after, (snippet segments outputs node inputs).run node sheet = (after, none) ∧
      after.statements = sheet.statements ++
        (Text.trimmedLines (expand node inputs segments)).map .verbatim ∧
      (∀ i < outputs, after.get? ⟨node, i⟩ = some (outputName outputWord node i)) ∧
      ∀ key : OutputKey, key.output < OutputKey.stride → key.node ≠ node ∨ outputs ≤ key.output →
        after.get? key = sheet.get? key := by
  have hnumbered : (List.range outputs).map (fun i ↦ (i, outputName outputWord node i)) =
      numbered ((List.range outputs).map (outputName outputWord node)) 0 := by
    refine List.ext_getElem (by simp [numbered]) fun i hi hi' ↦ ?_
    simp [numbered]
  rw [snippet, Snippet.run_writes, hnumbered]
  obtain ⟨after, hrun, hstatements, hother, hown⟩ := Snippet.run_numbered node
    ((List.range outputs).map (outputName outputWord node)) 0
      { sheet with statements := sheet.statements ++
          (Text.trimmedLines (expand node inputs segments)).map .verbatim } (by simpa using ho)
  refine ⟨after, hrun, hstatements, fun i hi ↦ ?_, fun key hk hne ↦ ?_⟩
  · rw [← Nat.zero_add i]
    exact hown i _ (by simp [hi])
  · exact hother key hk (hne.imp_right fun h ↦ .inr (by simpa using h))

namespace ShaderGraph

variable {g : ShaderGraph}

/-- Emitting a node with a template succeeds once the operands of the node are known. What it
appends to the source is the template with all its placeholders replaced at once, each input's by
the input's operand and each output's by a name of that output alone, cut into lines without the
blanks at their ends, those with nothing left out; each is written behind the indent and closed by a
line feed. The declared outputs are bound to the names that replaced their placeholders, and nothing
else is bound. -/
theorem Reachable.emit_template (h : Reachable Node.Created g) {node : Node} (hn : node ∈ g.nodes)
    {handle : Nat} {r : DefinitionRecord} {t : TemplateDefinition} {backing : Option Backing}
    (hr : TemplateDefinition.ofRecord r = .ok t)
    (hk : node.kind = .custom ⟨handle, .template { t with backing := backing }⟩)
    {pieces : List (List Char × String)} {tail : List Char}
    (hs : Template.Scanned r.code.toList pieces tail) {walk : Walk} {inputs : List String}
    (hi : g.operands walk.sheet node = .ok inputs) :
    ∃ walk', g.emit walk node = .ok walk' ∧
      (∃ text kept, r.Filled node.id inputs pieces tail text ∧ Text.KeptLines text kept) ∧
      (∀ text kept, r.Filled node.id inputs pieces tail text → Text.KeptLines text kept →
        ∀ indent, Statement.lines indent walk'.sheet.statements =
          Statement.lines indent walk.sheet.statements ++
            String.join (kept.map fun line ↦ indent ++ line ++ "\n")) ∧
      (∀ i < r.outputs.length,
        walk'.sheet.get? ⟨node.id, i⟩ = some (outputName Template.outputWord node.id i) ∧
          ∀ other j, outputName Template.outputWord other j =
            outputName Template.outputWord node.id i → other = node.id ∧ j = i) ∧
      ∀ key : OutputKey, key.output < OutputKey.stride →
        key.node ≠ node.id ∨ r.outputs.length ≤ key.output →
          walk'.sheet.get? key = walk.sheet.get? key := by
  have hpins : t.descriptor.inputs = r.inputs ∧ t.descriptor.outputs = r.outputs ∧
      r.outputs.length < OutputKey.stride := by
    obtain ⟨-, hlt, -, -, segments, -, rfl⟩ := TemplateDefinition.ofRecord_eq_ok_iff.mp hr
    exact ⟨rfl, rfl, hlt⟩
  obtain ⟨hinputs, houtputs, hlt⟩ := hpins
  have hf := h.faithful node hn
  have hdescriptor : node.kind.descriptor = t.descriptor := by rw [hk]; rfl
  have hlength : inputs.length = r.inputs.length := by
    rw [length_operands hi, hf.length_inputs, hdescriptor, hinputs]
  have hsnippet : node.kind.snippet node.id inputs =
      Template.snippet t.segments r.outputs.length node.id inputs := by
    rw [hk, ← houtputs]
    rfl
  obtain ⟨sheet, hrun, hstatements, hown, hother⟩ :=
    Template.run_snippet t.segments hlt.le node.id inputs walk.sheet
  have hbound : ∀ i < node.outputs.length, sheet.isBound ⟨node.id, i⟩ = true := by
    intro i hi
    rw [hf.length_outputs, hdescriptor, houtputs] at hi
    rw [Sheet.isBound, hown i hi, Option.isSome_some]
  have hfilled : ∀ text, r.Filled node.id inputs pieces tail text ↔
      Template.expand node.id inputs t.segments = text :=
    fun text ↦ DefinitionRecord.filled_iff_of_ofRecord hr hs hlength
  refine ⟨{ emitted := node.id :: walk.emitted, sheet := sheet }, ?_, ?_, ?_,
    fun i hi ↦ ⟨hown i hi, fun _ _ ↦ outputName_inj⟩, hother⟩
  · exact emit_eq_ok_iff.mpr ⟨inputs, sheet, hi, hsnippet ▸ hrun, hbound, rfl⟩
  · exact ⟨_, _, (hfilled _).mpr rfl, Text.keptLines_iff.mpr rfl⟩
  · intro text kept htext hkept indent
    obtain rfl := (hfilled text).mp htext
    obtain rfl := Text.keptLines_iff.mp hkept
    rw [hstatements, Statement.lines_append]
    simp [Statement.lines, Statement.text, Function.comp_def]

/-- A template whose input is by default what looks like a placeholder, with a line feed behind. -/
def braid : DefinitionRecord where
  name := "Braid"
  category := "Custom"
  description := ""
  inputs := [⟨"Value", .float, "\x7b\x7bResult_out\x7d\x7d\n"⟩]
  outputs := [⟨"Result", .float, ""⟩]
  code := "float \x7b\x7bResult_out\x7d\x7d = \x7b\x7bValue\x7d\x7d;\n\n  " ++
    "\x7b\x7bResult_out\x7d\x7d += 1; "

/-- The placeholders of `braid`, with the text in front of each. -/
def braidPieces : List (List Char × String) :=
  [("float ".toList, "Result_out"), (" = ".toList, "Value"), (";\n\n  ".toList, "Result_out")]

theorem scanned_braid : Template.Scanned braid.code.toList braidPieces " += 1; ".toList := by
  refine @Template.Scanned.placeholder _ "float ".toList _ "Result_out".toList _ _ _
    (Template.cut?_eq_some_iff.mp rfl) (Template.cut?_eq_some_iff.mp rfl) ?_
  refine @Template.Scanned.placeholder _ " = ".toList _ "Value".toList _ _ _
    (Template.cut?_eq_some_iff.mp rfl) (Template.cut?_eq_some_iff.mp rfl) ?_
  refine @Template.Scanned.placeholder _ ";\n\n  ".toList _ "Result_out".toList _ _ _
    (Template.cut?_eq_some_iff.mp rfl) (Template.cut?_eq_some_iff.mp rfl) ?_
  exact .unopened (Template.cut?_eq_none_iff.mp rfl)

/-- The definition that `braid` holds. -/
def braided : TemplateDefinition where
  descriptor := ⟨"Braid", "Custom", "", braid.inputs, braid.outputs⟩
  segments := [.text "float ", .output 0, .text " = ", .input 0, .text ";\n\n  ", .output 0,
    .text " += 1; "]

/-- A graph of one node with a template. -/
def lone : ShaderGraph :=
  (empty "Lone").push (.ofKind 7 (.custom ⟨0, .template braided⟩))

theorem emit_template_lone :
    ∃ walk', lone.emit {} (.ofKind 7 (.custom ⟨0, .template braided⟩)) = .ok walk' ∧
      Statement.lines "  " walk'.sheet.statements =
        "  float custom_7_out0 = \x7b\x7bResult_out\x7d\x7d\n  ;\n  custom_7_out0 += 1;\n" ∧
      walk'.sheet.get? ⟨7, 0⟩ = some "custom_7_out0" := by
  have hreachable : Reachable Node.Created lone :=
    .push_ofKind (.empty _) (by decide) _
  have hnode : .ofKind 7 (.custom ⟨0, .template braided⟩) ∈ lone.nodes := List.mem_singleton_self _
  have hinputs : lone.operands ({} : Walk).sheet (.ofKind 7 (.custom ⟨0, .template braided⟩)) =
      .ok ["\x7b\x7bResult_out\x7d\x7d\n"] := rfl
  have hread : TemplateDefinition.ofRecord braid = .ok braided := by decide +kernel
  obtain ⟨walk', hemit, -, hlines, hown, -⟩ :=
    hreachable.emit_template hnode hread rfl scanned_braid hinputs
  refine ⟨walk', hemit, ?_, (hown 0 (by decide)).1⟩
  have hfilled : braid.Filled 7 ["\x7b\x7bResult_out\x7d\x7d\n"] braidPieces " += 1; ".toList
      _ :=
    .placeholder (.output (i := 0) rfl (by decide)) (.placeholder (.input (i := 0) rfl rfl)
      (.placeholder (.output (i := 0) rfl (by decide)) (.tail _)))
  rw [hlines _ _ hfilled (Text.keptLines_iff.mpr rfl) "  "]
  decide +kernel

end ShaderGraph

end RenderKit
