import RenderKit.Proofs.Shader.Composition

/-!
# The fields of the results

The fragment's output structure declares the fields that the results are assigned to. Which fields
it declares is found by looking at all nodes, and which names can be fields is asked of a node only
when it is emitted; both agree since every result of the stage is emitted. Main statement:
`Reachable.exists_fieldsAgree` says so of the source of every graph.
-/

namespace RenderKit

/-- The node wrote and bound what its family does with these inputs, when some of its outputs may
have been bound already. -/
def Contribution.Genuine (p : Contribution) : Prop :=
  ∃ bound, (p.node.kind.snippet p.node.id p.inputs).contribution? bound =
    some (p.statements, p.bindings)

/-- The types and names of the fields of the fragment's output structure. -/
def declaredFields (custom : List String) : List (String × String) :=
  [("float3", "color"), ("float3", "normal"), ("float3", "emission"), ("float", "metallic"),
    ("float", "roughness"), ("float", "ao")] ++ custom.map ("float", ·)

/-- The source of a field that takes a value. -/
def assignment (field value : String) : String :=
  "output." ++ field ++ " = " ++ value ++ ";"

/-- The source of the fragment's output structure, with a line for each field. -/
def structureText (fields : List (String × String)) : String :=
  "struct FragmentOutput" ++ " \x7b\n"
    ++ String.join (fields.map fun field ↦ "    " ++ (field.1 ++ " " ++ field.2 ++ ";") ++ "\n")
    ++ "\x7d" ++ ";" ++ "\n\n"

/-- The source of a fragment stage: the structure of its results, a line for each field that takes a
value in front of the body, and the lines of the body. -/
def fragmentSource (layout : Layout) (fields opening : List (String × String))
    (body : List String) : String :=
  frameConstants ++ vertexStructures
    ++ ("// Fragment shader output structure\n" ++ structureText fields)
    ++ "float4 PSMain(VertexOutput input) : SV_TARGET \x7b\n"
    ++ layout.indent ++ "FragmentOutput output;\n"
    ++ String.join (opening.map fun entry ↦ layout.indent ++ assignment entry.1 entry.2 ++ "\n")
    ++ "\n"
    ++ String.join (body.map fun line ↦ layout.indent ++ line ++ "\n")
    ++ layout.indent ++ "return float4(output.color, 1.0);\n\x7d\n"

/-! ### Fields of results -/

theorem names_declaredFields (custom : List String) :
    (declaredFields custom).map (·.2) = OutputSemantic.builtinFields ++ custom := by
  simp [declaredFields, OutputSemantic.builtinFields, Function.comp_def]

/-- A statement that gives a field a value, as it is written. -/
theorem Statement.text_assign (field value : String) :
    (assign field value).text = assignment field value := by
  have hmark : "output" ++ "." = "output." := by decide
  rw [text, fieldText, resultsName, hmark, assignment]

/-- A result that is not refused is one statement, and its own name can be a field. -/
theorem OutputSemantic.of_contribution? {semantic : OutputSemantic} {name : String}
    {operands : List String} {bound : Nat → Bool} {statements : List Statement}
    {bindings : List (Nat × String)}
    (h : (semantic.snippet name operands).contribution? bound = some (statements, bindings)) :
    statements = [semantic.statement name (operands.head?.getD "")] ∧
      (semantic = .custom → isCustomField name = true) := by
  unfold snippet at h
  split at h
  · cases h
  · next hc =>
    cases h
    exact ⟨rfl, by simpa using hc⟩

/-- The field of a result of the fragment stage is one that there always is, or its own name. -/
theorem OutputSemantic.exists_field {semantic : OutputSemantic} (name : String)
    (h : semantic.stage = .fragment) :
    ∃ field, semantic.field? name = some field ∧
      (field ∈ builtinFields ∨ semantic = .custom ∧ field = name) := by
  cases semantic with
  | positionOffset => cases h
  | custom => exact ⟨name, rfl, .inr ⟨rfl, rfl⟩⟩
  | color | normal | emission | metallic | roughness | ambientOcclusion =>
    exact ⟨_, rfl, .inl (by decide)⟩

/-- The nodes that add a field are results of the fragment stage. -/
theorem NodeKind.customField?_eq_some_iff {kind : NodeKind} {name : String} :
    kind.customField? = some name ↔ kind = .output .custom name := by
  cases kind with
  | output semantic given => cases semantic <;> simp [customField?]
  | math | textureSample | vector | input | custom => simp [customField?]

namespace ShaderGraph

variable {g : ShaderGraph} {walk walk' : Walk} {custom : List String} {parts : List Contribution}

/-- The fields of the fragment's output structure are the six that there always are and those that
nodes add. In front of the body each of them takes a value once (`opened`, `initial`), and every
result of the stage is one line that gives a value to one of them (`results`, `targets`). -/
structure FieldsAgree (g : ShaderGraph) (custom : List String) (opening : List (String × String))
    (parts : List Contribution) : Prop where
  declared : FirstOccurrences (g.nodes.filterMap (·.kind.customField?)) custom
  names : (declaredFields custom).map (·.2) = OutputSemantic.builtinFields ++ custom
  distinct : (OutputSemantic.builtinFields ++ custom).Nodup
  identifiers : ∀ field ∈ OutputSemantic.builtinFields ++ custom, Text.isIdentifier field = true
  opened : opening.map (·.1) = OutputSemantic.builtinFields ++ custom
  initial : ∀ field ∈ custom, opening.filter (·.1 == field) = [(field, "0.0")]
  genuine : ∀ p ∈ parts, p.Genuine
  results : (parts.map (·.node)).filter isResult =
    g.nodes.filter (·.kind.outputStage? == some .fragment)
  targets : ∀ p ∈ parts, ∀ semantic name, p.node.kind = .output semantic name →
    ∃ field ∈ OutputSemantic.builtinFields ++ custom, ∃ value,
      semantic.field? name = some field ∧ p.statements.map (·.text) = [assignment field value]

/-! ### What nodes write -/

/-- Nodes that are emitted write what their families do. -/
theorem Emissions.exists_genuine {nodes : List Node} (h : Emissions g walk nodes walk') :
    ∃ parts : List Contribution, parts.map (·.node) = nodes ∧ (∀ p ∈ parts, p.Genuine) ∧
      walk'.sheet.statements = walk.sheet.statements ++ parts.flatMap (·.statements) := by
  induction h with
  | nil => exact ⟨[], rfl, by simp, by simp⟩
  | @cons _ _ _ node _ he _ ih =>
    obtain ⟨inputs, sheet, -, hrun, -, rfl⟩ := emit_eq_ok_iff.mp he.emit
    obtain ⟨statements, bindings, hc, hs, -⟩ := Snippet.exists_contribution_of_run hrun
    obtain ⟨parts, rfl, hgenuine, hrest⟩ := ih
    refine ⟨⟨node, inputs, statements, bindings⟩ :: parts, rfl, ?_, ?_⟩
    · exact List.forall_mem_cons.mpr ⟨⟨_, hc⟩, hgenuine⟩
    · rw [hrest, hs, List.append_assoc, List.flatMap_cons]

/-! ### The opening -/

/-- What the fields start from, with those that nodes add. -/
def openingFields (custom : List String) : List (String × String) :=
  [("color", "float3(0, 0, 0)"), ("normal", "input.normal"), ("emission", "float3(0, 0, 0)"),
    ("metallic", "0.0"), ("roughness", "0.5"), ("ao", "1.0")] ++ custom.map (·, "0.0")

theorem names_openingFields (custom : List String) :
    (openingFields custom).map (·.1) = OutputSemantic.builtinFields ++ custom := by
  simp [openingFields, OutputSemantic.builtinFields, Function.comp_def]

/-- A field of its own is set once. -/
theorem filter_openingFields (hd : (OutputSemantic.builtinFields ++ custom).Nodup)
    {field : String} (hf : field ∈ custom) :
    (openingFields custom).filter (·.1 == field) = [(field, "0.0")] := by
  obtain ⟨-, hcustom, hapart⟩ := List.nodup_append.mp hd
  have hnames : ((openingFields []).map (·.1)) = OutputSemantic.builtinFields := by
    rw [names_openingFields, List.append_nil]
  have hbuiltin : (openingFields []).filter (·.1 == field) = [] := by
    refine List.filter_eq_nil_iff.mpr fun entry hm he ↦ ?_
    exact hapart entry.1 (hnames ▸ List.mem_map_of_mem hm) field hf (beq_iff_eq.mp he)
  have hown : custom.filter (· == field) = [field] := by
    simp [List.filter_beq, List.count_eq_one_of_mem hcustom hf]
  have hsplit : openingFields custom = openingFields [] ++ custom.map (·, "0.0") := rfl
  rw [hsplit, List.filter_append, hbuiltin, List.nil_append, List.filter_map]
  exact congrArg (List.map (·, "0.0")) hown

/-! ### The source -/

/-- A structure of fields is a block with a line for each. -/
private theorem block_eq (fields : List (String × String)) :
    block "struct FragmentOutput" (fields.map fun field ↦ field.1 ++ " " ++ field.2 ++ ";") ";" =
      structureText fields := by
  unfold block structureText
  simp only [Statement.lines, List.map_map, Function.comp_def, Statement.text]

theorem fragmentStructure_eq (custom : List String) :
    fragmentStructure custom =
      "// Fragment shader output structure\n" ++ structureText (declaredFields custom) := by
  have hmembers : (declaredFields custom).map (fun field ↦ field.1 ++ " " ++ field.2 ++ ";") =
      ["float3 color;", "float3 normal;", "float3 emission;", "float metallic;",
        "float roughness;", "float ao;"] ++ custom.map fun field ↦ "float " ++ field ++ ";" := by
    simp [declaredFields, Function.comp_def]
  rw [← block_eq, hmembers]
  rfl

theorem fragmentText_eq (custom : List String) (body : List Statement) (layout : Layout) :
    fragmentText custom body layout =
      fragmentSource layout (declaredFields custom) (openingFields custom)
        (body.map (·.text)) := by
  have hopening : initialResults ++ custom.map (.assign · "0.0") =
      (openingFields custom).map fun entry ↦ .assign entry.1 entry.2 := by
    rw [openingFields, List.map_append, List.map_map]
    rfl
  rw [fragmentText, fragmentSource, fragmentStructure_eq, List.cons_append, hopening]
  simp only [Statement.lines, List.map_cons, List.map_append, List.map_map, Function.comp_def,
    Statement.text_assign]
  simp [Statement.text, String.append_assoc]

/-! ### Agreement -/

theorem mem_customFields {name : String} :
    name ∈ g.customFields ↔ ∃ node ∈ g.nodes, node.kind = .output .custom name := by
  simp [customFields, List.mem_eraseDups, NodeKind.customField?_eq_some_iff]

section

variable (hg : ∀ p ∈ parts, p.Genuine)
  (hr : (parts.map (·.node)).filter isResult =
    g.nodes.filter (·.kind.outputStage? == some .fragment))

include hr

/-- Results are emitted, all those of the stage and no others. -/
theorem exists_part_iff {semantic : OutputSemantic} {name : String} {node : Node}
    (hk : node.kind = .output semantic name) :
    (∃ p ∈ parts, p.node = node) ↔ node ∈ g.nodes ∧ semantic.stage = .fragment := by
  have hresult : isResult node = true := by rw [isResult, hk]; rfl
  have hstage : node.kind.outputStage? = some semantic.stage := by rw [hk]; rfl
  have hm : node ∈ (parts.map (·.node)).filter isResult ↔
      node ∈ g.nodes.filter (·.kind.outputStage? == some .fragment) := by rw [hr]
  simpa [hresult, hstage] using hm

include hg

/-- The name of every field of a node's own was looked at, since the node was emitted. -/
theorem isCustomField_of_mem_customFields {name : String} (h : name ∈ g.customFields) :
    OutputSemantic.isCustomField name = true := by
  obtain ⟨node, hn, hk⟩ := mem_customFields.mp h
  obtain ⟨p, hp, rfl⟩ := (exists_part_iff hr hk).mpr ⟨hn, rfl⟩
  obtain ⟨bound, hc⟩ := hg p hp
  rw [hk] at hc
  exact (OutputSemantic.of_contribution? hc).2 rfl

theorem nodup_fields : (OutputSemantic.builtinFields ++ g.customFields).Nodup := by
  refine List.nodup_append.mpr ⟨by decide, (FirstOccurrences.eraseDups _).nodup, ?_⟩
  rintro builtin hb name hname rfl
  have hfree := isCustomField_of_mem_customFields hg hr hname
  simp [OutputSemantic.isCustomField, hb] at hfree

theorem isIdentifier_of_mem_fields {field : String}
    (h : field ∈ OutputSemantic.builtinFields ++ g.customFields) :
    Text.isIdentifier field = true := by
  rcases List.mem_append.mp h with hb | hc
  · have hall : OutputSemantic.builtinFields.all Text.isIdentifier = true := by decide
    exact List.all_eq_true.mp hall field hb
  · have hfree := isCustomField_of_mem_customFields hg hr hc
    rw [OutputSemantic.isCustomField, Bool.and_eq_true] at hfree
    exact hfree.1

theorem exists_target {p : Contribution} (hp : p ∈ parts) {semantic : OutputSemantic}
    {name : String} (hk : p.node.kind = .output semantic name) :
    ∃ field ∈ OutputSemantic.builtinFields ++ g.customFields, ∃ value,
      semantic.field? name = some field ∧ p.statements.map (·.text) = [assignment field value] := by
  obtain ⟨hn, hstage⟩ := (exists_part_iff hr hk).mp ⟨p, hp, rfl⟩
  obtain ⟨bound, hc⟩ := hg p hp
  rw [hk] at hc
  obtain ⟨field, hf, hfield⟩ := OutputSemantic.exists_field name hstage
  refine ⟨field, List.mem_append.mpr (hfield.imp_right ?_), p.inputs.head?.getD "", hf, ?_⟩
  · rintro ⟨rfl, rfl⟩
    exact mem_customFields.mpr ⟨p.node, hn, hk⟩
  · rw [(OutputSemantic.of_contribution? hc).1, OutputSemantic.statement, hf]
    exact congrArg ([·]) (Statement.text_assign _ _)

theorem fieldsAgree : FieldsAgree g g.customFields (openingFields g.customFields) parts where
  declared := .eraseDups _
  names := names_declaredFields _
  distinct := nodup_fields hg hr
  identifiers := fun _ ↦ isIdentifier_of_mem_fields hg hr
  opened := names_openingFields _
  initial := fun _ ↦ filter_openingFields (nodup_fields hg hr)
  genuine := hg
  results := hr
  targets := fun _ hp _ _ ↦ exists_target hg hr hp

end

/-- Where the fragment stage has source, it declares the six fields that it always has and those
that results have of their own, in the order in which their names occur first; all of them differ
and can be names. Each takes a value once in front of the body, and each result in the body is
assigned to one of them. -/
theorem Reachable.exists_fieldsAgree (h : Reachable Node.Created g) {layout : Layout}
    {text : String} (hs : g.source .fragment layout = .ok text) :
    ∃ custom opening parts,
      text = fragmentSource layout (declaredFields custom) opening
        ((parts.flatMap (·.statements)).map (·.text)) ∧
        FieldsAgree g custom opening parts := by
  have hw := (h.keeps kept_true).1
  have hf := h.faithful
  obtain ⟨statements, hb, hmade⟩ := bind_eq_ok_iff.mp hs
  cases hmade
  obtain ⟨walk, hwalk, rfl⟩ := map_eq_ok_iff.mp hb
  obtain ⟨nodes, he, hresults⟩ := exists_emissions_of_walk hw
    (fun node hn hr ↦ not_feeds_of_isResult hw hn (hf node hn) hr) hwalk
  obtain ⟨parts, rfl, hgenuine, hstatements⟩ := he.exists_genuine
  refine ⟨g.customFields, openingFields g.customFields, parts, ?_,
    fieldsAgree hgenuine hresults⟩
  rw [hstatements]
  exact fragmentText_eq _ _ _

/-- Three results with names of their own, two of them with the same, and a colour twice. -/
def layered : ShaderGraph :=
  let rim := (empty "Layered").push (.ofKind 1 (.output .custom "rim"))
  let color := rim.push (.ofKind 2 (.output .color ""))
  let glow := color.push (.ofKind 3 (.output .custom "glow"))
  let again := glow.push (.ofKind 4 (.output .custom "rim"))
  again.push (.ofKind 5 (.output .color ""))

theorem exists_fieldsAgree_layered :
    ∃ text opening parts,
      layered.source .fragment {} = .ok text ∧
        text = fragmentSource {} (declaredFields ["rim", "glow"]) opening
          ((parts.flatMap (·.statements)).map (·.text)) ∧
          FieldsAgree layered ["rim", "glow"] opening parts := by
  have hr : Reachable Node.Created layered := by
    unfold layered
    refine .push_ofKind (.push_ofKind (.push_ofKind (.push_ofKind (.push_ofKind (.empty _)
      ?_ _) ?_ _) ?_ _) ?_ _) ?_ _
    all_goals decide
  have hsome : (layered.body .fragment).toOption.isSome = true := by decide +kernel
  cases hb : layered.body .fragment with
  | error e => simp [hb, Except.toOption] at hsome
  | ok statements =>
    have hs : layered.source .fragment {} =
        .ok (fragmentText layered.customFields statements {}) := by
      rw [source, hb]
      rfl
    obtain ⟨custom, opening, parts, htext, hagree⟩ := hr.exists_fieldsAgree hs
    obtain rfl : custom = ["rim", "glow"] := hagree.declared.unique (.eraseDups _)
    exact ⟨_, opening, parts, hs, htext, hagree⟩

end ShaderGraph

end RenderKit
