import RenderKit.Proofs.Shader.Composition

/-!
# Locals and names from outside

The locals of all nodes of a stage have different names, whatever families the nodes belong to.
Values from outside are called by their own names in the same namespace. A name that is not spelled
like a local is none, so whoever takes the value reads it by that name (`Hygienic`). A name that is
spelled like the local of an emitted node is captured by it: only its characters are looked at
(`captured_local`).
-/

namespace RenderKit

open RenderKit.Language

/-! ### The locals of a node -/

/-- The words in front of the locals of built-in families. -/
def localWords : List String :=
  ["math", "texture", "vector"]

/-- The names that nodes with a number may have for locals, whatever their families. -/
inductive LocalOf (node : NodeId) : String → Prop where
  | word {word : String} : word ∈ localWords → LocalOf node (localName word node)
  | output (i : Nat) : LocalOf node (outputName Template.outputWord node i)

/-- A name is spelled like the local of some node. -/
def LocalSpelling (name : String) : Prop :=
  ∃ node, LocalOf node name

private theorem underscore_not_mem_word {word : String} (h : word ∈ localWords) :
    '_' ∉ word.toList := by
  revert word
  decide

private theorem isIdentifierRest_of_mem_localWords {word : String} (h : word ∈ localWords) :
    ∀ c ∈ word.toList, Text.isIdentifierRest c = true := by
  have hall : localWords.all (fun word ↦ word.toList.all Text.isIdentifierRest) = true := by decide
  exact List.all_eq_true.mp (List.all_eq_true.mp hall word h)

/-- The local of a node is no other node's. -/
theorem LocalOf.unique {node other : NodeId} {name : String} (h : LocalOf node name)
    (h' : LocalOf other name) : node = other := by
  cases h with
  | word hw =>
    generalize he : localName _ node = name at h'
    cases h' with
    | word => exact (localName_inj (underscore_not_mem_word hw) he).2
    | output i => exact absurd he (localName_ne_outputName (underscore_not_mem_word hw) _ _ _ _)
  | output i =>
    generalize he : outputName _ node i = name at h'
    cases h' with
    | word hw =>
      exact absurd he.symm (localName_ne_outputName (underscore_not_mem_word hw) _ _ _ _)
    | output j => exact (outputName_inj he).1

/-- A local is read as a whole. -/
theorem LocalOf.base_eq {node : NodeId} {name : String} (h : LocalOf node name) :
    base name = name := by
  refine base_of_not_mem (not_mem_of_isIdentifierRest ?_ (by decide))
  cases h with
  | word hw => exact isIdentifierRest_localName node (isIdentifierRest_of_mem_localWords hw)
  | output i => exact isIdentifierRest_outputName node i (List.all_eq_true.mp (by decide))

namespace NodeKind

/-- The locals of a node: that of a built-in family, or one for each output of a template. -/
def locals (kind : NodeKind) (node : NodeId) : List String :=
  match kind with
  | .custom ⟨_, .template t⟩ =>
    (List.range t.descriptor.outputs.length).map (outputName Template.outputWord node)
  | .custom ⟨_, .native _⟩ => []
  | kind => (kind.local? node).toList

variable {kind : NodeKind} {node : NodeId} {name : String}

theorem mem_locals_of_local (h : kind.local? node = some name) : name ∈ kind.locals node := by
  cases kind <;> cases h <;> exact List.mem_singleton_self _

theorem localOf_of_mem_locals (h : name ∈ kind.locals node) : LocalOf node name := by
  cases kind with
  | math | vector | textureSample =>
    cases List.mem_singleton.mp h
    exact .word (by decide)
  | input | output => cases h
  | custom d =>
    obtain ⟨handle, f | t⟩ := d
    · cases h
    · obtain ⟨i, -, rfl⟩ := List.mem_map.mp h
      exact .output i

theorem nodup_locals (kind : NodeKind) (node : NodeId) : (kind.locals node).Nodup := by
  cases kind with
  | math | vector | textureSample => exact List.nodup_singleton _
  | input | output => exact List.nodup_nil
  | custom d =>
    obtain ⟨handle, f | t⟩ := d
    · exact List.nodup_nil
    · exact List.nodup_range.map fun i j he ↦ (outputName_inj he).2

/-- What a built-in family declares is the local of the node. -/
theorem mem_locals_of_declare {inputs : List String} {type : PinType} {term : Term}
    (h : .declare type name term ∈ kind.written node inputs) : name ∈ kind.locals node := by
  cases kind with
  | math | vector | textureSample =>
    cases List.mem_singleton.mp h
    exact List.mem_singleton_self _
  | output semantic customName =>
    simp only [written, OutputSemantic.statement, List.mem_singleton] at h
    split at h <;> cases h
  | input | custom => cases h

/-- What a built-in family exposes is the local of the node or a channel of it, or it is given from
outside. -/
theorem exposed_cases {expression : String} (h : expression ∈ kind.exposed node) :
    base expression ∈ kind.locals node ∨
      ∃ semantic customName, kind = .input semantic customName ∧
        expression = semantic.expression customName := by
  cases hl : kind.local? node with
  | some name =>
    rw [exposed_of_local hl] at h
    obtain ⟨channel, -, rfl⟩ := List.mem_map.mp h
    rw [base_point (point_not_mem_local hl)]
    exact .inl (mem_locals_of_local hl)
  | none =>
    cases kind with
    | input semantic customName => exact .inr ⟨semantic, customName, rfl, List.mem_singleton.mp h⟩
    | math | vector | textureSample => cases hl
    | output | custom => cases h

end NodeKind

/-! ### Contributions -/

namespace Contribution

/-- The locals of a contributor. -/
def locals (p : Contribution) : List String :=
  p.node.kind.locals p.node.id

/-- A contributor of a built-in family wrote and bound what the family does; one of a template wrote
lines, and bound its locals to its outputs. -/
theorem Authentic.cases {p : Contribution} (h : p.Authentic) (ht : p.node.kind.Templated)
    (hl : p.inputs.length = p.node.kind.descriptor.inputs.length) :
    (p.statements = p.node.kind.written p.node.id p.inputs ∧
      p.bindings = numbered (p.node.kind.exposed p.node.id) 0) ∨
    ((∃ d, p.node.kind = .custom d) ∧ (∃ lines : List String, p.statements = lines.map .verbatim) ∧
      p.bindings.map (·.2) = p.locals) := by
  obtain ⟨bound, -, hc⟩ := h
  cases hb : p.node.kind.isBuiltin with
  | true =>
    rcases NodeKind.snippet_eq_or_reject hb p.node.id hl with hs | ⟨name, hs⟩
    · rw [hs, Snippet.contribution?_writes_binds, Option.some.injEq, Prod.mk.injEq] at hc
      exact .inl ⟨hc.1.symm, hc.2.symm⟩
    · rw [hs] at hc
      cases hc
  | false =>
    cases hk : p.node.kind with
    | math | vector | textureSample | input | output =>
      rw [hk] at hb
      cases hb
    | custom d =>
      obtain ⟨t, hd⟩ := ht d hk
      obtain ⟨handle, definition⟩ := d
      cases hd
      rw [hk, NodeKind.snippet, Definition.snippet, TemplateDefinition.snippet, Template.snippet,
        Snippet.contribution?_writes_binds, Option.some.injEq, Prod.mk.injEq] at hc
      refine .inr ⟨⟨_, rfl⟩, ⟨_, hc.1.symm⟩, ?_⟩
      rw [← hc.2, List.map_map, locals, hk]
      rfl

end Contribution

namespace ShaderGraph

variable {g : ShaderGraph} {stage : Stage} {walk : Walk} {parts : List Contribution}

/-- The locals of all contributors differ, and are what they declare and hand on. A name from
outside that is not spelled like a local is none of them, and is what its takers get. -/
structure Hygienic (g : ShaderGraph) (parts : List Contribution) : Prop where
  distinct : (parts.flatMap (·.locals)).Nodup
  declared : ∀ p ∈ parts, ∀ type name term,
    .declare type name term ∈ p.statements → name ∈ p.locals
  exposed : ∀ p ∈ parts, ∀ b ∈ p.bindings, base b.2 ∈ p.locals ∨
    ∃ semantic name, p.node.kind = .input semantic name ∧ b.2 = semantic.expression name
  free : ∀ p ∈ parts, ∀ name, p.node.kind = .input .custom name → ¬ LocalSpelling name →
    ∀ q ∈ parts, name ∉ q.locals
  taken : ∀ p ∈ parts, ∀ name, p.node.kind = .input .custom name →
    ∀ c ∈ g.connections, c.source = p.node.id → ∀ q ∈ parts, q.node.id = c.target →
      q.inputs[c.input]? = some name

/-- Contributors have numbers of their own, and with them locals of their own. -/
theorem nodup_locals (h : (contributors parts).Nodup) : (parts.flatMap (·.locals)).Nodup := by
  rw [List.nodup_flatMap]
  refine ⟨fun p _ ↦ NodeKind.nodup_locals _ _, ?_⟩
  refine (List.pairwise_map.mp h).imp fun {p q} hne name hp hq ↦ hne ?_
  exact (NodeKind.localOf_of_mem_locals hp).unique (NodeKind.localOf_of_mem_locals hq)

section

variable (hw : WellFormed g) (hf : ∀ node ∈ g.nodes, node.Faithful)
  (ht : ∀ node ∈ g.nodes, node.kind.Templated) (h : Recorded g walk parts)
  (hn : ∀ p ∈ parts, p.node ∈ g.nodes)

include hf ht h hn

private theorem cases_of_recorded {p : Contribution} (hp : p ∈ parts) :
    (p.statements = p.node.kind.written p.node.id p.inputs ∧
      p.bindings = numbered (p.node.kind.exposed p.node.id) 0) ∨
    ((∃ d, p.node.kind = .custom d) ∧ (∃ lines : List String, p.statements = lines.map .verbatim) ∧
      p.bindings.map (·.2) = p.locals) :=
  (h.authentic p hp).cases (ht _ (hn p hp))
    ((h.supplied p hp).length.trans (hf _ (hn p hp)).length_inputs)

include hw

/-- Whoever takes a value that is called by its own name gets that name. -/
private theorem taken_of_recorded {p q : Contribution} (hp : p ∈ parts) (hq : q ∈ parts)
    {name : String} (hk : p.node.kind = .input .custom name) {c : Connection}
    (hc : c ∈ g.connections) (hs : c.source = p.node.id) (hqt : q.node.id = c.target) :
    q.inputs[c.input]? = some name := by
  have hsame : ∀ node ∈ g.nodes, node.id = c.source → node = p.node :=
    fun node hnode hid ↦ hw.eq_of_id hnode (hn p hp) (hid.trans hs)
  obtain ⟨source, hsource, hid, expression, he, hi⟩ := (h.supplied q hq).connected c hc hqt.symm
    fun node hnode hid d f hd ↦ by
      rw [hsame node hnode hid, hk] at hd
      cases hd
  have hnode := hsame _ (hn source hsource) hid
  have hb : source.bindings = [(0, name)] := by
    rcases cases_of_recorded hf ht h hn hsource with ⟨-, hb⟩ | ⟨⟨d, hd⟩, -⟩
    · rw [hb, hnode, hk]
      rfl
    · rw [hnode, hk] at hd
      cases hd
  rw [Contribution.expression?, hb, List.reverse_singleton, List.lookup_cons] at he
  split at he
  · cases he
    exact hi
  · cases he

/-- What a walk recorded is hygienic. -/
theorem hygienic_of_recorded : Hygienic g parts where
  distinct := nodup_locals h.nodup
  declared := by
    intro p hp type name term hm
    rcases cases_of_recorded hf ht h hn hp with ⟨hs, -⟩ | ⟨-, ⟨lines, hs⟩, -⟩
    · rw [hs] at hm
      exact NodeKind.mem_locals_of_declare hm
    · rw [hs] at hm
      obtain ⟨line, -, he⟩ := List.mem_map.mp hm
      cases he
  exposed := by
    intro p hp b hm
    rcases cases_of_recorded hf ht h hn hp with ⟨-, hb⟩ | ⟨-, -, hb⟩
    · rw [hb] at hm
      obtain ⟨⟨expression, i⟩, hi, rfl⟩ := List.mem_map.mp hm
      exact NodeKind.exposed_cases (List.fst_mem_of_mem_zipIdx hi)
    · have hm' : b.2 ∈ p.locals := hb ▸ List.mem_map_of_mem hm
      exact .inl ((NodeKind.localOf_of_mem_locals hm').base_eq.symm ▸ hm')
  free := fun p _ name _ hfree q _ hm ↦ hfree ⟨_, NodeKind.localOf_of_mem_locals hm⟩
  taken := fun p hp name hk c hc hs q hq hqt ↦
    taken_of_recorded hw hf ht h hn hp hq hk hc hs hqt

end

/-- Where a stage of built-in and templated nodes has source, all locals differ, a name from outside
that is not spelled like a local is none of them, and whoever takes its value reads it. -/
theorem Reachable.exists_hygienic (h : Reachable Node.Created g)
    (ht : ∀ node ∈ g.nodes, node.kind.Templated)
    (hd : ∀ node ∈ g.nodes, ∀ d, node.kind = .custom d → d.definition.Admissible)
    {layout : Layout} {text : String} (hs : g.source stage layout = .ok text) :
    ∃ walk parts, g.walk stage = .ok walk ∧ Recorded g walk parts ∧
      (∀ node, g.Needs stage node → ∃ p ∈ parts, p.node = node) ∧ Hygienic g parts := by
  have hw := (h.keeps kept_true).1
  have hf := h.faithful
  obtain ⟨statements, hb, -⟩ := bind_eq_ok_iff.mp hs
  obtain ⟨walk, hwalk, rfl⟩ := map_eq_ok_iff.mp hb
  obtain ⟨nodes, he, -⟩ := exists_emissions_of_walk hw
    (fun node hn hr ↦ not_feeds_of_isResult hw hn (hf node hn) hr) hwalk
  obtain ⟨parts, rfl, hp⟩ := (recorded_nil g).emissions hw hf hd he
  rw [List.nil_append] at hp
  have hmem : ∀ p ∈ parts, p.node ∈ g.nodes := fun p hpart ↦
    he.mem_nodes hw p.node (List.mem_map_of_mem hpart)
  refine ⟨walk, parts, hwalk, hp, fun node hneeds ↦ ?_, hygienic_of_recorded hw hf ht hp hmem⟩
  have hid := hp.mem_emitted.mp ((settled_of_walk hw hwalk).2 node hneeds)
  obtain ⟨p, hpart, hid⟩ := List.mem_map.mp hid
  exact ⟨p, hpart, hw.eq_of_id (hmem p hpart) hneeds.1 hid⟩

/-- A line and two outputs. -/
def noise : TemplateDefinition where
  descriptor :=
    { name := "Noise"
      category := "Samples"
      outputs := [⟨"Low", .float, ""⟩, ⟨"High", .float, ""⟩] }
  segments := [.text "noise();"]

theorem admissible_noise : (Definition.template noise).Admissible := by
  refine .template (r := ⟨"Noise", "Samples", "", [], noise.descriptor.outputs, "noise();"⟩)
    (d := noise) none (TemplateDefinition.ofRecord_eq_ok_iff.mpr ?_)
  refine ⟨by decide, by decide, by decide, by decide, [.text "noise();"], ?_, rfl⟩
  rw [Template.parse_of_cut?_eq_none (by decide)]
  decide

/-- The second output of a template, and a sine of a value from outside. -/
def rimmed : ShaderGraph :=
  let shared := (empty "Rimmed").push (.ofKind 1 (.custom ⟨0, .template noise⟩))
  let sine := shared.push (.ofKind 2 (.math .sin))
  let rim := sine.push (.ofKind 3 (.input .custom "rim"))
  let metallic := rim.push (.ofKind 4 (.output .metallic ""))
  let all := metallic.push (.ofKind 5 (.output .roughness ""))
  ((all.link ⟨1, 1, 4, 0⟩).link ⟨3, 0, 2, 0⟩).link ⟨2, 0, 5, 0⟩

theorem exists_hygienic_rimmed :
    ∃ walk parts, rimmed.walk .fragment = .ok walk ∧ Recorded rimmed walk parts ∧
      Hygienic rimmed parts ∧ walk.sheet.statements.map Statement.text =
        ["noise();", "output.metallic = custom_1_out1;", "float math_2 = sin(rim);",
          "output.roughness = math_2;"] := by
  have hr : Reachable Node.Created rimmed := by
    unfold rimmed
    refine .link (.link (.link (.push_ofKind (.push_ofKind (.push_ofKind (.push_ofKind
      (.push_ofKind (.empty _) ?_ _) ?_ _) ?_ _) ?_ _) ?_ _) ?_) ?_) ?_
    all_goals decide
  have hcustom : ∀ node ∈ rimmed.nodes, ∀ d, node.kind = .custom d →
      d.definition = .template noise := by
    intro node hn d hk
    have hkinds : rimmed.nodes.map (·.kind) = [.custom ⟨0, .template noise⟩, .math .sin,
      .input .custom "rim", .output .metallic "", .output .roughness ""] := rfl
    have hm : NodeKind.custom d ∈ rimmed.nodes.map (·.kind) := hk ▸ List.mem_map_of_mem hn
    rw [hkinds] at hm
    obtain rfl : d = ⟨0, .template noise⟩ := by simpa using hm
    rfl
  have htext : (rimmed.body .fragment).toOption.map (·.map Statement.text) = some
      ["noise();", "output.metallic = custom_1_out1;", "float math_2 = sin(rim);",
        "output.roughness = math_2;"] := by decide +kernel
  cases hb : rimmed.body .fragment with
  | error e => simp [hb, Except.toOption] at htext
  | ok statements =>
    have hs : rimmed.source .fragment {} =
        .ok (fragmentText rimmed.customFields statements {}) := by
      rw [source, hb]
      rfl
    obtain ⟨walk, parts, hwalk, hrecorded, -, hh⟩ := hr.exists_hygienic
      (fun node hn d hk ↦ ⟨noise, hcustom node hn d hk⟩)
      (fun node hn d hk ↦ hcustom node hn d hk ▸ admissible_noise) hs
    refine ⟨walk, parts, hwalk, hrecorded, hh, ?_⟩
    rw [body, hwalk] at hb
    cases hb
    rw [body, hwalk] at htext
    exact Option.some.inj htext

/-- A sine, a value from outside with the name of the sine's local, and a result of each. -/
def capturing : ShaderGraph :=
  let sine := (empty "Capturing").push (.ofKind 1 (.math .sin))
  let given := sine.push (.ofKind 2 (.input .custom "math_1"))
  let metallic := given.push (.ofKind 3 (.output .metallic ""))
  let all := metallic.push (.ofKind 4 (.output .roughness ""))
  (all.link ⟨1, 0, 3, 0⟩).link ⟨2, 0, 4, 0⟩

/-- A name from outside can be that of a local, and then the result takes what another node
computes. -/
theorem captured_local :
    Reachable Node.Created capturing ∧ (∀ node ∈ capturing.nodes, node.kind.isBuiltin = true) ∧
      (∃ sine given, capturing.Needs .fragment sine ∧ capturing.Needs .fragment given ∧
        given.kind = .input .custom "math_1" ∧ "math_1" ∈ sine.kind.locals sine.id) ∧
      (capturing.body .fragment).toOption.map (·.map Statement.text) = some
        ["float math_1 = sin(0.0);", "output.metallic = math_1;", "output.roughness = math_1;"] := by
  have hr : Reachable Node.Created capturing := by
    unfold capturing
    refine .link (.link (.push_ofKind (.push_ofKind (.push_ofKind (.push_ofKind
      (.empty _) ?_ _) ?_ _) ?_ _) ?_ _) ?_) ?_
    all_goals decide
  have hnodes : capturing.nodes.map (fun node ↦ (node.id, node.kind)) =
      [(1, .math .sin), (2, .input .custom "math_1"), (3, .output .metallic ""),
        (4, .output .roughness "")] := rfl
  have hnode : ∀ id kind, (id, kind) ∈ capturing.nodes.map (fun node ↦ (node.id, node.kind)) →
      ∃ node ∈ capturing.nodes, node.id = id ∧ node.kind = kind := by
    intro id kind hm
    obtain ⟨node, hn, he⟩ := List.mem_map.mp hm
    cases he
    exact ⟨node, hn, rfl, rfl⟩
  rw [hnodes] at hnode
  have hroots : capturing.roots .fragment = [3, 4] := by decide
  obtain ⟨sine, hsine, hid, hkind⟩ := hnode 1 (.math .sin) (by simp)
  obtain ⟨given, hgiven, hid', hkind'⟩ := hnode 2 (.input .custom "math_1") (by simp)
  refine ⟨hr, by decide, ⟨sine, given, ⟨hsine, 3, by simp [hroots], ?_⟩,
    ⟨hgiven, 4, by simp [hroots], ?_⟩, hkind', ?_⟩, by decide +kernel⟩
  · exact .single ⟨⟨1, 0, 3, 0⟩, by decide, rfl, hid.symm⟩
  · exact .single ⟨⟨2, 0, 4, 0⟩, by decide, rfl, hid'.symm⟩
  · rw [hkind, hid]
    decide

end ShaderGraph

end RenderKit
