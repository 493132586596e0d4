import RenderKit.Proofs.Shader.Matching
import RenderKit.Proofs.Shader.Pattern

/-!
# Graphs under other numbers

Source depends on the numbers of nodes through the names of locals only. Snippets of one node under
two numbers are of one pattern (`NodeKind.patterned_snippet`), and run on sheets of one pattern to
such sheets, since outputs within the stride are apart under both numbers. So graphs of built-in and
templated nodes that differ in their numbers have sources of one pattern, or are refused for the
same reason about corresponding nodes (`Reachable.source_renumbered`).
-/

namespace RenderKit

variable {ids : List NodeId} {φ : NodeId → NodeId}

/-! ### Statements of one pattern -/

/-- Two statements whose texts are instances of one pattern. -/
def Statement.Patterned (ids : List NodeId) (φ : NodeId → NodeId) (s s' : Statement) : Prop :=
  SamePattern ids φ s.text s'.text

namespace Statement.Patterned

variable {name name' value value' : String} {term term' : Term}

theorem refl (s : Statement) : s.Patterned ids φ s :=
  SamePattern.refl s.text

theorem declare (type : PinType) (hn : SamePattern ids φ name name')
    (ht : SamePattern ids φ term.text term'.text) :
    Statement.Patterned ids φ (.declare type name term) (.declare type name' term') :=
  ((((SamePattern.refl _).append hn).append (.refl _)).append ht).append (.refl _)

theorem assign (field : String) (h : SamePattern ids φ value value') :
    Statement.Patterned ids φ (.assign field value) (.assign field value') :=
  ((SamePattern.refl _).append h).append (.refl _)

theorem offset (h : SamePattern ids φ value value') :
    Statement.Patterned ids φ (.offset value) (.offset value') :=
  ((SamePattern.refl _).append h).append (.refl _)

/-- Statements behind an indent. -/
theorem lines (indent : String) {statements statements' : List Statement}
    (h : List.Forall₂ (Statement.Patterned ids φ) statements statements') :
    SamePattern ids φ (Statement.lines indent statements) (Statement.lines indent statements') := by
  apply SamePattern.join
  rw [List.forall₂_map_left_iff, List.forall₂_map_right_iff]
  exact h.imp fun _ _ hs ↦ ((SamePattern.refl _).append hs).append (.refl _)

end Statement.Patterned

/-! ### Sheets of one pattern -/

/-- Two sheets whose statements are of one pattern, and where the outputs of corresponding nodes
have expressions of one pattern. -/
structure Sheet.Patterned (ids : List NodeId) (φ : NodeId → NodeId) (sheet sheet' : Sheet) :
    Prop where
  statements : List.Forall₂ (Statement.Patterned ids φ) sheet.statements sheet'.statements
  bound : ∀ node ∈ ids, ∀ output < OutputKey.stride,
    Option.Rel (SamePattern ids φ) (sheet.get? ⟨node, output⟩) (sheet'.get? ⟨φ node, output⟩)

namespace Sheet.Patterned

variable {sheet sheet' : Sheet}

theorem empty : Sheet.Patterned ids φ {} {} :=
  ⟨.nil, fun _ _ _ _ ↦ .none⟩

theorem write (h : Sheet.Patterned ids φ sheet sheet') {s s' : Statement}
    (hs : s.Patterned ids φ s') : Sheet.Patterned ids φ (sheet.write s) (sheet'.write s') :=
  ⟨List.rel_append h.statements (.cons hs .nil), h.bound⟩

/-- Corresponding outputs are bound, and no others. -/
theorem bind (h : Sheet.Patterned ids φ sheet sheet')
    (hφ : ∀ a ∈ ids, ∀ b ∈ ids, φ a = φ b → a = b) {node : NodeId} (hnode : node ∈ ids)
    {output : Nat} (ho : output < OutputKey.stride) {expression expression' : String}
    (he : SamePattern ids φ expression expression') :
    Sheet.Patterned ids φ (sheet.bind ⟨node, output⟩ expression)
      (sheet'.bind ⟨φ node, output⟩ expression') := by
  refine ⟨h.statements, fun other hother i hi ↦ ?_⟩
  -- Outputs within the stride share a number only if they are the same, under both numberings.
  have hsame : (OutputKey.mk (φ node) output).value = (OutputKey.mk (φ other) i).value ↔
      (OutputKey.mk node output).value = (OutputKey.mk other i).value := by
    constructor
    · intro hv
      have hk := OutputKey.value_inj ho hi hv
      rw [OutputKey.mk.injEq] at hk
      rw [hφ node hnode other hother hk.1, hk.2]
    · intro hv
      have hk := OutputKey.value_inj ho hi hv
      rw [OutputKey.mk.injEq] at hk
      rw [hk.1, hk.2]
  rw [get?_bind, get?_bind]
  by_cases hv : (OutputKey.mk node output).value = (OutputKey.mk other i).value
  · rw [if_pos hv, if_pos (hsame.mpr hv)]
    exact .some he
  · rw [if_neg hv, if_neg (hsame.not.mpr hv)]
    exact h.bound other hother i hi

end Sheet.Patterned

/-! ### Snippets of one pattern -/

/-- Two snippets that write and bind texts of one pattern, to outputs within the stride, and do not
ask what is bound. -/
inductive Snippet.Patterned (ids : List NodeId) (φ : NodeId → NodeId) : Snippet → Snippet → Prop
  | done : Patterned ids φ .done .done
  | reject (name : String) : Patterned ids φ (.reject name) (.reject name)
  | write {s s' : Statement} {next next' : Snippet} :
      s.Patterned ids φ s' → Patterned ids φ next next' →
        Patterned ids φ (.write s next) (.write s' next')
  | bind {output : Nat} {expression expression' : String} {next next' : Snippet} :
      output < OutputKey.stride → SamePattern ids φ expression expression' →
        Patterned ids φ next next' →
          Patterned ids φ (.bind output expression next) (.bind output expression' next')

namespace Snippet.Patterned

variable {snippet snippet' : Snippet}

theorem writes {statements statements' : List Statement}
    (hs : List.Forall₂ (Statement.Patterned ids φ) statements statements')
    (h : Patterned ids φ snippet snippet') :
    Patterned ids φ (.writes statements snippet) (.writes statements' snippet') := by
  induction hs with
  | nil => exact h
  | cons hs _ ih => exact .write hs ih

/-- The same outputs, bound to expressions of one pattern. -/
theorem binds {α : Type} {items : List α} {output : α → Nat} {f f' : α → String}
    (ho : ∀ item ∈ items, output item < OutputKey.stride)
    (hf : ∀ item ∈ items, SamePattern ids φ (f item) (f' item))
    (h : Patterned ids φ snippet snippet') :
    Patterned ids φ (.binds (items.map fun item ↦ (output item, f item)) snippet)
      (.binds (items.map fun item ↦ (output item, f' item)) snippet') := by
  induction items with
  | nil => exact h
  | cons item items ih =>
    rw [List.forall_mem_cons] at ho hf
    exact .bind ho.1 hf.1 (ih ho.2 hf.2)

/-- Snippets of one pattern take sheets of one pattern to such, or are refused alike. -/
theorem run (h : Patterned ids φ snippet snippet')
    (hφ : ∀ a ∈ ids, ∀ b ∈ ids, φ a = φ b → a = b) {node : NodeId} (hnode : node ∈ ids)
    {sheet sheet' : Sheet} (hs : Sheet.Patterned ids φ sheet sheet') :
    (snippet'.run (φ node) sheet').2 = (snippet.run node sheet).2.map (.renumber φ) ∧
      Sheet.Patterned ids φ (snippet.run node sheet).1 (snippet'.run (φ node) sheet').1 := by
  induction h generalizing sheet sheet' with
  | done => exact ⟨rfl, hs⟩
  | reject name => exact ⟨rfl, hs⟩
  | write hw _ ih => exact ih (hs.write hw)
  | bind ho he _ ih => exact ih (hs.bind hφ hnode ho he)

end Snippet.Patterned

/-! ### Families -/

section

variable {node : NodeId} {inputs inputs' : List String}

/-- The operands at a place, or no text. -/
private theorem patterned_getD (h : List.Forall₂ (SamePattern ids φ) inputs inputs') (i : Nat) :
    SamePattern ids φ (inputs[i]?.getD "") (inputs'[i]?.getD "") := by
  induction h generalizing i with
  | nil => exact .refl _
  | cons hs _ ih =>
    cases i with
    | zero => exact hs
    | succ i => exact ih i

private theorem patterned_call (function : String)
    (h : List.Forall₂ (SamePattern ids φ) inputs inputs') :
    SamePattern ids φ (Term.call function inputs).text (Term.call function inputs').text :=
  ((SamePattern.refl _).append (.intercalate _ h)).append (.refl _)

private theorem patterned_term (op : MathOperation)
    (h : List.Forall₂ (SamePattern ids φ) inputs inputs') :
    SamePattern ids φ (op.term inputs).text (op.term inputs').text := by
  have hfirst := patterned_getD h 0
  have hsecond := patterned_getD h 1
  rw [MathOperation.term, MathOperation.term]
  cases op.form with
  | between mark =>
    exact (((hfirst.append (.refl _)).append (.refl _)).append (.refl _)).append hsecond
  | unary function => exact patterned_call function (.cons hfirst .nil)
  | binary function => exact patterned_call function (.cons hfirst (.cons hsecond .nil))

private theorem patterned_sample {texture texture' coordinate coordinate' : String}
    (ht : SamePattern ids φ texture texture') (hc : SamePattern ids φ coordinate coordinate') :
    SamePattern ids φ (Term.sample texture coordinate).text
      (Term.sample texture' coordinate').text :=
  ((((ht.append (.refl _)).append ht).append (.refl _)).append hc).append (.refl _)

private theorem patterned_expand (hnode : node ∈ ids)
    (h : List.Forall₂ (SamePattern ids φ) inputs inputs') (segments : List Segment) :
    SamePattern ids φ (Template.expand node inputs segments)
      (Template.expand (φ node) inputs' segments) := by
  apply SamePattern.join
  rw [List.forall₂_map_left_iff, List.forall₂_map_right_iff, List.forall₂_same]
  intro segment _
  cases segment with
  | text s => exact .refl s
  | input i => exact patterned_getD h i
  | output i => exact .outputName hnode i

private theorem patterned_template (hnode : node ∈ ids)
    (h : List.Forall₂ (SamePattern ids φ) inputs inputs') (segments : List Segment) {outputs : Nat}
    (ho : outputs < OutputKey.stride) :
    Snippet.Patterned ids φ (Template.snippet segments outputs node inputs)
      (Template.snippet segments outputs (φ node) inputs') := by
  refine .writes ?_ (.binds (fun i hi ↦ ?_) (fun i _ ↦ .outputName hnode i) .done)
  · rw [List.forall₂_map_left_iff, List.forall₂_map_right_iff]
    exact (patterned_expand hnode h segments).trimmedLines
  · exact Nat.lt_trans (List.mem_range.mp hi) ho

/-- Built-in and templated nodes write and bind texts of one pattern under both numbers. -/
theorem NodeKind.patterned_snippet {kind : NodeKind} (ht : kind.Templated)
    (hd : ∀ d, kind = .custom d → d.definition.Admissible) (hnode : node ∈ ids)
    (h : List.Forall₂ (SamePattern ids φ) inputs inputs') :
    Snippet.Patterned ids φ (kind.snippet node inputs) (kind.snippet (φ node) inputs') := by
  have hlocal : ∀ word ∈ allWords,
      SamePattern ids φ (localName word node) (localName word (φ node)) :=
    fun word hword ↦ .localName hword hnode
  cases kind with
  | math op =>
    have hresult := hlocal "math" (by decide)
    exact .write (.declare _ hresult (patterned_term op h)) (.bind (by decide) hresult .done)
  | textureSample texture =>
    have hresult := hlocal "texture" (by decide)
    cases h with
    | nil => exact .done
    | cons htexture htail =>
      cases htail with
      | nil => exact .done
      | cons hcoordinate _ =>
        refine .write (.declare _ hresult (patterned_sample htexture hcoordinate)) ?_
        have hstride : ∀ channel ∈ TextureSample.channels.zipIdx, channel.2 < OutputKey.stride := by
          decide
        exact .binds hstride (fun _ _ ↦ hresult.append (.refl _)) .done
  | vector arity =>
    have hresult := hlocal "vector" (by decide)
    exact .write (.declare _ hresult (patterned_call _ h)) (.bind (by decide) hresult .done)
  | input semantic customName =>
    rw [snippet, snippet, InputSemantic.snippet]
    split
    · exact .reject customName
    · exact .bind (by decide) (.refl _) .done
  | output semantic customName =>
    rw [snippet, snippet, OutputSemantic.snippet, OutputSemantic.snippet]
    split
    · exact .reject customName
    · refine .write ?_ .done
      have hvalue : SamePattern ids φ (inputs.head?.getD "") (inputs'.head?.getD "") := by
        rw [List.head?_eq_getElem?, List.head?_eq_getElem?]
        exact patterned_getD h 0
      rw [OutputSemantic.statement, OutputSemantic.statement]
      cases semantic.field? customName with
      | some field => exact .assign field hvalue
      | none => exact .offset hvalue
  | custom d =>
    obtain ⟨t, hdefinition⟩ := ht d rfl
    have hadmissible := hd d rfl
    rw [hdefinition] at hadmissible
    rw [snippet, snippet, hdefinition]
    exact patterned_template hnode h t.segments hadmissible.length_outputs_lt

end

/-! ### Graphs -/

namespace ShaderGraph

variable {g copy : ShaderGraph}

/-- The same nodes in the same order under other numbers, but for titles, places and marks, and the
same connections between them. -/
structure Renumbered (φ : NodeId → NodeId) (g copy : ShaderGraph) : Prop where
  injective : ∀ a ∈ g.ids, ∀ b ∈ g.ids, φ a = φ b → a = b
  nodes : List.Forall₂ (Node.Matches φ) g.nodes copy.nodes
  connections : copy.connections = g.connections.map (Connection.renumber φ)

/-- A graph that is loaded from a document has the nodes of the saved one under other numbers. -/
theorem CopiedTo.renumbered (h : g.CopiedTo φ copy) : Renumbered φ g copy :=
  ⟨h.injective, h.nodes.imp fun _ _ hn ↦ hn.matches, h.connections⟩

/-- Corresponding inputs are fed by corresponding outputs. -/
theorem Renumbered.matches (h : Renumbered φ g copy) (hw : WellFormed g) : Matches φ g copy where
  injective := h.injective
  nodes := h.nodes
  fed := by
    intro target htarget input
    have hfeeds : ∀ c ∈ g.connections,
        (c.renumber φ).feeds (φ target) input = c.feeds target input := by
      intro c hc
      have htargets : φ c.target = φ target ↔ c.target = target :=
        ⟨h.injective _ ((hw.joined c hc).mem_ids hw).2 _ htarget, congrArg φ⟩
      rw [Bool.eq_iff_iff]
      simp only [Connection.feeds, Connection.renumber, Bool.and_eq_true, beq_iff_eq, htargets]
    have hfind : g.connections.find? ((·.feeds (φ target) input) ∘ Connection.renumber φ) =
        g.connections.find? (·.feeds target input) := List.find?_congr hfeeds
    rw [source?, feed?, h.connections, List.find?_map, hfind, source?, feed?, Option.map_map,
      Option.map_map]
    rfl

/-- The graph with other numbers for its nodes. -/
def renumber (φ : NodeId → NodeId) (g : ShaderGraph) : ShaderGraph :=
  let nodes := g.nodes.map fun node ↦ { node with id := φ node.id }
  { g with
    nodes := nodes
    index := slotsById nodes
    connections := g.connections.map (Connection.renumber φ) }

theorem ids_renumber (φ : NodeId → NodeId) (g : ShaderGraph) :
    (g.renumber φ).ids = g.ids.map φ := by
  rw [ids, ids, renumber, List.map_map, List.map_map]
  rfl

/-- Any numbers will do that keep different nodes apart. -/
theorem renumbered_renumber (hφ : ∀ a ∈ g.ids, ∀ b ∈ g.ids, φ a = φ b → a = b) :
    Renumbered φ g (g.renumber φ) where
  injective := hφ
  nodes := List.forall₂_map_right_iff.mpr (List.forall₂_same.mpr fun _ _ ↦ ⟨rfl, rfl, rfl, rfl⟩)
  connections := rfl

theorem WellFormed.renumber (hw : WellFormed g)
    (hφ : ∀ a ∈ g.ids, ∀ b ∈ g.ids, φ a = φ b → a = b) : WellFormed (g.renumber φ) := by
  have hnodup : (g.renumber φ).ids.Nodup := by
    rw [ids_renumber]
    exact List.Nodup.map_on (fun a ha b hb ↦ hφ a ha b hb) hw.nodup
  have hindexed : Indexes (g.renumber φ).ids ((g.renumber φ).index[·]?) := indexes_slotsById hnodup
  have hfound : ∀ {id node}, g.node? id = some node →
      (g.renumber φ).node? (φ id) = some { node with id := φ node.id } := by
    intro id node hid
    obtain ⟨hn, rfl⟩ := hw.node?_eq_some_iff.mp hid
    rw [ShaderGraph.node?_eq_some_iff hindexed]
    exact ⟨List.mem_map.mpr ⟨node, hn, rfl⟩, rfl⟩
  refine ⟨hnodup, hindexed, fun _ hc' ↦ ?_, ?_⟩
  · obtain ⟨c, hc, rfl⟩ := List.mem_map.mp hc'
    have hends := (hw.joined c hc).mem_ids hw
    obtain ⟨hne, ⟨source, hs, ho⟩, ⟨target, ht, hi⟩⟩ := hw.joined c hc
    exact ⟨fun he ↦ hne (hφ _ hends.1 _ hends.2 he), ⟨_, hfound hs, ho⟩, ⟨_, hfound ht, hi⟩⟩
  · have hinputs : (g.renumber φ).connections.map (fun c ↦ (c.target, c.input)) =
        (g.connections.map fun c ↦ (c.target, c.input)).map (Prod.map φ id) := by
      rw [ShaderGraph.renumber, List.map_map, List.map_map]
      rfl
    rw [hinputs]
    refine List.Nodup.map_on ?_ hw.single
    intro x hx y hy he
    obtain ⟨c, hc, rfl⟩ := List.mem_map.mp hx
    obtain ⟨d, hd, rfl⟩ := List.mem_map.mp hy
    obtain ⟨htarget, hinput⟩ := Prod.mk.inj he
    have hends := ((hw.joined c hc).mem_ids hw).2
    exact Prod.ext (hφ _ hends _ ((hw.joined d hd).mem_ids hw).2 htarget) hinput

/-! ### Source -/

/-- Sheets of one pattern are kept by snippets. -/
private theorem tracks_patterned (hφ : ∀ a ∈ g.ids, ∀ b ∈ g.ids, φ a = φ b → a = b)
    (hf : ∀ node ∈ g.nodes, node.Faithful) (ht : ∀ node ∈ g.nodes, node.kind.Templated)
    (hd : ∀ node ∈ g.nodes, ∀ d, node.kind = .custom d → d.definition.Admissible) :
    Tracks φ (SamePattern g.ids φ) (Sheet.Patterned g.ids φ) g where
  refl := SamePattern.refl
  start := .empty
  bound := by
    intro sheet sheet' hs node hn output ho
    exact hs.bound node.id (List.mem_map_of_mem hn) output
      ((hf node hn).lt_stride (ht node hn) (hd node hn) ho)
  run := by
    intro sheet sheet' hs node hn inputs inputs' hinputs
    have hid : node.id ∈ g.ids := List.mem_map_of_mem hn
    exact (NodeKind.patterned_snippet (ht node hn) (hd node hn) hid hinputs).run hφ hid hs

section

variable {body body' : List Statement}
  (h : List.Forall₂ (Statement.Patterned ids φ) body body')

include h

private theorem patterned_fragmentText (fields : List String) (layout : Layout) :
    SamePattern ids φ (fragmentText fields body layout) (fragmentText fields body' layout) := by
  have hlines := Statement.Patterned.lines layout.indent
    (List.rel_append h (.cons (.refl (.verbatim "return float4(output.color, 1.0);")) .nil))
  exact ((SamePattern.refl _).append hlines).append (.refl _)

private theorem patterned_vertexText (layout : Layout) :
    SamePattern ids φ (vertexText body layout) (vertexText body' layout) := by
  have hrefl : ∀ statements : List Statement,
      List.Forall₂ (Statement.Patterned ids φ) statements statements :=
    fun _ ↦ List.forall₂_same.mpr fun s _ ↦ .refl s
  refine ((SamePattern.refl _).append (Statement.Patterned.lines layout.indent ?_)).append (.refl _)
  exact List.rel_append (List.rel_append (List.rel_append (hrefl _) h) (hrefl _)) (hrefl _)

end

section

variable (h : Reachable Node.Created g) (ht : ∀ node ∈ g.nodes, node.kind.Templated)
  (hd : ∀ node ∈ g.nodes, ∀ d, node.kind = .custom d → d.definition.Admissible)
  (stage : Stage) (layout : Layout)

include h ht hd

private theorem corresponds_source (hw : WellFormed copy) (hr : Renumbered φ g copy) :
    Corresponds (fun e e' ↦ e' = e.renumber φ) (SamePattern g.ids φ) (g.source stage layout)
      (copy.source stage layout) := by
  have hm := hr.matches h.wellFormed
  have htracks := tracks_patterned hr.injective h.faithful ht hd
  rw [source, source, body, body, hm.customFields_eq]
  rcases (hm.corresponds_walk h.wellFormed hw htracks stage).exists_eq with
    ⟨walk, walk', hwalk, hwalk', hstep⟩ | ⟨e, e', he, he', hrenumber⟩
  · rw [hwalk, hwalk']
    cases stage with
    | fragment => exact .ok (patterned_fragmentText hstep.sheet.statements _ layout)
    | vertex => exact .ok (patterned_vertexText hstep.sheet.statements layout)
  · rw [he, he']
    exact .error hrenumber

/-- A graph that is loaded from a document has the source of the saved one, but for the numbers. -/
theorem Reachable.source_copied (hw : WellFormed copy) (hc : g.CopiedTo φ copy) :
    Corresponds (fun e e' ↦ e' = e.renumber φ) (SamePattern g.ids φ) (g.source stage layout)
      (copy.source stage layout) :=
  corresponds_source h ht hd stage layout hw hc.renumbered

end

/-- Source depends on the numbers of nodes through the names of locals only. Under other numbers a
graph of built-in and templated nodes has a source of the same pattern in each stage, or is refused
for the same reason about corresponding nodes. -/
theorem Reachable.source_renumbered (h : Reachable Node.Created g)
    (ht : ∀ node ∈ g.nodes, node.kind.Templated)
    (hd : ∀ node ∈ g.nodes, ∀ d, node.kind = .custom d → d.definition.Admissible)
    (hw : WellFormed copy) (hr : Renumbered φ g copy) (stage : Stage) (layout : Layout) :
    Corresponds (fun e e' ↦ e' = e.renumber φ) (SamePattern g.ids φ) (g.source stage layout)
      (copy.source stage layout) :=
  corresponds_source h ht hd stage layout hw hr

/-- A sine of the second output of a template, as the roughness. -/
def glinting : ShaderGraph :=
  let shared := (empty "Glinting").push (.ofKind 1 (.custom ⟨0, .template noise⟩))
  let sine := shared.push (.ofKind 2 (.math .sin))
  let all := sine.push (.ofKind 3 (.output .roughness ""))
  (all.link ⟨1, 1, 2, 0⟩).link ⟨2, 0, 3, 0⟩

theorem source_renumbered_glinting :
    ∃ text text', glinting.source .fragment {} = .ok text ∧
      (glinting.renumber (9 - ·)).source .fragment {} = .ok text' ∧
      SamePattern glinting.ids (9 - ·) text text' ∧
      (glinting.body .fragment).toOption.map (·.map Statement.text) = some
        ["noise();", "float math_2 = sin(custom_1_out1);", "output.roughness = math_2;"] ∧
      ((glinting.renumber (9 - ·)).body .fragment).toOption.map (·.map Statement.text) = some
        ["noise();", "float math_7 = sin(custom_8_out1);", "output.roughness = math_7;"] := by
  have hr : Reachable Node.Created glinting := by
    unfold glinting
    refine .link (.link (.push_ofKind (.push_ofKind (.push_ofKind (.empty _) ?_ _) ?_ _) ?_ _)
      ?_) ?_
    all_goals decide
  have hcustom : ∀ node ∈ glinting.nodes, ∀ d, node.kind = .custom d →
      d.definition = .template noise := by
    intro node hn d hk
    have hkinds : glinting.nodes.map (·.kind) =
      [.custom ⟨0, .template noise⟩, .math .sin, .output .roughness ""] := rfl
    have hm : NodeKind.custom d ∈ glinting.nodes.map (·.kind) := hk ▸ List.mem_map_of_mem hn
    rw [hkinds] at hm
    obtain rfl : d = ⟨0, .template noise⟩ := by simpa using hm
    rfl
  have hφ : ∀ a ∈ glinting.ids, ∀ b ∈ glinting.ids, 9 - a = 9 - b → a = b :=
    fun a _ b _ he ↦ (UInt32.sub_right_inj 9).mp he
  have htext : (glinting.body .fragment).toOption.map (·.map Statement.text) = some
      ["noise();", "float math_2 = sin(custom_1_out1);", "output.roughness = math_2;"] := by
    decide +kernel
  have hsource := hr.source_renumbered (fun node hn d hk ↦ ⟨noise, hcustom node hn d hk⟩)
    (fun node hn d hk ↦ hcustom node hn d hk ▸ admissible_noise) (hr.wellFormed.renumber hφ)
    (renumbered_renumber hφ) .fragment {}
  rcases hsource.exists_eq with ⟨text, text', hs, hs', hp⟩ | ⟨e, -, he, -, -⟩
  · exact ⟨text, text', hs, hs', hp, htext, by decide +kernel⟩
  · cases hb : glinting.body .fragment with
    | error e => simp [hb, Except.toOption] at htext
    | ok statements =>
      rw [source, hb] at he
      cases he

end ShaderGraph

end RenderKit
