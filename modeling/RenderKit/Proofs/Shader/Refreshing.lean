import RenderKit.Proofs.Registry.Reachable
import RenderKit.Proofs.Shader.Marks

/-!
# What a refresh does

A refresh gives the registered definitions to just those nodes that hold another object of the
same name (`Stale`), and leaves all other nodes as they are up to their marks. Then connections
stay, in order, if they fit the pins that there are now, and all marks follow them. A second
refresh finds nothing to do, since in a reachable registry definitions stand under their own names.
-/

namespace RenderKit

/-- A definition is registered under the name of the one that a node holds, and is another
object. -/
def Node.Stale (r : Registry) (node : Node) (d : SharedDefinition) : Prop :=
  ∃ held, node.kind = .custom held ∧ r.get? held.name = some d ∧ d.same held = false

/-- A node took a definition, with all that comes from it, and kept its number and its layout. -/
structure Node.Took (node : Node) (d : SharedDefinition) (rebound : Node) : Prop where
  id : rebound.id = node.id
  position : rebound.position = node.position
  extent : rebound.extent = node.extent
  kind : rebound.kind = .custom d
  name : rebound.name = d.descriptor.name
  category : rebound.category = d.descriptor.category
  inputs : rebound.inputs.map Pin.spec = d.descriptor.inputs
  outputs : rebound.outputs.map Pin.spec = d.descriptor.outputs

/-- A node is as it was, up to the marks of its pins. -/
structure Node.Kept (node kept : Node) : Prop where
  id : kept.id = node.id
  position : kept.position = node.position
  extent : kept.extent = node.extent
  kind : kept.kind = node.kind
  name : kept.name = node.name
  category : kept.category = node.category
  inputs : kept.inputs.map Pin.spec = node.inputs.map Pin.spec
  outputs : kept.outputs.map Pin.spec = node.outputs.map Pin.spec

namespace Node

variable {r : Registry} {node : Node} {d : SharedDefinition}

theorem replacement?_eq_some_iff : node.replacement? r = some d ↔ node.Stale r d := by
  rw [replacement?, Stale]
  cases node.kind <;> simp [Option.filter_eq_some_iff]

theorem Kept.refl (node : Node) : node.Kept node :=
  ⟨rfl, rfl, rfl, rfl, rfl, rfl, rfl, rfl⟩

theorem Kept.marked (connections : List Connection) (node : Node) :
    node.Kept (ShaderGraph.marked connections node) :=
  ⟨rfl, rfl, rfl, rfl, rfl, rfl, map_spec_mapIdx _ _, map_spec_mapIdx _ _⟩

/-- A refreshed node took its definition, however its pins are marked. -/
theorem took_marked_refreshed (connections : List Connection) (h : node.Stale r d) :
    node.Took d (ShaderGraph.marked connections (node.refreshed r)) := by
  rw [refreshed, replacement?_eq_some_iff.mpr h]
  exact ⟨rfl, rfl, rfl, rfl, rfl, rfl, (map_spec_mapIdx _ _).trans (map_spec_pin _),
    (map_spec_mapIdx _ _).trans (map_spec_pin _)⟩

theorem refreshed_of_not_stale (h : ∀ d, ¬ node.Stale r d) : node.refreshed r = node := by
  rw [refreshed]
  cases hd : node.replacement? r with
  | none => rfl
  | some d => exact absurd (replacement?_eq_some_iff.mp hd) (h d)

/-- Where definitions stand under their own names, a refreshed node is up to date. -/
theorem not_stale_refreshed {supply : Supply} (hr : r.Sound supply) (connections : List Connection)
    (d : SharedDefinition) :
    ¬ (ShaderGraph.marked connections (node.refreshed r)).Stale r d := by
  rintro ⟨held, hk, hget, hother⟩
  rw [ShaderGraph.marked, kind_markPins, refreshed] at hk
  split at hk
  · next fresh hfresh =>
    obtain ⟨old, -, hold, -⟩ := replacement?_eq_some_iff.mp hfresh
    cases hk
    rw [hr.name_eq hold, hold] at hget
    cases hget
    simp [SharedDefinition.same] at hother
  · next hnone =>
    have hstale : node.Stale r d := ⟨held, hk, hget, hother⟩
    rw [replacement?_eq_some_iff.mpr hstale] at hnone
    cases hnone

end Node

namespace ShaderGraph

variable {g g' : ShaderGraph} {r : Registry}

/-! ### Connections -/

/-- A connection runs between pins that are there. -/
def Fits (g : ShaderGraph) (c : Connection) : Prop :=
  (∃ source ∈ g.nodes, source.id = c.source ∧ c.output < source.outputs.length) ∧
    ∃ target ∈ g.nodes, target.id = c.target ∧ c.input < target.inputs.length

instance (g : ShaderGraph) (c : Connection) : Decidable (g.Fits c) :=
  inferInstanceAs (Decidable (_ ∧ _))

theorem fits_eq_decide (hi : Indexes g.ids (g.index[·]?)) (c : Connection) :
    g.fits c = decide (g.Fits c) := by
  rw [Bool.eq_iff_iff, decide_eq_true_iff, fits, Bool.and_eq_true, Option.any_eq_true,
    Option.any_eq_true]
  simp only [node?_eq_some_iff hi, decide_eq_true_iff, Fits, and_assoc]

/-- Whether a connection fits depends on the numbers of nodes and pins only. -/
theorem fits_iff_of_shapes (h : g'.shapes = g.shapes) (c : Connection) :
    g'.Fits c ↔ g.Fits c := by
  have hshapes : ∀ g : ShaderGraph, g.Fits c ↔
      (∃ shape ∈ g.shapes, shape.1 = c.source ∧ c.output < shape.2.2) ∧
        ∃ shape ∈ g.shapes, shape.1 = c.target ∧ c.input < shape.2.1 := by
    intro g
    simp [Fits, shapes, Node.shape]
  rw [hshapes, hshapes, h]

/-! ### The graph with refreshed nodes -/

/-- The graph with all nodes refreshed, before its connections are looked at. -/
def withRefreshed (g : ShaderGraph) (r : Registry) : ShaderGraph :=
  { g with nodes := g.nodes.map (Node.refreshed r) }

theorem rebound_eq (g : ShaderGraph) (r : Registry) :
    g.rebound r = { g.withRefreshed r with
      connections := g.connections.filter (g.withRefreshed r).fits }.syncAll g.ids := by
  rw [← ids_map_refreshed g r]
  rfl

theorem indexes_withRefreshed (hw : WellFormed g) (r : Registry) :
    Indexes (g.withRefreshed r).ids ((g.withRefreshed r).index[·]?) := by
  have hids : (g.withRefreshed r).ids = g.ids := ids_map_refreshed g r
  rw [hids]
  exact hw.indexed

/-- The connections that fit the new pins stay. -/
theorem connections_rebound (hw : WellFormed g) (r : Registry) :
    (g.rebound r).connections = g.connections.filter (g.rebound r).Fits := by
  -- Connections are looked at before the marks are set, which changes no pin count.
  have hshapes : (g.rebound r).shapes = (g.withRefreshed r).shapes := by
    rw [rebound_eq, shapes_syncAll]
    rfl
  have hfits : ∀ c, (g.withRefreshed r).fits c = decide ((g.rebound r).Fits c) := by
    intro c
    rw [fits_eq_decide (indexes_withRefreshed hw r), decide_eq_decide]
    exact (fits_iff_of_shapes hshapes c).symm
  rw [← funext hfits, rebound_eq, connections_syncAll]

/-- All nodes are refreshed, and marked by the connections that stay. -/
theorem nodes_rebound (hw : WellFormed g) (r : Registry) :
    (g.rebound r).nodes =
      g.nodes.map fun node ↦ marked (g.rebound r).connections (node.refreshed r) := by
  have hi : Indexes
      ({ g.withRefreshed r with
        connections := g.connections.filter (g.withRefreshed r).fits } : ShaderGraph).ids
      (g.index[·]?) := indexes_withRefreshed hw r
  rw [rebound_eq, connections_syncAll, nodes_syncAll hi, withRefreshed, List.map_map]
  refine List.map_congr_left fun node hn ↦ ?_
  rw [Function.comp_apply, if_pos]
  rw [Node.id_refreshed]
  exact List.mem_map_of_mem hn

/-! ### A refresh -/

/-- What a refresh makes of a graph, and how many nodes it tells to have taken a definition. -/
structure Refreshed (r : Registry) (g g' : ShaderGraph) (count : Nat) : Prop where
  counted : ∃ stale : List NodeId, stale.Nodup ∧ stale.length = count ∧
    ∀ id, id ∈ stale ↔ ∃ node ∈ g.nodes, node.id = id ∧ ∃ d, node.Stale r d
  nodes : List.Forall₂ (fun node node' : Node ↦
    (∀ d, node.Stale r d → node.Took d node') ∧ ((∀ d, ¬ node.Stale r d) → node.Kept node'))
      g.nodes g'.nodes
  connections : count ≠ 0 → g'.connections = g.connections.filter g'.Fits
  marks : count ≠ 0 → ∀ node ∈ g'.nodes, node.MarkedBy g'.connections
  unchanged : count = 0 → g' = g
  name : g'.name = g.name
  created : g'.created = g.created

private theorem isSome_replacement?_iff {node : Node} :
    (node.replacement? r).isSome = true ↔ ∃ d, node.Stale r d := by
  simp only [Option.isSome_iff_exists, Node.replacement?_eq_some_iff]

/-- The stale nodes are counted, each once. -/
theorem counted_staleCount (hw : WellFormed g) (r : Registry) :
    ∃ stale : List NodeId, stale.Nodup ∧ stale.length = g.staleCount r ∧
      ∀ id, id ∈ stale ↔ ∃ node ∈ g.nodes, node.id = id ∧ ∃ d, node.Stale r d := by
  refine ⟨(g.nodes.filter fun node ↦ (node.replacement? r).isSome).map (·.id), ?_, ?_, fun id ↦ ?_⟩
  · exact hw.nodup.sublist (List.filter_sublist.map _)
  · rw [List.length_map, staleCount, List.countP_eq_length_filter]
  · simp only [List.mem_map, List.mem_filter, isSome_replacement?_iff]
    exact exists_congr fun node ↦ by rw [and_assoc, and_comm (a := node.id = id)]

theorem staleCount_eq_zero_iff :
    g.staleCount r = 0 ↔ ∀ node ∈ g.nodes, ∀ d, ¬ node.Stale r d := by
  rw [staleCount, List.countP_eq_zero]
  simp only [isSome_replacement?_iff, not_exists]

/-- A graph without stale nodes is as it should be. -/
private theorem refreshed_self (hw : WellFormed g) (hzero : g.staleCount r = 0) :
    Refreshed r g g 0 where
  counted := hzero ▸ counted_staleCount hw r
  nodes := by
    refine List.forall₂_same.mpr fun node hn ↦ ⟨fun d hd ↦ ?_, fun _ ↦ .refl node⟩
    exact absurd hd (staleCount_eq_zero_iff.mp hzero node hn d)
  connections := fun h ↦ absurd rfl h
  marks := fun h ↦ absurd rfl h
  unchanged := fun _ ↦ rfl
  name := rfl
  created := rfl

private theorem refreshed_rebound (hw : WellFormed g) (hne : g.staleCount r ≠ 0) :
    Refreshed r g (g.rebound r) (g.staleCount r) where
  counted := counted_staleCount hw r
  nodes := by
    rw [nodes_rebound hw, List.forall₂_map_right_iff]
    refine List.forall₂_same.mpr fun node _ ↦ ⟨fun d hd ↦ ?_, fun hfresh ↦ ?_⟩
    · exact Node.took_marked_refreshed _ hd
    · rw [Node.refreshed_of_not_stale hfresh]
      exact .marked _ node
  connections := fun _ ↦ connections_rebound hw r
  marks := by
    intro _ node hn
    rw [nodes_rebound hw] at hn
    obtain ⟨old, -, rfl⟩ := List.mem_map.mp hn
    exact markedBy_marked _ _
  unchanged := fun h ↦ absurd h hne
  name := name_syncAll _ _
  created := created_syncAll _ _

/-- A refresh does what it is to do with any registry. -/
theorem refreshed_refresh (hw : WellFormed g) (r : Registry) :
    Refreshed r g (g.refresh r).1 (g.refresh r).2 := by
  rw [ShaderGraph.refresh]
  by_cases hzero : g.staleCount r = 0
  · rw [if_pos hzero]
    exact hzero ▸ refreshed_self hw hzero
  · rw [if_neg hzero]
    exact refreshed_rebound hw hzero

/-- A refresh gives just the stale nodes the registered definitions; connections stay if they fit
the new pins, and marks follow them. A second refresh from the same registry changes nothing. -/
theorem Reachable.refresh_settles (h : Reachable Node.Created g) {supply : Supply}
    (hr : r.Reachable supply) {count : Nat} (hg : g.refresh r = (g', count)) :
    Refreshed r g g' count ∧ g'.refresh r = (g', 0) := by
  have hw := (h.keeps kept_true).1
  have hrefreshed := refreshed_refresh hw r
  rw [hg] at hrefreshed
  refine ⟨hrefreshed, ?_⟩
  rw [ShaderGraph.refresh] at hg
  cases hg
  have hsettled : (if g.staleCount r = 0 then g else g.rebound r).staleCount r = 0 := by
    by_cases hzero : g.staleCount r = 0
    · rwa [if_pos hzero]
    · rw [if_neg hzero, staleCount_eq_zero_iff, nodes_rebound hw]
      intro node hn
      obtain ⟨old, -, rfl⟩ := List.mem_map.mp hn
      exact Node.not_stale_refreshed hr.sound _
  rw [ShaderGraph.refresh, hsettled, if_pos rfl]

/-- A mixture of so many values by a function. -/
def mixture (inputs : List String) : Definition :=
  .native
    { descriptor :=
        { name := "Mixture"
          category := "Samples"
          inputs := inputs.map fun name ↦ ⟨name, .float, "0.0"⟩
          outputs := [⟨"Result", .float, ""⟩] }
      snippet := fun node _ ↦ .bind 0 (localName "mixture" node) .done }

/-- The time on the second input of a mixture, and the mixture on a result. -/
def mixing : ShaderGraph :=
  let time := (empty "Mixing").push (.ofKind 1 (.input .time ""))
  let mixed := time.push (.ofKind 2 (.custom ⟨0, mixture ["First", "Second"]⟩))
  let result := mixed.push (.ofKind 3 (.output .metallic ""))
  (result.link ⟨1, 0, 2, 1⟩).link ⟨2, 0, 3, 0⟩

theorem reachable_mixing : Reachable Node.Created mixing := by
  unfold mixing
  refine .link (.link (.push_ofKind (.push_ofKind (.push_ofKind (.empty _) ?_ _) ?_ _) ?_ _) ?_) ?_
  all_goals decide

/-- A registry with a mixture of one value, which is another object. -/
def narrowed : Registry where
  entries := Table.empty.insert "Mixture" (.fixed ⟨1, mixture ["First"]⟩)

theorem refresh_settles_mixing :
    ∃ narrow, mixing.refresh narrowed = (narrow, 1) ∧ narrow.connections = [⟨2, 0, 3, 0⟩] ∧
      narrow.ids = [1, 2, 3] ∧ (∀ node ∈ narrow.nodes, node.MarkedBy narrow.connections) ∧
        narrow.refresh narrowed = (narrow, 0) := by
  have hr : narrowed.Reachable { nextHandle := 2 } := by
    refine .register (d := ⟨1, mixture ["First"]⟩) (.empty _) (by decide) ?_
    exact Registry.insert_eq_ok_iff.mpr ⟨by decide, by decide, rfl⟩
  have hcount : (mixing.refresh narrowed).2 = 1 := by decide
  have hconnections : (mixing.refresh narrowed).1.connections = [⟨2, 0, 3, 0⟩] := by decide
  have hids : (mixing.refresh narrowed).1.ids = [1, 2, 3] := by decide
  cases hrefresh : mixing.refresh narrowed with
  | mk narrow count =>
    rw [hrefresh] at hcount hconnections hids
    subst hcount
    obtain ⟨hrefreshed, hagain⟩ := reachable_mixing.refresh_settles hr hrefresh
    exact ⟨narrow, rfl, hconnections, hids, hrefreshed.marks Nat.one_ne_zero, hagain⟩

end ShaderGraph

end RenderKit
