import RenderKit.Proofs.Shader.Matching

/-!
# The order of connections

An input takes one connection, so the connections of a graph tell what feeds each input, in whatever
order they were made. Graphs with the same nodes and the same connections have the same source, or
the same refusal, whatever the marks of their pins say; so a connection may be taken out and made
again, and connections may be made in any order (`Reachable.source_rewired`).
-/

namespace RenderKit

namespace ShaderGraph

variable {g g' : ShaderGraph}

/-- The same nodes but for titles, places and marks, and the same connections in another order. -/
structure Rewired (g g' : ShaderGraph) : Prop where
  nodes : List.Forall₂ (Node.Matches id) g.nodes g'.nodes
  connections : g'.connections.Perm g.connections

/-- What feeds an input does not depend on the order of the connections. -/
theorem source?_perm (hw' : WellFormed g') (h : g'.connections.Perm g.connections)
    (target : NodeId) (input : Nat) : g'.source? target input = g.source? target input := by
  cases hs : g.source? target input with
  | none =>
    rw [source?_eq_none_iff] at hs ⊢
    exact fun c hc ↦ hs c (h.mem_iff.mp hc)
  | some feed =>
    have hc := h.mem_iff.mpr (mem_of_source? hs)
    exact hw'.source?_of_mem hc

theorem Rewired.matches (h : Rewired g g') (hw' : WellFormed g') : Matches id g g' where
  injective := fun _ _ _ _ he ↦ he
  nodes := h.nodes
  fed := by
    intro target _ input
    rw [id, source?_perm hw' h.connections, Prod.map_id, Option.map_id, id]

/-- A sheet tracks itself. -/
private theorem tracks_eq (g : ShaderGraph) : Tracks id Eq Eq g where
  refl := fun _ ↦ rfl
  start := rfl
  bound := by
    rintro sheet _ rfl node - output -
    rw [id]
    cases sheet.get? ⟨node.id, output⟩ with
    | none => exact .none
    | some expression => exact .some rfl
  run := by
    rintro sheet _ rfl node - inputs inputs' hinputs
    rw [List.forall₂_eq_eq_eq] at hinputs
    rw [id, hinputs]
    refine ⟨?_, rfl⟩
    cases ((node.kind.snippet node.id inputs').run node.id sheet).2 with
    | none => rfl
    | some refused => rw [Option.map_some, CodegenError.renumber_id]

/-- Rewired graphs are walked alike. -/
private theorem walk_rewired (hw : WellFormed g) (hw' : WellFormed g') (h : Rewired g g')
    (stage : Stage) : g'.walk stage = g.walk stage := by
  rcases ((h.matches hw').corresponds_walk hw hw' (tracks_eq g) stage).exists_eq with
    ⟨walk, walk', hwalk, hwalk', hstep⟩ | ⟨e, e', he, he', rfl⟩
  · obtain ⟨emitted, sheet⟩ := walk
    obtain ⟨emitted', sheet'⟩ := walk'
    obtain ⟨-, rfl, rfl⟩ := hstep
    rw [hwalk, hwalk', List.map_id]
  · rw [he, he', CodegenError.renumber_id]

theorem source_of_rewired (hw : WellFormed g) (hw' : WellFormed g') (h : Rewired g g')
    (stage : Stage) (layout : Layout) : g'.source stage layout = g.source stage layout := by
  rw [source, source, body, body, walk_rewired hw hw' h, (h.matches hw').customFields_eq]

/-! ### Making connections -/

private theorem copied_self (nodes : List Node) : List.Forall₂ (Node.CopiedTo id) nodes nodes :=
  List.forall₂_same.mpr fun _ _ ↦ ⟨rfl, rfl, rfl, rfl, rfl, rfl⟩

/-- The connections around the one that feeds an input, and what is left without it. -/
private theorem exists_split_of_feed? {c : Connection}
    (h : g.feed? c.target c.input = some c) :
    ∃ front back, g.connections = front ++ c :: back ∧
      g.connections.eraseP (·.feeds c.target c.input) = front ++ back := by
  obtain ⟨hc, front, back, hsplit, hfront⟩ := List.find?_eq_some_iff_append.mp h
  refine ⟨front, back, hsplit, ?_⟩
  have hkept : ∀ other ∈ front, ¬ (other.feeds c.target c.input = true) := by
    simpa using hfront
  rw [hsplit, List.eraseP_append_right _ hkept]
  exact congrArg (front ++ ·) (List.eraseP_cons_of_pos hc)

/-- The connection that is taken out of an input can be made again, behind the others. -/
private theorem exists_reconnected (hw : WellFormed g) {target : NodeId} {input : Nat}
    {c : Connection} {cut : ShaderGraph} (h : g.disconnect target input = .ok (c, cut)) :
    ∃ joined, cut.connect c = .ok joined ∧ Rewired g joined := by
  obtain ⟨hf, rfl⟩ := disconnect_eq_ok_iff.mp h
  obtain ⟨rfl, rfl⟩ := ends_of_feed? hf
  obtain ⟨front, back, hsplit, herase⟩ := exists_split_of_feed? hf
  have hleft : (g.unlinked c).connections = front ++ back := by
    rw [unlinked, connections_syncPins, connections_syncPins, herase]
  have hjoins : (g.unlinked c).Joins c := by
    refine (hw.joined c (List.mem_of_find?_eq_some hf)).congr ?_ ?_
    · rw [unlinked, index_syncPins, index_syncPins]
    · rw [unlinked, shapes_syncPins, shapes_syncPins]
      rfl
  have hfree : (g.unlinked c).feed? c.target c.input = none := by
    have hsingle := hw.single
    rw [hsplit, List.map_append, List.map_cons, List.nodup_middle, ← List.map_append] at hsingle
    rw [feed?_eq_none_iff, hleft]
    exact (List.nodup_cons.mp hsingle).1
  have hnodes : List.Forall₂ (Node.CopiedTo id) g.nodes (g.unlinked c).nodes := by
    apply copied_syncPins
    apply copied_syncPins
    exact copied_self g.nodes
  refine ⟨_, connect_eq_ok_iff.mpr ⟨⟨hjoins, hfree⟩, rfl⟩,
    (copied_link hnodes c).imp fun _ _ hn ↦ hn.matches, ?_⟩
  rw [connections_link, hleft, hsplit]
  exact (List.perm_append_singleton c _).trans List.perm_middle.symm

theorem joins_link {c d : Connection} : (g.link c).Joins d ↔ g.Joins d := by
  have hindex : (g.link c).index = g.index := by
    rw [link, index_syncPins, index_syncPins]
  have hshapes : (g.link c).shapes = g.shapes := by
    rw [link, shapes_syncPins, shapes_syncPins]
    rfl
  exact ⟨fun h ↦ h.congr hindex.symm hshapes.symm, fun h ↦ h.congr hindex hshapes⟩

/-- Connections can be made one after the other when they fit, into different inputs that nothing
feeds yet. -/
theorem foldlM_connect_eq_ok_iff {cs : List Connection} :
    cs.foldlM connect g = .ok g' ↔
      ((∀ c ∈ cs, g.Joins c ∧ g.feed? c.target c.input = none) ∧
        (cs.map fun c ↦ (c.target, c.input)).Nodup) ∧ g' = cs.foldl link g := by
  induction cs generalizing g with
  | nil => simp [pure, Except.pure, eq_comm]
  | cons c cs ih =>
    have hfeed : ∀ d : Connection, (g.link c).feed? d.target d.input = none ↔
        g.feed? d.target d.input = none ∧ (d.target, d.input) ≠ (c.target, c.input) := by
      intro d
      rw [feed?_eq_none_iff, feed?_eq_none_iff, connections_link, List.map_append, List.mem_append,
        not_or, List.map_singleton, List.mem_singleton]
    have hfirst : (c :: cs).foldlM connect g = .ok g' ↔
        (g.Joins c ∧ g.feed? c.target c.input = none) ∧ cs.foldlM connect (g.link c) = .ok g' := by
      rw [List.foldlM_cons, bind_eq_ok_iff]
      simp only [connect_eq_ok_iff, and_assoc, exists_and_left, exists_eq_left]
    have hnew : (c.target, c.input) ∉ cs.map (fun d ↦ (d.target, d.input)) ↔
        ∀ d ∈ cs, (d.target, d.input) ≠ (c.target, c.input) := by
      simp only [List.mem_map, not_exists, not_and, ne_eq]
    rw [hfirst, ih, List.map_cons, List.nodup_cons, hnew, List.forall_mem_cons, List.foldl_cons]
    simp only [joins_link, hfeed, ← and_assoc, forall₂_and]

private theorem connections_foldl_link (cs : List Connection) :
    (cs.foldl link g).connections = g.connections ++ cs := by
  induction cs generalizing g with
  | nil => exact (List.append_nil _).symm
  | cons c cs ih =>
    rw [List.foldl_cons, ih, connections_link, List.append_assoc, List.singleton_append]

private theorem copied_foldl_link {nodes : List Node}
    (h : List.Forall₂ (Node.CopiedTo id) nodes g.nodes) (cs : List Connection) :
    List.Forall₂ (Node.CopiedTo id) nodes (cs.foldl link g).nodes := by
  induction cs generalizing g with
  | nil => exact h
  | cons c cs ih => exact ih (copied_link h c)

/-- Copies of the same nodes are copies of each other. -/
private theorem matches_of_copied {nodes first second : List Node}
    (h : List.Forall₂ (Node.CopiedTo id) nodes first)
    (h' : List.Forall₂ (Node.CopiedTo id) nodes second) :
    List.Forall₂ (Node.Matches id) first second := by
  induction h generalizing second with
  | nil =>
    cases h'
    exact .nil
  | cons hn _ ih =>
    cases h' with
    | cons hn' htail' =>
      refine .cons ⟨?_, hn'.kind.trans hn.kind.symm, hn'.inputs.trans hn.inputs.symm,
        hn'.outputs.trans hn.outputs.symm⟩ (ih htail')
      exact hn'.id.trans hn.id.symm

/-- Connections that can be made in one order can be made in any. -/
private theorem exists_reordered {cs cs' : List Connection} {joined : ShaderGraph}
    (hp : cs.Perm cs') (h : cs.foldlM connect g = .ok joined) :
    ∃ other, cs'.foldlM connect g = .ok other ∧ Rewired joined other := by
  obtain ⟨⟨hfits, hinputs⟩, rfl⟩ := foldlM_connect_eq_ok_iff.mp h
  refine ⟨_, foldlM_connect_eq_ok_iff.mpr ⟨⟨fun c hc ↦ hfits c (hp.mem_iff.mpr hc), ?_⟩, rfl⟩,
    ?_, ?_⟩
  · exact (hp.map _).nodup_iff.mp hinputs
  · exact matches_of_copied (copied_foldl_link (copied_self g.nodes) cs)
      (copied_foldl_link (copied_self g.nodes) cs')
  · rw [connections_foldl_link, connections_foldl_link]
    exact hp.symm.append_left g.connections

/-- The source of a graph does not depend on the order in which its connections were made, nor on
marks. Graphs of the same nodes with the same connections have the same source, or the same refusal;
so it stays when an input is disconnected and connected again to where it was, and when connections
are made in another order. -/
theorem Reachable.source_rewired {New : Node → Prop} (h : Reachable New g) :
    (∀ g', Reachable New g' → Rewired g g' → ∀ stage layout,
        g'.source stage layout = g.source stage layout) ∧
      (∀ target input c cut, g.disconnect target input = .ok (c, cut) →
        ∃ joined, cut.connect c = .ok joined ∧ ∀ stage layout,
          joined.source stage layout = g.source stage layout) ∧
      ∀ (cs cs' : List Connection) joined, cs.Perm cs' →
        cs.foldlM ShaderGraph.connect g = .ok joined →
          ∃ other, cs'.foldlM ShaderGraph.connect g = .ok other ∧ ∀ stage layout,
            other.source stage layout = joined.source stage layout := by
  have hrun : ∀ {cs : List Connection} {joined : ShaderGraph},
      cs.foldlM ShaderGraph.connect g = .ok joined → WellFormed joined := by
    intro cs joined hj
    have hreachable : Reachable New joined :=
      foldlM_invariant hj h fun c _ g g' hg hc ↦ .connect hg hc
    exact hreachable.wellFormed
  refine ⟨fun g' h' hr ↦ source_of_rewired h.wellFormed h'.wellFormed hr,
    fun target input c cut hcut ↦ ?_, fun cs cs' joined hp hj ↦ ?_⟩
  · obtain ⟨joined, hjoined, hr⟩ := exists_reconnected h.wellFormed hcut
    have hw : WellFormed joined := Reachable.wellFormed (.connect (.disconnect h hcut) hjoined)
    exact ⟨joined, hjoined, source_of_rewired h.wellFormed hw hr⟩
  · obtain ⟨other, hother, hr⟩ := exists_reordered hp hj
    exact ⟨other, hother, source_of_rewired (hrun hj) (hrun hother) hr⟩

/-- The time, a sum and a roughness, not connected yet. -/
def unwired : ShaderGraph :=
  let time := (empty "Doubled").push (.ofKind 1 (.input .time ""))
  let sum := time.push (.ofKind 2 (.math .add))
  sum.push (.ofKind 3 (.output .roughness ""))

/-- The time on both inputs of the sum, and the sum as the roughness. -/
def wires : List Connection :=
  [⟨1, 0, 2, 0⟩, ⟨1, 0, 2, 1⟩, ⟨2, 0, 3, 0⟩]

theorem source_rewired_wires :
    ∃ joined other c cut again text, wires.foldlM connect unwired = .ok joined ∧
      wires.reverse.foldlM connect unwired = .ok other ∧
      joined.disconnect 2 0 = .ok (c, cut) ∧ cut.connect c = .ok again ∧
      joined.source .fragment {} = .ok text ∧ other.source .fragment {} = .ok text ∧
        again.source .fragment {} = .ok text := by
  have hr : Reachable Node.Created unwired := by
    unfold unwired
    refine .push_ofKind (.push_ofKind (.push_ofKind (.empty _) ?_ _) ?_ _) ?_ _
    all_goals decide
  have hruns : (wires.foldlM connect unwired).toOption.map (fun g ↦
      ((g.disconnect 2 0).toOption.isSome, (g.body .fragment).toOption.isSome)) =
        some (true, true) := by decide +kernel
  cases hjoined : wires.foldlM connect unwired with
  | error e => simp [hjoined, Except.toOption] at hruns
  | ok joined =>
    cases hcut : joined.disconnect 2 0 with
    | error e => simp [hjoined, hcut, Except.toOption] at hruns
    | ok removed =>
      cases hbody : joined.body .fragment with
      | error e => simp [hjoined, hbody, Except.toOption] at hruns
      | ok body =>
        obtain ⟨c, cut⟩ := removed
        have hreachable : Reachable Node.Created joined :=
          foldlM_invariant hjoined hr fun c _ g g' hg hc ↦ .connect hg hc
        obtain ⟨-, -, hreordered⟩ := hr.source_rewired
        obtain ⟨-, hreconnected, -⟩ := hreachable.source_rewired
        obtain ⟨other, hother, hsame⟩ := hreordered _ _ _ (List.reverse_perm wires).symm hjoined
        obtain ⟨again, hagain, hsame'⟩ := hreconnected 2 0 c cut hcut
        have htext : joined.source .fragment {} =
            .ok (fragmentText joined.customFields body {}) := by
          rw [source, hbody]
          rfl
        exact ⟨joined, other, c, cut, again, _, rfl, hother, hcut, hagain, htext,
          (hsame _ _).trans htext, (hsame' _ _).trans htext⟩

end ShaderGraph

end RenderKit
