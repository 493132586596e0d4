import RenderKit.Proofs.Document.Numbering
import RenderKit.Proofs.Document.Refreshing
import Mathlib.Data.List.Flatten

/-!
# Sessions

A session makes nodes, opens graphs, and moves nodes between graphs and the hands of those who hold
them. As long as it makes fewer nodes than there are words, every node that lives has a number of its
own (`ids_of_run`): numbers are given in the order of creation and never again, so no node is
refused for its number, and a node that is moved keeps its number.
-/

namespace RenderKit

open ShaderGraph

/-! ### Moving nodes -/

namespace ShaderGraph

variable {g rest : ShaderGraph}

/-- An edit other than adding or removing a node. -/
def Edit.KeepsNodes : Edit → Prop
  | .add _ | .remove _ => False
  | _ => True

theorem ids_edit (hw : g.WellFormed) {e : Edit} (he : e.KeepsNodes) : (g.edit e).ids = g.ids := by
  cases e with
  | rename name => rfl
  | arrange id position extent => exact ids_modifyNode g id fun _ ↦ rfl
  | add node => exact he.elim
  | remove id => exact he.elim
  | connect c =>
    rw [edit]
    cases hc : g.connect c with
    | error e => rfl
    | ok g' =>
      obtain ⟨-, rfl⟩ := connect_eq_ok_iff.mp hc
      exact ids_link g c
  | disconnect target input =>
    rw [edit]
    cases hd : g.disconnect target input with
    | error e => rfl
    | ok removed =>
      obtain ⟨-, hg⟩ := disconnect_eq_ok_iff.mp hd
      simp only [Except.map, Except.toOption, Option.getD_some, hg]
      rw [unlinked, ids_syncPins, ids_syncPins]
      rfl
  | refresh r => exact ids_refresh hw r

/-- A node that is taken out has the number that it was asked for by, and the others keep their
order. -/
theorem WellFormed.removeNode (hw : g.WellFormed) {id : NodeId} {node : Node}
    (h : g.removeNode id = .ok (node, rest)) :
    rest.WellFormed ∧ node.id = id ∧ id ∈ g.ids ∧ rest.ids = g.ids.erase id := by
  obtain ⟨slot, hs, hn, rfl⟩ := removeNode_eq_ok_iff.mp h
  have hid := (hw.indexed id slot).mp hs
  obtain ⟨hlt, hget⟩ := List.getElem?_eq_some_iff.mp hid
  refine ⟨hw.pruned hs, ?_, List.mem_of_getElem? hid, ?_⟩
  · rw [ids, List.getElem?_map, hn] at hid
    exact Option.some.inj hid
  · rw [ids_pruned, ← hget, hw.nodup.erase_getElem]

/-- A node of a graph can be taken out. -/
theorem WellFormed.exists_removeNode (hw : g.WellFormed) {id : NodeId} (hid : id ∈ g.ids) :
    ∃ node rest, g.removeNode id = .ok (node, rest) := by
  obtain ⟨slot, hs⟩ := List.mem_iff_getElem?.mp hid
  have hi := (hw.indexed id slot).mpr hs
  rw [ids, List.getElem?_map, Option.map_eq_some_iff] at hs
  obtain ⟨node, hn, -⟩ := hs
  exact ⟨node, _, removeNode_eq_ok_iff.mpr ⟨slot, hi, hn, rfl⟩⟩

end ShaderGraph

/-! ### Steps -/

/-- The graphs at hand, the nodes that are in none of them, and the supply of numbers. -/
structure Session where
  graphs : List ShaderGraph := []
  held : List Node := []
  supply : Supply := {}

namespace Session

/-- What may be done next: making a node of a family or of a registered definition, opening a graph,
moving a node between its holder and a graph, other edits of a graph, placing a node, letting a node
or a graph go, and bringing a definition into use. Graphs and held nodes are told by where they
stand, and registries and files may be any at every step. -/
inductive Action where
  | create (kind : NodeKind)
  | createNamed (r : Registry) (name : String)
  | opening (source : Source)
  | add (graph slot : Nat)
  | remove (graph : Nat) (id : NodeId)
  | edit (graph : Nat) (e : Edit) (keeps : e.KeepsNodes)
  | arrange (slot : Nat) (position : Position) (extent : Extent)
  | dropNode (slot : Nat)
  | dropGraph (graph : Nat)
  | share (d : Definition)

/-- Takes a new node into the hands. -/
def hold (s : Session) (made : Node × Supply) : Session :=
  { s with held := s.held ++ [made.1], supply := made.2 }

/-- The session behind an action. An action that is refused leaves the graphs as they were; a graph
that cannot be made, or a node that cannot be added, is lost. -/
def act (s : Session) : Action → Session
  | .create kind => s.hold (Node.create kind s.supply)
  | .createNamed r name =>
    match r.createNode name s.supply with
    | .ok made => s.hold made
    | .error _ => s
  | .opening source =>
    let made := source.make s.supply
    { s with graphs := s.graphs ++ made.1.toOption.toList, supply := made.2 }
  | .add graph slot =>
    match s.graphs[graph]?, s.held[slot]? with
    | some g, some node =>
      let held := s.held.eraseIdx slot
      match g.addNode node with
      | .ok g => { s with graphs := s.graphs.set graph g, held := held }
      | .error _ => { s with held := held }
    | _, _ => s
  | .remove graph id =>
    match s.graphs[graph]? with
    | some g =>
      match g.removeNode id with
      | .ok (node, rest) =>
        { s with graphs := s.graphs.set graph rest, held := s.held ++ [node] }
      | .error _ => s
    | none => s
  | .edit graph e _ =>
    match s.graphs[graph]? with
    | some g => { s with graphs := s.graphs.set graph (g.edit e) }
    | none => s
  | .arrange slot position extent =>
    { s with held := s.held.modify slot (·.arrange position extent) }
  | .dropNode slot => { s with held := s.held.eraseIdx slot }
  | .dropGraph graph => { s with graphs := s.graphs.eraseIdx graph }
  | .share d => { s with supply := (s.supply.share d).2 }

/-- The numbers of the nodes that an action makes, in order, also of those that are lost with a graph
that cannot be made. -/
def made (s : Session) : Action → List NodeId
  | .create kind => [(Node.create kind s.supply).1.id]
  | .createNamed r name => ((r.createNode name s.supply).toOption.map (·.1.id)).toList
  | .opening source => source.taken s.supply
  | _ => []

/-- A graph refuses a node in the action because it has the number of another. -/
def Clashes (s : Session) : Action → Prop
  | .add graph slot => ∃ g node id, s.graphs[graph]? = some g ∧ s.held[slot]? = some node ∧
      g.addNode node = .error (.duplicateNode id)
  | .opening source => ∃ e, (source.make s.supply).1 = .error e ∧ e.IsDuplicate
  | _ => False

/-- The session behind actions one after the other, from the start of the program. -/
def run (actions : List Action) : Session :=
  actions.foldl act {}

/-- The numbers of the nodes that actions make, in order. -/
def log (s : Session) : List Action → List NodeId
  | [] => []
  | a :: actions => s.made a ++ (s.act a).log actions

/-- The numbers of the nodes that live, in the hands or in graphs. -/
def live (s : Session) : List NodeId :=
  s.held.map (·.id) ++ s.graphs.flatMap (·.ids)

/-- What is at hand after some numbers were given: the supply goes on behind them, and the nodes that
live have different ones of them. -/
structure Sound (s : Session) (given : List NodeId) : Prop where
  numbered : given = idsFrom 1 given.length
  next : s.supply.nextNode = 1 + .ofNat given.length
  wellFormed : ∀ g ∈ s.graphs, g.WellFormed
  nodup : s.live.Nodup
  known : s.live ⊆ given

/-- What an action does: it makes nodes under the next numbers, leaves only well-formed graphs, and no
node lives behind it that did not live before or was made. -/
structure Step (s s' : Session) (made : List NodeId) : Prop where
  numbered : made = idsFrom s.supply.nextNode made.length
  next : s'.supply.nextNode = s.supply.nextNode + .ofNat made.length
  wellFormed : ∀ g ∈ s'.graphs, g.WellFormed
  live : s'.live.Subperm (s.live ++ made)

variable {s s' : Session} {graphs : List ShaderGraph} {given : List NodeId}

/-- An action that makes no nodes. -/
theorem Step.quiet (hw : ∀ g ∈ s'.graphs, g.WellFormed) (hl : s'.live.Subperm s.live)
    (hn : s'.supply.nextNode = s.supply.nextNode) : Step s s' [] :=
  ⟨rfl, hn.trans (UInt32.add_zero _).symm, hw, by rwa [List.append_nil]⟩

/-- One graph is put in the place of another. -/
private theorem perm_ids_set {graph : Nat} {g g' : ShaderGraph} {more fewer : List NodeId}
    (hg : graphs[graph]? = some g) (h : (g'.ids ++ more).Perm (g.ids ++ fewer)) :
    ((graphs.set graph g').flatMap (·.ids) ++ more).Perm (graphs.flatMap (·.ids) ++ fewer) := by
  obtain ⟨hlt, rfl⟩ := List.getElem?_eq_some_iff.mp hg
  obtain ⟨front, back, hsplit, -, hset⟩ : ∃ front back, graphs = front ++ graphs[graph] :: back ∧
      front.length = graph ∧ graphs.set graph g' = front ++ g' :: back := List.exists_of_set hlt
  rw [hset]
  generalize graphs[graph] = g at *
  subst hsplit
  rw [List.perm_iff_count] at h ⊢
  intro id
  have hid := h id
  simp only [List.flatMap_append, List.flatMap_cons, List.count_append] at hid ⊢
  omega

private theorem wellFormed_set (hw : ∀ g ∈ graphs, g.WellFormed) {graph : Nat} {g' : ShaderGraph}
    (hg : g'.WellFormed) : ∀ g ∈ graphs.set graph g', g.WellFormed := by
  intro g hm
  rcases List.mem_or_eq_of_mem_set hm with hm | rfl
  · exact hw g hm
  · exact hg

section

variable (hw : ∀ g ∈ s.graphs, g.WellFormed)

include hw

private theorem step_hold (kind : NodeKind) :
    Step s (s.hold (Node.create kind s.supply)) [s.supply.nextNode] := by
  refine ⟨(idsFrom_one _).symm, rfl, hw, List.Perm.subperm ?_⟩
  simp only [live, hold, List.map_append, List.append_assoc]
  exact List.perm_append_comm.append_left _

private theorem step_opening (source : Source) :
    Step s (s.act (.opening source)) (source.taken s.supply) := by
  obtain ⟨hnumbered, hnext, hgraph, -⟩ := source.taken_make s.supply
  rw [act]
  generalize source.make s.supply = made at hnext hgraph ⊢
  obtain ⟨result, supply⟩ := made
  cases result with
  | error e =>
    refine ⟨hnumbered, hnext, by simpa [Except.toOption] using hw, ?_⟩
    exact (List.Sublist.subperm (by simp [live, Except.toOption]))
  | ok g =>
    obtain ⟨hg, hids⟩ := hgraph g rfl
    refine ⟨hnumbered, hnext, ?_, List.Perm.subperm (.of_eq ?_)⟩
    · simpa [Except.toOption, or_imp, forall_and] using ⟨hw, hg⟩
    · simp [live, Except.toOption, hids]

private theorem step_add (graph slot : Nat) : Step s (s.act (.add graph slot)) [] := by
  rw [act]
  split
  · next g node hg hnode =>
    obtain ⟨hlt, rfl⟩ := List.getElem?_eq_some_iff.mp hnode
    simp only
    split
    · next g' ha =>
      obtain ⟨hid, rfl⟩ := addNode_eq_ok_iff.mp ha
      have hg' := hw g (List.mem_of_getElem? hg)
      refine .quiet (wellFormed_set hw (hg'.push (hg'.hasNode_eq_false_iff.mp hid)))
        (List.Perm.subperm ?_) rfl
      have hids : ((g.push s.held[slot]).ids ++ []).Perm (g.ids ++ [s.held[slot].id]) := by
        rw [ids_push, List.append_nil]
      have hgraphs := perm_ids_set hg hids
      have hheld := (List.getElem_cons_eraseIdx_perm hlt).map (·.id)
      rw [List.perm_iff_count] at hgraphs hheld ⊢
      intro id
      have hgraphs := hgraphs id
      have hheld := hheld id
      simp only [live, List.map_cons, List.count_cons, List.count_append, List.count_nil] at *
      omega
    · refine .quiet hw (List.Sublist.subperm ?_) rfl
      exact ((List.eraseIdx_sublist s.held slot).map _).append_right _
  · exact .quiet hw (List.Subperm.refl _) rfl

private theorem step_remove (graph : Nat) (id : NodeId) :
    Step s (s.act (.remove graph id)) [] := by
  rw [act]
  split
  · next g hg =>
    split
    · next node rest hr =>
      obtain ⟨hrest, rfl, hid, hids⟩ := (hw g (List.mem_of_getElem? hg)).removeNode hr
      refine .quiet (wellFormed_set hw hrest) (List.Perm.subperm ?_) rfl
      have hback : (rest.ids ++ [node.id]).Perm (g.ids ++ []) := by
        rw [hids, List.append_nil]
        exact List.perm_append_comm.trans (List.perm_cons_erase hid).symm
      have hgraphs := perm_ids_set hg hback
      rw [List.append_nil] at hgraphs
      simp only [live, List.map_append, List.append_assoc]
      exact (List.perm_append_comm.trans hgraphs).append_left _
    · exact .quiet hw (List.Subperm.refl _) rfl
  · exact .quiet hw (List.Subperm.refl _) rfl

private theorem step_edit (graph : Nat) {e : Edit} (he : e.KeepsNodes) :
    Step s (s.act (.edit graph e he)) [] := by
  rw [act]
  split
  · next g hg =>
    have hg' := hw g (List.mem_of_getElem? hg)
    refine .quiet (wellFormed_set hw (hg'.edit e)) (List.Perm.subperm ?_) rfl
    have hids : ((g.edit e).ids ++ []).Perm (g.ids ++ []) := by rw [ids_edit hg' he]
    have hgraphs := perm_ids_set hg hids
    rw [List.append_nil, List.append_nil] at hgraphs
    exact hgraphs.append_left _
  · exact .quiet hw (List.Subperm.refl _) rfl

theorem step_act (a : Action) : Step s (s.act a) (s.made a) := by
  cases a with
  | create kind => exact step_hold hw kind
  | createNamed r name =>
    rw [act, made, Registry.createNode]
    cases r.get? name with
    | none => exact .quiet hw (List.Subperm.refl _) rfl
    | some d => exact step_hold hw (.custom d)
  | opening source => exact step_opening hw source
  | add graph slot => exact step_add hw graph slot
  | remove graph id => exact step_remove hw graph id
  | edit graph e he => exact step_edit hw graph he
  | arrange slot position extent =>
    have hid : ∀ node : Node, (node.arrange position extent).id = node.id := fun _ ↦ rfl
    have hids := map_modify_eq hid s.held slot
    exact .quiet hw (List.Perm.subperm (.of_eq (congrArg (· ++ _) hids))) rfl
  | dropNode slot =>
    refine .quiet hw (List.Sublist.subperm ?_) rfl
    exact ((List.eraseIdx_sublist s.held slot).map _).append_right _
  | dropGraph graph =>
    have hsub := List.eraseIdx_sublist s.graphs graph
    refine .quiet (fun g hg ↦ hw g (hsub.subset hg)) (List.Sublist.subperm ?_) rfl
    exact (hsub.flatMap _).append_left _
  | share d => exact .quiet hw (List.Subperm.refl _) rfl

end

/-- Every action keeps what is at hand sound, as long as there are numbers. -/
theorem Sound.act (h : s.Sound given) (a : Action)
    (hle : (given ++ s.made a).length ≤ 2 ^ 32) : (s.act a).Sound (given ++ s.made a) := by
  obtain ⟨hnumbered, hnext, hwellFormed, hlive⟩ := step_act h.wellFormed a
  have hgiven : given ++ s.made a = idsFrom 1 (given ++ s.made a).length := by
    rw [List.length_append, idsFrom_add, ← h.numbered, ← h.next, ← hnumbered]
  have hnodup : (given ++ s.made a).Nodup := hgiven ▸ nodup_idsFrom 1 hle
  have hall : (s.live ++ s.made a).Nodup :=
    List.nodup_append.mpr ⟨h.nodup, hnodup.of_append_right, fun id hl other hm ↦
      (List.nodup_append.mp hnodup).2.2 id (h.known hl) other hm⟩
  refine ⟨hgiven, ?_, hwellFormed, ?_, fun id hid ↦ ?_⟩
  · rw [hnext, h.next, List.length_append, UInt32.ofNat_add, UInt32.add_assoc]
  · obtain ⟨kept, hperm, hsub⟩ := hlive
    exact hperm.nodup_iff.mp (hall.sublist hsub)
  · rcases List.mem_append.mp (hlive.subset hid) with hl | hm
    · exact List.mem_append_left _ (h.known hl)
    · exact List.mem_append_right _ hm

theorem sound_start : Sound {} [] :=
  ⟨rfl, rfl, fun _ hg ↦ absurd hg List.not_mem_nil, List.nodup_nil, List.Subset.refl _⟩

theorem log_append (before after : List Action) :
    s.log (before ++ after) = s.log before ++ (before.foldl act s).log after := by
  induction before generalizing s with
  | nil => rfl
  | cons a before ih => rw [List.cons_append, log, log, ih, List.append_assoc, List.foldl_cons]

/-- Every sequence of actions keeps what is at hand sound, as long as there are numbers. -/
theorem Sound.run (h : s.Sound given) (actions : List Action)
    (hle : (given ++ s.log actions).length ≤ 2 ^ 32) :
    (actions.foldl Session.act s).Sound (given ++ s.log actions) := by
  induction actions generalizing s given with
  | nil => rwa [log, List.append_nil]
  | cons a actions ih =>
    rw [log, ← List.append_assoc] at hle ⊢
    refine ih (h.act a ?_) hle
    rw [List.length_append] at hle
    omega

/-- No graph has the number of a held node, so it takes the node. -/
theorem Sound.addNode (h : s.Sound given) {g : ShaderGraph} (hg : g ∈ s.graphs) {node : Node}
    (hn : node ∈ s.held) : g.addNode node = .ok (g.push node) := by
  refine addNode_eq_ok_iff.mpr ⟨(h.wellFormed g hg).hasNode_eq_false_iff.mpr fun hid ↦ ?_, rfl⟩
  have hgraph : node.id ∈ s.graphs.flatMap (·.ids) := List.mem_flatMap.mpr ⟨g, hg, hid⟩
  exact (List.nodup_append.mp h.nodup).2.2 _ (List.mem_map_of_mem hn) _ hgraph rfl

/-- No action clashes while there are numbers. -/
theorem Sound.not_clashes (h : s.Sound given) {a : Action}
    (hle : (s.made a).length ≤ 2 ^ 32) : ¬ s.Clashes a := by
  cases a with
  | add graph slot =>
    rintro ⟨g, node, id, hg, hn, ha⟩
    rw [h.addNode (List.mem_of_getElem? hg) (List.mem_of_getElem? hn)] at ha
    cases ha
  | opening source =>
    rintro ⟨e, he, hd⟩
    exact (source.taken_make s.supply).fresh hle e he hd
  | _ => exact id

/-- A node that is taken out of a graph keeps its number and is taken by every graph. -/
theorem Sound.removeNode (h : s.Sound given) (hle : given.length ≤ 2 ^ 32) {graph : Nat}
    {g : ShaderGraph} (hg : s.graphs[graph]? = some g) {id : NodeId} (hid : id ∈ g.ids) :
    ∃ node rest, g.removeNode id = .ok (node, rest) ∧ node.id = id ∧ rest.ids = g.ids.erase id ∧
      ∀ other ∈ s.graphs.set graph rest, other.addNode node = .ok (other.push node) := by
  have hw := h.wellFormed g (List.mem_of_getElem? hg)
  obtain ⟨node, rest, hr⟩ := hw.exists_removeNode hid
  obtain ⟨-, hnode, -, hrest⟩ := hw.removeNode hr
  refine ⟨node, rest, hr, hnode, hrest, fun other ho ↦ ?_⟩
  have hs : (s.act (.remove graph id)).Sound (given ++ []) :=
    h.act _ (by rwa [show s.made (.remove graph id) = [] from rfl, List.append_nil])
  have hact : s.act (.remove graph id) =
      { s with graphs := s.graphs.set graph rest, held := s.held ++ [node] } := by
    simp only [Session.act, hg, hr]
  rw [hact] at hs
  exact hs.addNode ho (List.mem_append_right _ (List.mem_singleton_self node))

/-- In a session that makes fewer nodes than there are words, the nodes that live have different
numbers. Numbers are given from the first on in the order of creation, so none is given again, and
no graph ever refuses a node for its number. A node that is taken out keeps its number, the others
keep their order, and every graph takes the node again and has it last. -/
theorem ids_of_run {actions : List Action} (h : (log {} actions).length < 2 ^ 32) :
    (run actions).live.Nodup ∧
      (log {} actions).map UInt32.toNat = List.range' 1 (log {} actions).length ∧
      (run actions).live ⊆ log {} actions ∧
      (∀ before a after, actions = before ++ a :: after → ¬ (run before).Clashes a) ∧
      (∀ g ∈ (run actions).graphs, ∀ node ∈ (run actions).held,
        ∃ g', g.addNode node = .ok g' ∧ g'.nodes = g.nodes ++ [node]) ∧
      ∀ graph g, (run actions).graphs[graph]? = some g → ∀ id ∈ g.ids,
        ∃ node rest, g.removeNode id = .ok (node, rest) ∧ node.id = id ∧
          rest.ids = g.ids.erase id ∧ ∀ other ∈ (run actions).graphs.set graph rest,
            ∃ back, other.addNode node = .ok back ∧ back.nodes = other.nodes ++ [node] := by
  have hs : (run actions).Sound (log {} actions) := sound_start.run actions h.le
  refine ⟨hs.nodup, ?_, hs.known, ?_, fun g hg node hn ↦ ⟨_, hs.addNode hg hn, rfl⟩, ?_⟩
  · conv_lhs => rw [hs.numbered]
    exact map_toNat_idsFrom h
  · rintro before a after rfl
    rw [log_append, log, List.length_append, List.length_append] at h
    have hbefore : (run before).Sound (log {} before) := sound_start.run before (by
      rw [List.nil_append]
      omega)
    exact hbefore.not_clashes (by rw [run]; omega)
  · intro graph g hg id hid
    obtain ⟨node, rest, hr, hnode, hrest, hadd⟩ := hs.removeNode h.le hg hid
    exact ⟨node, rest, hr, hnode, hrest, fun other ho ↦ ⟨_, hadd other ho, rfl⟩⟩

/-- A document that is refused when both of its nodes are made: one input is fed twice. -/
def overfed : GraphDocument :=
  wired [⟨3, 0, 9, 1⟩, ⟨3, 0, 9, 1⟩]

private theorem ofString?_overfed :
    GraphDocument.ofString? overfed.toJson.document = some overfed := by
  rw [GraphDocument.ofString?, Json.Value.ofString?_document overfed.proper_toJson]
  decide +kernel

/-- A material, a text that is loaded, another node and another graph, and a node of the material that
moves there. -/
def moving (text : String) : List Action :=
  [.opening .material, .opening (.text text .empty), .create (.math .add), .opening (.empty "Other"),
    .remove 0 2, .add 1 1]

-- The text is a variable here, so that nothing tries to read it by evaluation.
private theorem log_moving {text : String} (h : GraphDocument.ofString? text = some overfed) :
    log {} (moving text) = [1, 2, 3, 4, 5, 6, 7, 8, 9, 10, 11] := by
  simp only [moving, log, made, act, Source.taken, Source.make, takenByText, ofString, h]
  decide +kernel

private theorem live_moving {text : String} (h : GraphDocument.ofString? text = some overfed) :
    (run (moving text)).live = [11, 1, 3, 4, 5, 6, 7, 8, 2] := by
  simp only [moving, run, List.foldl_cons, List.foldl_nil, act, Source.make, ofString, h]
  decide +kernel

/-- The load that fails takes the numbers 9 and 10, and the node 2 is the last one behind the others
when it has moved. -/
theorem ids_of_run_moving :
    (log {} (moving overfed.toJson.document)).map UInt32.toNat = List.range' 1 11 ∧
      (run (moving overfed.toJson.document)).live = [11, 1, 3, 4, 5, 6, 7, 8, 2] ∧
        (run (moving overfed.toJson.document)).live.Nodup := by
  have hlog := log_moving ofString?_overfed
  have hlt : (log {} (moving overfed.toJson.document)).length < 2 ^ 32 := by
    rw [hlog]
    decide
  obtain ⟨hnodup, hnumbers, -⟩ := ids_of_run hlt
  refine ⟨?_, live_moving ofString?_overfed, hnodup⟩
  rw [hnumbers, hlog]
  rfl

end Session

end RenderKit
