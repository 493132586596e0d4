import RenderKit.Proofs.Document.Reloading

/-!
# Layouts are kept

A finite coordinate is read back from a document as it was, so what is loaded from the text of a
graph has the layout of the graph (`layout_of_ofString`), and so has what any number of such steps
leads to. A reachable graph that can be stored can be saved and loaded as often as one likes
(`exists_cycled`).
-/

namespace RenderKit

open Json

/-! ### Records -/

theorem Position.Finite.ofJson?_toJson {p : Position} (h : p.Finite) :
    Position.ofJson? p.toJson = some p := by
  rw [ofJson?, toJson, Value.fields?_record (by rfl) (by decide)]
  simp [Value.binary32?_ofBinary32 h.x, Value.binary32?_ofBinary32 h.y]

theorem Extent.Finite.ofJson?_toJson {e : Extent} (h : e.Finite) :
    Extent.ofJson? e.toJson = some e := by
  rw [ofJson?, toJson, Value.fields?_record (by rfl) (by decide)]
  simp [Value.binary32?_ofBinary32 h.width, Value.binary32?_ofBinary32 h.height]

/-- A node that is read back is as it was. -/
theorem NodeRecord.eq_of_ofJson? {n m : NodeRecord} (h : ofJson? n.toJson = some m) : m = n := by
  have hfinite := exists_ofJson?_iff.mp ⟨m, h⟩
  rw [NodeRecord.ofJson?_toJson, hfinite.position.ofJson?_toJson,
    hfinite.extent.ofJson?_toJson] at h
  cases h
  rfl

/-- The nodes of a document that is read back are as they were. -/
theorem GraphDocument.nodes_eq_of_ofString? {d e : GraphDocument}
    (h : ofString? d.toJson.document = some e) : e.nodes = d.nodes := by
  have hnodes := (nodes_of_ofString? h).imp fun _ _ ↦ NodeRecord.eq_of_ofJson?
  rw [List.forall₂_eq_eq_eq.symm]
  exact hnodes.flip

/-! ### Graphs -/

/-- Where a node stands and how large it is. -/
def Node.place (node : Node) : Position × Extent :=
  (node.position, node.extent)

/-- Where the node of a record is to stand and how large it is to be. -/
def NodeRecord.place (record : NodeRecord) : Position × Extent :=
  (record.position, record.extent)

namespace ShaderGraph

/-- The places of the nodes in order. -/
def layout (g : ShaderGraph) : List (Position × Extent) :=
  g.nodes.map Node.place

@[simp] theorem layout_push (g : ShaderGraph) (node : Node) :
    (g.push node).layout = g.layout ++ [node.place] :=
  List.map_append

@[simp] theorem layout_syncPins (g : ShaderGraph) (id : NodeId) :
    (g.syncPins id).layout = g.layout := by
  rw [syncPins, modifyNode]
  have hsame (node : Node) : (marked g.connections node).place = node.place := rfl
  split
  · exact map_modify_eq hsame _ _
  · rfl

@[simp] theorem layout_link (g : ShaderGraph) (c : Connection) : (g.link c).layout = g.layout := by
  rw [link, layout_syncPins, layout_syncPins]
  rfl

theorem finiteLayout_iff {g : ShaderGraph} :
    g.FiniteLayout ↔ ∀ place ∈ g.layout, place.1.Finite ∧ place.2.Finite := by
  rw [layout, List.forall_mem_map]
  exact Iff.rfl

end ShaderGraph

/-- Loading nodes puts their layouts behind each other. -/
theorem Loading.layout_addNodes {r : Registry} {records : List NodeRecord} {l l' : Loading}
    (h : records.foldlM (Loading.addNode r) l = .ok l') :
    l'.graph.layout = l.graph.layout ++ records.map NodeRecord.place := by
  induction records generalizing l with
  | nil =>
    cases h
    exact (List.append_nil _).symm
  | cons record records ih =>
    rw [List.foldlM_cons, bind_eq_ok_iff] at h
    obtain ⟨next, hnext, hrest⟩ := h
    obtain ⟨kind, -, hadd⟩ := exists_of_addNode hnext
    obtain ⟨-, hgraph⟩ := ShaderGraph.addNode_eq_ok_iff.mp hadd
    rw [ih hrest, hgraph, ShaderGraph.layout_push, List.append_assoc]
    rfl

namespace ShaderGraph

/-- What is loaded from a document has the layout of its records. -/
theorem layout_of_ofDocument {d : GraphDocument} {r : Registry} {supply : Supply} {g : ShaderGraph}
    (h : (ofDocument d r supply).1 = .ok g) :
    g.layout = d.nodes.map NodeRecord.place := by
  rw [ofDocument] at h
  split at h
  · cases h
  simp only at h
  split at h
  · cases h
  next loaded hnodes =>
    obtain ⟨joined, hjoined, rfl⟩ := map_eq_ok_iff.mp h
    have hlayout := Loading.layout_addNodes hnodes
    refine foldlM_invariant (P := fun l ↦ l.graph.layout = _) hjoined hlayout ?_
    intro record _ l l' hl hconnect
    obtain ⟨source, target, hc⟩ := Loading.exists_of_connect hconnect
    obtain ⟨-, hgraph⟩ := connect_eq_ok_iff.mp hc
    rw [hgraph, layout_link, hl]

/-- What is loaded from the text of a graph has its layout. -/
theorem layout_of_ofString {g copy : ShaderGraph} {now : Time.Instant} {r : Registry}
    {supply : Supply} (h : (ofString (g.documentText now) r supply).1 = .ok copy) :
    copy.layout = g.layout := by
  rw [ofString] at h
  split at h
  · next d hd =>
    rw [layout_of_ofDocument h, GraphDocument.nodes_eq_of_ofString? hd]
    exact List.map_map
  · cases h

/-! ### Saving and loading again and again -/

/-- A graph that is saved and loaded several times, each time at a moment and with the numbers of a
supply. -/
def cycled (r : Registry) (cycles : List (Time.Instant × Supply)) (g : ShaderGraph) :
    Except DocumentError ShaderGraph :=
  cycles.foldlM (fun g cycle => (ofString (g.documentText cycle.1) r cycle.2).1) g

/-- However often a graph is saved and loaded, its layout stays. -/
theorem layout_of_cycled {r : Registry} {cycles : List (Time.Instant × Supply)}
    {g copy : ShaderGraph} (h : g.cycled r cycles = .ok copy) : copy.layout = g.layout := by
  refine foldlM_invariant (P := fun other ↦ other.layout = g.layout) h rfl ?_
  intro cycle _ other next hother hnext
  exact (layout_of_ofString hnext).trans hother

/-- A copy has the families of its original. -/
theorem CopiedTo.kinds_eq {φ : NodeId → NodeId} {g copy : ShaderGraph} (h : g.CopiedTo φ copy) :
    copy.kinds = g.kinds := by
  rw [kinds, kinds, ← List.forall₂_eq_eq_eq, List.forall₂_map_left_iff, List.forall₂_map_right_iff]
  exact (h.nodes.imp fun _ _ hn ↦ hn.kind).flip

/-- A graph that can be saved and loaded again. -/
structure Keepable (r : Registry) (g : ShaderGraph) : Prop extends g.Storable r where
  reachable : Reachable Node.Created g
  finite : g.FiniteLayout

/-- What can be saved is loaded as something that can be saved. -/
theorem Keepable.exists_ofString {r : Registry} {g : ShaderGraph} (h : g.Keepable r)
    {now : Time.Instant} (hnow : now.Regular) (supply : Supply) :
    ∃ copy, (ofString (g.documentText now) r supply).1 = .ok copy ∧ copy.Keepable r := by
  have hwritable := writable_ofGraph h.finite h.indexed h.created hnow
  obtain ⟨records, hread, hrecords⟩ := hwritable.exists_ofString?
  have hregistered : ∀ node ∈ g.nodes, ∀ d, node.kind = .custom d → r.get? d.name = some d :=
    fun node hn d hkind ↦ h.registered d (hkind ▸ List.mem_map_of_mem hn)
  obtain ⟨copy, hcopy, hcopied, hcreated⟩ := exists_ofDocument h.reachable hregistered supply now
    hrecords
  have hload : (ofString (g.documentText now) r supply).1 = .ok copy := by
    rw [ofString, documentText, hread]
    exact hcopy
  refine ⟨copy, hload, ⟨?_, ?_, ?_⟩, .loaded hcopy, ?_⟩
  · intro d hd
    exact h.registered d (hcopied.kinds_eq ▸ hd)
  · intro t ht
    rw [hcreated] at ht
    cases hg : g.created with
    | none => exact Option.some.inj ht ▸ hg ▸ hnow
    | some created => exact Option.some.inj ht ▸ hg ▸ h.created created hg
  · intro c hc
    rw [hcopied.connections] at hc
    obtain ⟨original, ho, rfl⟩ := List.mem_map.mp hc
    exact ⟨(h.indexed original ho).output_lt, (h.indexed original ho).input_lt⟩
  · rw [finiteLayout_iff, layout_of_ofString hload]
    exact finiteLayout_iff.mp h.finite

/-- What can be saved can be saved and loaded any number of times. -/
theorem Keepable.exists_cycled {r : Registry} {g : ShaderGraph} (h : g.Keepable r)
    {cycles : List (Time.Instant × Supply)} (hnow : ∀ cycle ∈ cycles, cycle.1.Regular) :
    ∃ copy, g.cycled r cycles = .ok copy := by
  induction cycles generalizing g with
  | nil => exact ⟨g, rfl⟩
  | cons cycle cycles ih =>
    obtain ⟨next, hnext, hkeepable⟩ := h.exists_ofString (hnow cycle List.mem_cons_self) cycle.2
    obtain ⟨copy, hcopy⟩ := ih hkeepable fun other ho ↦ hnow other (List.mem_cons_of_mem _ ho)
    refine ⟨copy, ?_⟩
    rw [cycled, List.foldlM_cons, hnext]
    exact hcopy

/-- A finite coordinate is restored from the numeral in the document through the nearest value of 64
bits, unless it is one value or its negative, and always as the numeral is read. So whatever saving
and loading lead to has the layout that was saved, and they can be repeated at will. -/
theorem layout_kept :
    (∀ x : Number.Binary32, x.isFinite = true → ∃ n, x.numeral? = some n ∧
      (x.rank ≠ Number.Binary32.lost.rank → Number.Binary32.throughNearest n = x) ∧
      Number.Binary32.ofNumeral? n = some x) ∧
    (∀ (g copy : ShaderGraph) (r : Registry) (cycles : List (Time.Instant × Supply)),
      g.cycled r cycles = .ok copy → copy.layout = g.layout) ∧
    ∀ (g : ShaderGraph) (r : Registry) (cycles : List (Time.Instant × Supply)), g.Keepable r →
      (∀ cycle ∈ cycles, cycle.1.Regular) → ∃ copy, g.cycled r cycles = .ok copy := by
  refine ⟨fun x hx ↦ ?_, fun g copy r cycles h ↦ layout_of_cycled h, fun g r cycles h hnow ↦ ?_⟩
  · obtain ⟨n, hn, -, hread, hnearest⟩ := Number.Binary32.restored hx
    exact ⟨n, hn, hnearest, hread⟩
  · exact h.exists_cycled hnow

/-- A node at the value that is lost through nearest values, as far to the left as down. -/
def astray : ShaderGraph :=
  ((empty "Astray").push (.ofKind 1 (.math .add))).modifyNode 1 fun node ↦
    node.arrange ⟨{ Number.Binary32.lost with negative := true }, Number.Binary32.lost⟩ .initial

theorem layout_kept_astray :
    (∃ n, ({ rank := 1 } : Number.Binary32).numeral? = some n ∧
      Number.Binary32.throughNearest n = { rank := 1 }) ∧
    ∃ copy, astray.cycled .empty
        [(⟨20000, 43200, 0⟩, { nextNode := 7 }), (⟨20001, 0, 0⟩, {})] = .ok copy ∧
      copy.layout =
        [(⟨{ Number.Binary32.lost with negative := true }, Number.Binary32.lost⟩, .initial)] := by
  have hreachable : Reachable Node.Created astray :=
    .arrange 1 _ _ (.push_ofKind (.empty _) (by decide) _)
  have hkeepable : astray.Keepable .empty := by
    refine ⟨⟨fun d hd ↦ ?_, by decide, by decide⟩, hreachable, by decide⟩
    have hkinds : astray.kinds = [.math .add] := rfl
    rw [hkinds, List.mem_singleton] at hd
    cases hd
  obtain ⟨hread, hstay, hrepeat⟩ := layout_kept
  obtain ⟨n, hn, hnearest, -⟩ := hread { rank := 1 } (by decide)
  obtain ⟨copy, hcopy⟩ := hrepeat astray .empty
    [(⟨20000, 43200, 0⟩, { nextNode := 7 }), (⟨20001, 0, 0⟩, {})] hkeepable (by decide)
  exact ⟨⟨n, hn, hnearest (by decide)⟩, copy, hcopy, hstay _ _ _ _ hcopy⟩

end ShaderGraph

end RenderKit
