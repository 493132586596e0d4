import RenderKit.Proofs.Document.Acceptance

/-!
# Numbers that graphs take

Graphs to start from take numbers for their nodes, one after the other from the next of the supply
(`Source.opens`). A load that is refused midway has taken some too (`Loading.taken`), and what it made
is lost.
-/

namespace RenderKit

/-- Numbers one after the other. -/
def idsFrom (first : NodeId) (count : Nat) : List NodeId :=
  (List.range count).map fun i ↦ first + .ofNat i

@[simp] theorem length_idsFrom (first : NodeId) (count : Nat) :
    (idsFrom first count).length = count := by
  rw [idsFrom, List.length_map, List.length_range]

theorem idsFrom_add (first : NodeId) (count more : Nat) :
    idsFrom first (count + more) = idsFrom first count ++ idsFrom (first + .ofNat count) more := by
  rw [idsFrom, List.range_add, List.map_append, List.map_map]
  refine congrArg _ (List.map_congr_left fun i _ ↦ ?_)
  rw [Function.comp_apply, UInt32.ofNat_add, UInt32.add_assoc]

theorem idsFrom_succ (first : NodeId) (count : Nat) :
    idsFrom first (count + 1) = idsFrom first count ++ [first + .ofNat count] := by
  rw [idsFrom, List.range_succ, List.map_append]
  rfl

theorem idsFrom_one (first : NodeId) : idsFrom first 1 = [first] := by
  rw [idsFrom_succ]
  exact congrArg ([·]) (UInt32.add_zero first)

theorem idsFrom_cons (first : NodeId) (count : Nat) :
    idsFrom first (count + 1) = first :: idsFrom (first + 1) count := by
  rw [Nat.add_comm, idsFrom_add, idsFrom_one]
  rfl

/-- Numbers start again only behind the largest. -/
theorem nodup_idsFrom (first : NodeId) {count : Nat} (h : count ≤ 2 ^ 32) :
    (idsFrom first count).Nodup := by
  refine List.nodup_range.map_on fun i hi j hj he ↦ ?_
  rw [List.mem_range] at hi hj
  exact ShaderGraph.add_ofNat_inj (by omega) (by omega) he

/-- The next number is none of those before it. -/
theorem next_not_mem_idsFrom (first : NodeId) {count : Nat} (h : count < 2 ^ 32) :
    first + .ofNat count ∉ idsFrom first count := by
  have hn : (idsFrom first (count + 1)).Nodup := nodup_idsFrom first h
  rw [idsFrom_succ, ← List.concat_eq_append, List.nodup_concat] at hn
  exact hn.1

/-- Numbers from the first on count as far as words reach. -/
theorem map_toNat_idsFrom {count : Nat} (h : count < 2 ^ 32) :
    (idsFrom 1 count).map UInt32.toNat = List.range' 1 count := by
  rw [idsFrom, List.map_map, List.range'_eq_map_range]
  refine List.map_congr_left fun i hi ↦ ?_
  rw [List.mem_range] at hi
  rw [Function.comp_apply, UInt32.toNat_add, UInt32.toNat_ofNat_of_lt' (Nat.lt_trans hi h)]
  exact Nat.mod_eq_of_lt (show 1 + i < 2 ^ 32 by omega)

/-! ### Records of nodes -/

/-- A connection is not refused for the number of a node. -/
theorem ShaderGraph.connect_ne_duplicateNode (g : ShaderGraph) (c : Connection) (id : NodeId) :
    g.connect c ≠ .error (.duplicateNode id) := by
  intro h
  rcases bind_eq_error_iff.mp h with h | ⟨_, -, h⟩
  · rw [checkConnection] at h
    by_cases hne : c.source = c.target
    · simp [hne] at h
    · cases hs : g.node? c.source with
      | none => simp [hne, hs] at h
      | some source =>
        cases ht : g.node? c.target with
        | none => simp [hne, hs, ht] at h
        | some target =>
          simp only [hne, hs, ht, if_false] at h
          repeat' split at h
          all_goals cases h
  · cases h

/-- Only an added node is refused for its number. -/
def DocumentError.IsDuplicate (e : DocumentError) : Prop :=
  ∃ id, e = .graph (.duplicateNode id)

namespace Loading

variable {r : Registry} {l l' : Loading} {first : NodeId} {count : Nat}

/-- The numbers that nodes take for records, up to the first record that is refused. A record whose
family cannot be made takes none. -/
def taken (r : Registry) (l : Loading) : List NodeRecord → List NodeId
  | [] => []
  | record :: records =>
    match record.kind.toKind r with
    | .error _ => []
    | .ok kind =>
      (Node.create kind l.supply).1.id ::
        match l.addNode r record with
        | .error _ => []
        | .ok l' => l'.taken r records

/-- How far loading nodes has come: the graph has the numbers from the first on, and the supply goes
on behind them. -/
structure Counted (l : Loading) (first : NodeId) (count : Nat) : Prop where
  wellFormed : l.graph.WellFormed
  ids : l.graph.ids = idsFrom first count
  next : l.supply.nextNode = first + .ofNat count

theorem not_isDuplicate_of_toKind {record : KindRecord} {e : DocumentError}
    (h : record.toKind r = .error e) : ¬ e.IsDuplicate := by
  have hu : ¬ record.Usable r := fun hu ↦ by
    obtain ⟨kind, hkind⟩ := KindRecord.exists_toKind hu
    rw [h] at hkind
    cases hkind
  obtain ⟨cause, hm⟩ := KindRecord.exists_misfit hu
  rw [hm.toKind_eq_error] at h
  cases h
  rintro ⟨id, rfl⟩
  cases hm

/-- A node is made under the next number, unless it would be one number too many. -/
theorem Counted.addNode (h : l.Counted first count) {record : NodeRecord} {kind : NodeKind}
    (hkind : record.kind.toKind r = .ok kind) :
    (∃ l', l.addNode r record = .ok l' ∧ l'.Counted first (count + 1)) ∨
      ∃ e, l.addNode r record = .error (e, l.supply.afterNode) ∧
        (count < 2 ^ 32 → ¬ e.IsDuplicate) := by
  have hnext : l.supply.afterNode.nextNode = first + .ofNat (count + 1) := by
    rw [Supply.afterNode, h.next, UInt32.ofNat_add, UInt32.add_assoc]
    rfl
  cases hnode : l.graph.hasNode l.supply.nextNode with
  | true =>
    refine .inr ⟨_, addNode_eq_error_of_hasNode hkind hnode, fun hlt ↦ absurd hnode ?_⟩
    rw [Bool.not_eq_true, h.wellFormed.hasNode_eq_false_iff, h.ids, h.next]
    exact next_not_mem_idsFrom first hlt
  | false =>
    cases hlookup : l.ids.lookup record.id with
    | some id =>
      refine .inr ⟨_, addNode_eq_error_of_lookup hkind hnode (by rw [hlookup]; rfl), fun _ ↦ ?_⟩
      rintro ⟨id, he⟩
      cases he
    | none =>
      have hid := h.wellFormed.hasNode_eq_false_iff.mp hnode
      refine .inl ⟨_, addNode_eq_ok hkind hnode hlookup, h.wellFormed.push hid, ?_, hnext⟩
      rw [ShaderGraph.ids_push, h.ids, idsFrom_succ, ← h.next]
      rfl

/-- Records take numbers one after the other, and a node is not refused for its number. -/
theorem Counted.addNodes (h : l.Counted first count) (records : List NodeRecord) :
    l.taken r records = idsFrom (first + .ofNat count) (l.taken r records).length ∧
      (∀ l', records.foldlM (Loading.addNode r) l = .ok l' →
        l'.Counted first (count + (l.taken r records).length)) ∧
      ∀ e later, records.foldlM (Loading.addNode r) l = .error (e, later) →
        later.nextNode = first + .ofNat (count + (l.taken r records).length) ∧
          (count + (l.taken r records).length ≤ 2 ^ 32 → ¬ e.IsDuplicate) := by
  induction records generalizing l count with
  | nil =>
    refine ⟨rfl, fun l' hl ↦ ?_, fun e later he ↦ ?_⟩
    · cases hl
      exact h
    · cases he
  | cons record records ih =>
    rw [List.foldlM_cons]
    cases hkind : record.kind.toKind r with
    | error e =>
      have ht : l.taken r (record :: records) = [] := by simp only [taken, hkind]
      have hrefused : l.addNode r record = .error (e, l.supply) := by
        rw [Loading.addNode, hkind]
        rfl
      rw [ht, hrefused]
      refine ⟨rfl, fun l' hl ↦ ?_, fun e later he ↦ ?_⟩
      · cases hl
      · cases he
        exact ⟨h.next, fun _ ↦ not_isDuplicate_of_toKind hkind⟩
    | ok kind =>
      rcases h.addNode hkind with ⟨l', hl', hcounted⟩ | ⟨e, he, hfresh⟩
      · have ht : l.taken r (record :: records) = l.supply.nextNode :: l'.taken r records := by
          simp only [taken, hkind, hl']
          rfl
        obtain ⟨hids, hdone, hrefused⟩ := ih hcounted
        rw [ht, hl', List.length_cons, ← Nat.add_assoc, Nat.add_right_comm count]
        refine ⟨?_, hdone, hrefused⟩
        rw [idsFrom_cons, UInt32.add_assoc, show (1 : NodeId) = .ofNat 1 from rfl,
          ← UInt32.ofNat_add, ← hids, h.next]
      · have ht : l.taken r (record :: records) = [l.supply.nextNode] := by
          simp only [taken, hkind, he]
          rfl
        rw [ht, he]
        refine ⟨?_, fun l' hl ↦ ?_, fun e' later he' ↦ ?_⟩
        · rw [h.next, List.length_singleton, idsFrom_one]
        · cases hl
        · cases he'
          refine ⟨?_, fun hle ↦ hfresh hle⟩
          rw [Supply.afterNode, h.next, List.length_singleton, UInt32.ofNat_add, UInt32.add_assoc]
          rfl

/-- A connection is not refused for the number of a node that is added. -/
theorem not_isDuplicate_of_connect {c : Connection} {e : DocumentError}
    (h : l.connect c = .error e) : ¬ e.IsDuplicate := by
  rintro ⟨id, rfl⟩
  have hresolve : ∀ id', l.resolve id' ≠ .error (.graph (.duplicateNode id)) := by
    intro id' he
    rw [resolve] at he
    split at he <;> cases he
  rw [connect] at h
  rcases bind_eq_error_iff.mp h with h | ⟨source, -, h⟩
  · exact hresolve _ h
  rcases bind_eq_error_iff.mp h with h | ⟨target, -, h⟩
  · exact hresolve _ h
  rcases bind_eq_error_iff.mp h with h | ⟨_, -, h⟩
  · obtain ⟨cause, hc, he⟩ := mapError_eq_error_iff.mp h
    cases he
    exact ShaderGraph.connect_ne_duplicateNode _ _ _ hc
  · cases h

/-- Connections leave the nodes as they are. -/
theorem connected (hw : l.graph.WellFormed) {connections : List Connection}
    (h : connections.foldlM connect l = .ok l') :
    l'.graph.WellFormed ∧ l'.graph.ids = l.graph.ids := by
  refine foldlM_invariant (P := fun after : Loading ↦ after.graph.WellFormed ∧
    after.graph.ids = l.graph.ids) h ⟨hw, rfl⟩ fun c _ before after ⟨hw, hids⟩ hc ↦ ?_
  obtain ⟨source, target, hc⟩ := exists_of_connect hc
  obtain ⟨⟨hj, hf⟩, hg⟩ := ShaderGraph.connect_eq_ok_iff.mp hc
  rw [hg, ShaderGraph.ids_link]
  exact ⟨hw.link hj hf, hids⟩

end Loading

namespace ShaderGraph

/-- What came of making a graph: the numbers that it took follow the first, they are those of its
nodes if it was made, and none was one too many. -/
structure Taken (first : NodeId) (ids : List NodeId)
    (made : Except DocumentError ShaderGraph × Supply) : Prop where
  numbered : ids = idsFrom first ids.length
  next : made.2.nextNode = first + .ofNat ids.length
  graph : ∀ g, made.1 = .ok g → g.WellFormed ∧ g.ids = ids
  fresh : ids.length ≤ 2 ^ 32 → ∀ e, made.1 = .error e → ¬ e.IsDuplicate

/-- What takes no numbers. -/
theorem Taken.nil {supply : Supply} {made : Except DocumentError ShaderGraph}
    (graph : ∀ g, made = .ok g → g.WellFormed ∧ g.ids = [])
    (fresh : ∀ e, made = .error e → ¬ e.IsDuplicate) :
    Taken supply.nextNode [] (made, supply) :=
  ⟨rfl, (UInt32.add_zero _).symm, graph, fun _ ↦ fresh⟩

/-- Channels take their numbers one after the other. -/
private theorem ids_channels (channels : List ((String × OutputSemantic) × Nat)) (g : ShaderGraph)
    (supply : Supply) :
    (channels.foldl addChannel (g, supply)).1.ids =
        g.ids ++ idsFrom supply.nextNode (2 * channels.length) ∧
      (channels.foldl addChannel (g, supply)).2.nextNode =
        supply.nextNode + .ofNat (2 * channels.length) := by
  induction channels generalizing g supply with
  | nil => exact ⟨(List.append_nil _).symm, (UInt32.add_zero _).symm⟩
  | cons channel channels ih =>
    have hids := ids_addChannel g supply channel
    have hnext : (addChannel (g, supply) channel).2.nextNode = supply.nextNode + 1 + 1 := rfl
    obtain ⟨hids', hnext'⟩ := ih (addChannel (g, supply) channel).1 (addChannel (g, supply) channel).2
    rw [List.foldl_cons, List.length_cons, Nat.mul_succ]
    refine ⟨hids'.trans ?_, hnext'.trans ?_⟩
    · rw [hids, hnext, idsFrom_cons, idsFrom_cons, List.append_assoc]
      rfl
    · rw [hnext, Nat.add_comm, UInt32.ofNat_add, ← UInt32.add_assoc, UInt32.add_assoc supply.nextNode]
      rfl

/-- The numbers that the records of a document take. -/
def takenByDocument (d : GraphDocument) (r : Registry) (supply : Supply) : List NodeId :=
  if d.version ≠ GraphDocument.formatVersion then [] else (Loading.start d supply).taken r d.nodes

/-- The numbers that the records in a text take. -/
def takenByText (text : String) (r : Registry) (supply : Supply) : List NodeId :=
  match GraphDocument.ofString? text with
  | some d => takenByDocument d r supply
  | none => []

theorem taken_ofDocument (d : GraphDocument) (r : Registry) (supply : Supply) :
    Taken supply.nextNode (takenByDocument d r supply) (ofDocument d r supply) := by
  by_cases hv : d.version = GraphDocument.formatVersion
  · have hstart : (Loading.start d supply).Counted supply.nextNode 0 :=
      ⟨.empty _ _, rfl, (UInt32.add_zero _).symm⟩
    obtain ⟨hids, hdone, hrefused⟩ := hstart.addNodes (r := r) d.nodes
    simp only [Nat.zero_add] at hdone hrefused
    have hnumbered : (Loading.start d supply).taken r d.nodes =
        idsFrom supply.nextNode ((Loading.start d supply).taken r d.nodes).length :=
      hids.trans (congrArg (idsFrom · _) (UInt32.add_zero supply.nextNode))
    rw [takenByDocument, if_neg (not_not_intro hv)]
    cases hnodes : d.nodes.foldlM (Loading.addNode r) (.start d supply) with
    | error refusal =>
      obtain ⟨cause, later⟩ := refusal
      obtain ⟨hnext, hfresh⟩ := hrefused cause later hnodes
      rw [ofDocument_of_nodes_error hv hnodes]
      refine ⟨hnumbered, hnext, fun g hg ↦ ?_, fun hle e he ↦ ?_⟩
      · cases hg
      · cases he
        exact hfresh hle
    | ok l =>
      have hl := hdone l hnodes
      rw [ofDocument_of_nodes hv hnodes]
      refine ⟨hnumbered, hl.next, fun g hg ↦ ?_, fun _ e he ↦ ?_⟩
      · obtain ⟨l', hl', rfl⟩ := map_eq_ok_iff.mp hg
        rw [hnumbered, ← hl.ids]
        exact Loading.connected hl.wellFormed hl'
      · have he' := map_eq_error_iff.mp he
        obtain ⟨c, -, l', -, hc⟩ := exists_of_foldlM_error (P := fun _ ↦ True) he' trivial
          fun _ _ _ _ _ _ ↦ trivial
        exact Loading.not_isDuplicate_of_connect hc
  · rw [takenByDocument, if_pos hv, ofDocument, if_pos hv]
    refine .nil (fun g hg ↦ ?_) fun e he ↦ ?_
    · cases hg
    · cases he
      rintro ⟨id, he⟩
      cases he

theorem taken_ofString (text : String) (r : Registry) (supply : Supply) :
    Taken supply.nextNode (takenByText text r supply) (ofString text r supply) := by
  rw [takenByText, ofString]
  cases GraphDocument.ofString? text with
  | some d => exact taken_ofDocument d r supply
  | none =>
    refine .nil (fun g hg ↦ ?_) fun e he ↦ ?_
    · cases hg
    · cases he
      rintro ⟨id, he⟩
      cases he

/-- Where a graph to start from comes from. -/
inductive Source where
  | empty (name : String)
  | material
  | text (content : String) (r : Registry)
  | file (files : FileTree) (path : String) (r : Registry)

/-- Makes the graph of a source, if it can be made. -/
def Source.make (supply : Supply) : Source → Except DocumentError ShaderGraph × Supply
  | .empty name => (.ok (.empty name), supply)
  | .material => ((.ok (standardMaterial supply).1), (standardMaterial supply).2)
  | .text content r => ofString content r supply
  | .file files path r => load files path r supply

/-- The numbers that nodes take when the graph of a source is made, or as far as it is made. -/
def Source.taken (supply : Supply) : Source → List NodeId
  | .empty _ => []
  | .material => (standardMaterial supply).1.ids
  | .text content r => takenByText content r supply
  | .file files path r =>
    match files.read path with
    | .ok content => takenByText content r supply
    | .error _ => []

/-- Every source takes the next numbers in order, and adds no node under a number that is taken. -/
theorem Source.taken_make (source : Source) (supply : Supply) :
    Taken supply.nextNode (source.taken supply) (source.make supply) := by
  cases source with
  | empty name =>
    refine .nil (fun g hg ↦ ?_) nofun
    cases hg
    exact ⟨.empty name none, rfl⟩
  | material =>
    obtain ⟨hids, hnext⟩ := ids_channels materialChannels.zipIdx (.empty "Default PBR") supply
    have hids' : (standardMaterial supply).1.ids = idsFrom supply.nextNode 8 := hids
    refine ⟨?_, ?_, fun g hg ↦ ?_, fun _ ↦ nofun⟩
    · rw [Source.taken, hids', length_idsFrom]
    · rw [Source.taken, hids', length_idsFrom]
      exact hnext
    · cases hg
      have hg : Reachable Node.Created (standardMaterial supply).1 := .material supply
      exact ⟨hg.wellFormed, rfl⟩
  | text content r => exact taken_ofString content r supply
  | file files path r =>
    rw [Source.taken, Source.make, load]
    cases files.read path with
    | ok content => exact taken_ofString content r supply
    | error cause =>
      refine .nil nofun fun e he ↦ ?_
      cases he
      rintro ⟨id, he⟩
      cases he

end ShaderGraph

end RenderKit
