import RenderKit.Proofs.Document.Saving
import RenderKit.Proofs.Registry.Reachable

/-!
# Documents that load are saved again

A graph that was loaded from a text can be written and loaded once more, with the same registry,
exactly if its layout is finite (`ofString_documentText`). What a decoder accepts is in the range
of the encoder but for one thing: a coordinate beyond the greatest finite value is read as an
infinite one, which is written as nothing, and nothing is not a coordinate.
-/

namespace RenderKit

open Json

/-! ### What decoders accept -/

namespace Json

theorem Fields.exists_of_required {α : Type} {fields : Fields} {name : String}
    {decode : Value → Option α} {a : α} (h : fields.required name decode = some a) :
    ∃ v, decode v = some a := by
  obtain ⟨v, -, hv⟩ := Option.bind_eq_some_iff.mp h
  exact ⟨v, hv⟩

theorem Fields.eq_or_exists_of_optional {α : Type} {fields : Fields} {name : String} {default : α}
    {decode : Value → Option α} {a : α} (h : fields.optional name default decode = some a) :
    a = default ∨ ∃ v, decode v = some a := by
  rw [optional] at h
  split at h
  · next v _ => exact .inr ⟨v, h⟩
  · exact .inl (Option.some.inj h).symm

theorem Value.lt_of_word64? {v : Value} {n : Nat} (h : v.word64? = some n) :
    n < Number.wordLimit := by
  cases v with
  | number m => simpa using (Option.filter_eq_some_iff.mp h).2
  | _ => cases h

/-- Every item of a list was decoded. -/
theorem Value.exists_of_list? {α : Type} {decode : Value → Option α} {v : Value} {xs : List α}
    (h : v.list? decode = some xs) {x : α} (hx : x ∈ xs) : ∃ item, decode item = some x := by
  cases v with
  | array items =>
    have hitems := mapM_eq_some_iff.mp h
    obtain ⟨i, hi, rfl⟩ := List.mem_iff_getElem.mp hx
    exact ⟨_, hitems.get (hitems.length_eq ▸ hi) hi⟩
  | _ => cases h

end Json

theorem Connection.indexed_of_ofJson? {v : Value} {c : Connection} (h : ofJson? v = some c) :
    c.Indexed := by
  rw [ofJson?] at h
  obtain ⟨fields, -, h⟩ := Option.bind_eq_some_iff.mp h
  obtain ⟨source, -, h⟩ := Option.bind_eq_some_iff.mp h
  obtain ⟨output, ho, h⟩ := Option.bind_eq_some_iff.mp h
  obtain ⟨target, -, h⟩ := Option.bind_eq_some_iff.mp h
  obtain ⟨input, hi, h⟩ := Option.bind_eq_some_iff.mp h
  obtain ⟨_, ho⟩ := Fields.exists_of_required ho
  obtain ⟨_, hi⟩ := Fields.exists_of_required hi
  cases h
  exact ⟨Value.lt_of_word64? ho, Value.lt_of_word64? hi⟩

namespace DocumentMetadata

theorem regular_of_instant? {v : Value} {t : Time.Instant} (h : instant? v = some t) :
    t.Regular := by
  obtain ⟨s, -, h⟩ := Option.bind_eq_some_iff.mp h
  exact Time.Instant.regular_of_ofString? h

theorem regular_of_ofJson? {v : Value} {m : DocumentMetadata} (h : ofJson? v = some m) :
    m.Regular := by
  rw [ofJson?] at h
  obtain ⟨fields, -, h⟩ := Option.bind_eq_some_iff.mp h
  obtain ⟨created, hc, h⟩ := Option.bind_eq_some_iff.mp h
  obtain ⟨modified, hm, h⟩ := Option.bind_eq_some_iff.mp h
  obtain ⟨generator, -, h⟩ := Option.bind_eq_some_iff.mp h
  obtain ⟨_, hc⟩ := Fields.exists_of_required hc
  obtain ⟨_, hm⟩ := Fields.exists_of_required hm
  cases h
  exact ⟨regular_of_instant? hc, regular_of_instant? hm⟩

theorem regular_of_ofOptionalJson? {v : Value} {m : DocumentMetadata}
    (h : ofOptionalJson? v = some (some m)) : m.Regular := by
  unfold ofOptionalJson? at h
  split at h
  · cases h
  · obtain ⟨_, hm, he⟩ := Option.map_eq_some_iff.mp h
    cases he
    exact regular_of_ofJson? hm

end DocumentMetadata

namespace GraphDocument

/-- A document that can be read back wherever its nodes stand. -/
structure Regular (d : GraphDocument) : Prop where
  times : ∀ m, d.metadata = some m → m.Regular
  indexed : ∀ c ∈ d.connections, c.Indexed

/-- What is read as a document is regular. -/
theorem regular_of_ofString? {text : String} {d : GraphDocument} (h : ofString? text = some d) :
    d.Regular := by
  obtain ⟨v, -, h⟩ := Option.bind_eq_some_iff.mp h
  rw [ofJson?] at h
  obtain ⟨fields, -, h⟩ := Option.bind_eq_some_iff.mp h
  obtain ⟨version, -, h⟩ := Option.bind_eq_some_iff.mp h
  obtain ⟨metadata, hm, h⟩ := Option.bind_eq_some_iff.mp h
  obtain ⟨name, -, h⟩ := Option.bind_eq_some_iff.mp h
  obtain ⟨nodes, -, h⟩ := Option.bind_eq_some_iff.mp h
  obtain ⟨connections, hc, h⟩ := Option.bind_eq_some_iff.mp h
  cases h
  constructor
  · rintro m rfl
    rcases Fields.eq_or_exists_of_optional hm with hnone | ⟨v, hv⟩
    · cases hnone
    · exact DocumentMetadata.regular_of_ofOptionalJson? hv
  · intro c hmem
    rcases Fields.eq_or_exists_of_optional hc with rfl | ⟨v, hv⟩
    · cases hmem
    · obtain ⟨item, hitem⟩ := Value.exists_of_list? hv hmem
      exact Connection.indexed_of_ofJson? hitem

end GraphDocument

/-! ### What loading makes of it -/

/-- A family that a record tells is the registered one. -/
theorem KindRecord.registered_of_toKind {r : Registry} {handles : Supply} (hr : r.Sound handles)
    {record : KindRecord} {d : SharedDefinition} (h : record.toKind r = .ok (.custom d)) :
    r.get? d.name = some d := by
  cases record with
  | custom name =>
    rw [toKind] at h
    split at h
    · next found hfound =>
      cases h
      rwa [hr.name_eq hfound]
    · cases h
  | vector components =>
    obtain ⟨arity, -, he⟩ := map_eq_ok_iff.mp (mapError_eq_ok_iff.mp h)
    cases he
  | _ => cases h

/-- A node is a copy of itself. -/
theorem Node.CopiedTo.refl (node : Node) : node.CopiedTo (fun i ↦ i) node :=
  ⟨rfl, rfl, rfl, rfl, rfl, rfl⟩

namespace ShaderGraph

/-- The families of a graph's nodes in order. -/
def kinds (g : ShaderGraph) : List NodeKind :=
  g.nodes.map (·.kind)

@[simp] theorem kinds_push (g : ShaderGraph) (node : Node) :
    (g.push node).kinds = g.kinds ++ [node.kind] :=
  List.map_append

@[simp] theorem kinds_link (g : ShaderGraph) (c : Connection) : (g.link c).kinds = g.kinds := by
  have hself : List.Forall₂ (Node.CopiedTo fun i ↦ i) g.nodes g.nodes :=
    List.forall₂_same.mpr fun node _ ↦ .refl node
  rw [kinds, kinds, ← List.forall₂_eq_eq_eq, List.forall₂_map_left_iff,
    List.forall₂_map_right_iff]
  exact ((copied_link hself c).imp fun _ _ hn ↦ hn.kind).flip

/-- What a graph must be like to be written and loaded again wherever its nodes stand. -/
structure Storable (r : Registry) (g : ShaderGraph) : Prop where
  registered : ∀ d, .custom d ∈ g.kinds → r.get? d.name = some d
  created : ∀ t, g.created = some t → t.Regular
  indexed : ∀ c ∈ g.connections, c.Indexed

variable {r : Registry} {handles : Supply}

/-- What a document holds can be stored again. -/
theorem storable_of_ofDocument (hr : r.Sound handles) {d : GraphDocument} (hd : d.Regular)
    {supply : Supply} {g : ShaderGraph} (h : (ofDocument d r supply).1 = .ok g) :
    g.Storable r := by
  refine ofDocument_invariant h ⟨?_, ?_, ?_⟩ ?_ ?_
  · exact fun _ hm ↦ absurd hm List.not_mem_nil
  · intro t ht
    obtain ⟨m, hm, rfl⟩ := Option.map_eq_some_iff.mp ht
    exact (hd.times m hm).created
  · exact fun _ hm ↦ absurd hm List.not_mem_nil
  · rintro record - g g' kind supply hg hkind ha
    obtain ⟨-, rfl⟩ := addNode_eq_ok_iff.mp ha
    refine ⟨fun definition hm ↦ ?_, hg.created, hg.indexed⟩
    rw [kinds_push, List.mem_append, List.mem_singleton] at hm
    rcases hm with hm | hm
    · exact hg.registered definition hm
    · exact KindRecord.registered_of_toKind hr (hkind.trans (congrArg _ hm.symm))
  · intro record hrecord g g' source target hg hc
    obtain ⟨-, rfl⟩ := connect_eq_ok_iff.mp hc
    refine ⟨fun definition hm ↦ ?_, fun t ht ↦ ?_, fun c hm ↦ ?_⟩
    · exact hg.registered definition (kinds_link g _ ▸ hm)
    · exact hg.created t (created_link g _ ▸ ht)
    · rw [connections_link, List.mem_append, List.mem_singleton] at hm
      rcases hm with hm | rfl
      · exact hg.indexed c hm
      · exact ⟨(hd.indexed record hrecord).output_lt, (hd.indexed record hrecord).input_lt⟩

/-- Every node of the graph has a finite place and size. -/
def FiniteLayout (g : ShaderGraph) : Prop :=
  ∀ node ∈ g.nodes, node.position.Finite ∧ node.extent.Finite

instance (g : ShaderGraph) : Decidable g.FiniteLayout :=
  inferInstanceAs (Decidable (∀ node ∈ g.nodes, node.position.Finite ∧ node.extent.Finite))

/-- A text with an infinite coordinate is none of a document. -/
theorem ofString?_documentText_eq_none {g : ShaderGraph} (h : ¬ g.FiniteLayout)
    (now : Time.Instant) : GraphDocument.ofString? (g.documentText now) = none := by
  rw [documentText, Option.eq_none_iff_forall_ne_some]
  intro d hd
  refine h fun node hn ↦ ?_
  have hfinite := GraphDocument.finite_of_ofString? hd (.ofNode node) (List.mem_map_of_mem hn)
  exact ⟨hfinite.position, hfinite.extent⟩

/-- A graph that a text held is written, and loaded again with the same registry as a copy of
itself, if its layout is finite; else what is written cannot be loaded. -/
theorem ofString_documentText (hr : r.Reachable handles) {text : String} {supply : Supply}
    {g : ShaderGraph} (h : (ofString text r supply).1 = .ok g) {now : Time.Instant}
    (hnow : now.Regular) (later : Supply) :
    (g.FiniteLayout → ∃ copy, (ofString (g.documentText now) r later).1 = .ok copy ∧
      g.CopiedTo (g.renumbering later.nextNode) copy) ∧
    (¬ g.FiniteLayout → (ofString (g.documentText now) r later).1 = .error .json) := by
  cases hd : GraphDocument.ofString? text with
  | none =>
    rw [ofString, hd] at h
    cases h
  | some d =>
    rw [ofString, hd] at h
    have hstorable := storable_of_ofDocument hr.sound (GraphDocument.regular_of_ofString? hd) h
    constructor
    · intro hlayout
      have hwritable := writable_ofGraph hlayout hstorable.indexed hstorable.created hnow
      obtain ⟨records, hread, hrecords⟩ := hwritable.exists_ofString?
      have hregistered : ∀ node ∈ g.nodes, ∀ d, node.kind = .custom d → r.get? d.name = some d :=
        fun node hn d hkind ↦ hstorable.registered d (hkind ▸ List.mem_map_of_mem hn)
      obtain ⟨copy, hcopy, hcopied, -⟩ :=
        exists_ofDocument (.loaded h) hregistered later now hrecords
      refine ⟨copy, ?_, hcopied⟩
      rw [ofString, documentText, hread]
      exact hcopy
    · intro hlayout
      rw [ofString, ofString?_documentText_eq_none hlayout now]

/-- A document with one node, at a coordinate that is told by its numeral. -/
def placedText (x : String) : String :=
  "\x7b\"name\":\"Far\",\"nodes\":[\x7b\"id\":1,\"name\":\"Time\",\"category\":\"Input\","
    ++ "\"position\":\x7b\"x\":" ++ x ++ ",\"y\":0\x7d,\"size\":\x7b\"width\":200,\"height\":150\x7d,"
    ++ "\"type\":\"InputNode\",\"inputType\":\"Time\"\x7d]\x7d"

theorem ofString_documentText_placed :
    ∃ g copy, (ofString (placedText "1e38") .empty {}).1 = .ok g ∧ g.nodes.length = 1 ∧
      (ofString (g.documentText ⟨20000, 43200, 0⟩) .empty { nextNode := 7 }).1 = .ok copy ∧
      g.CopiedTo (g.renumbering 7) copy := by
  have hplaced : (ofString (placedText "1e38") .empty {}).1.toOption.map
      (fun g ↦ (g.nodes.length, decide g.FiniteLayout)) = some (1, true) := by decide +kernel
  cases hg : (ofString (placedText "1e38") .empty {}).1 with
  | error e => simp [hg, Except.toOption] at hplaced
  | ok g =>
    simp only [hg, Except.toOption, Option.map_some, Option.some.injEq, Prod.mk.injEq,
      decide_eq_true_eq] at hplaced
    obtain ⟨copy, hcopy, hcopied⟩ := (ofString_documentText (.empty {}) hg
      (by decide : Time.Instant.Regular ⟨20000, 43200, 0⟩) { nextNode := 7 }).1 hplaced.2
    exact ⟨g, copy, rfl, hplaced.1, hcopy, hcopied⟩

/-- Beyond the greatest finite value a coordinate is read as infinite, so the document is loaded but
what is written of it is not. -/
theorem not_reloaded_placed :
    ∃ g, (ofString (placedText "1e39") .empty {}).1 = .ok g ∧
      (ofString (g.documentText ⟨20000, 43200, 0⟩) .empty {}).1 = .error .json := by
  have hplaced : (ofString (placedText "1e39") .empty {}).1.toOption.map
      (fun g ↦ decide g.FiniteLayout) = some false := by decide +kernel
  cases hg : (ofString (placedText "1e39") .empty {}).1 with
  | error e => simp [hg, Except.toOption] at hplaced
  | ok g =>
    simp only [hg, Except.toOption, Option.map_some, Option.some.injEq, decide_eq_false_iff_not]
      at hplaced
    refine ⟨g, rfl, ?_⟩
    rw [ofString, ofString?_documentText_eq_none hplaced]

end ShaderGraph

end RenderKit
