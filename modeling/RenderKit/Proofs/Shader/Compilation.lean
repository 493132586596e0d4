import RenderKit.Proofs.Shader.Agreement

/-!
# What compiled stages compute

The statements of a stage compute what the graph means, for every meaning of the shading language.
They start without locals; a field that a result writes ends up with the value of the last such
result, other fields stay, and the offsets are added to the position in order.
-/

namespace RenderKit.ShaderGraph

variable {V : Type} {M : Meaning V} {g : ShaderGraph} {stage : Stage}

/-- What the results of a stage make of memory. -/
structure Yields (M : Meaning V) (g : ShaderGraph) (stage : Stage) (start memory : Memory V) :
    Prop where
  fields : ∀ field,
    match g.lastWriter? stage field with
    | some node => g.result? M node = some (memory.fields field)
    | none => memory.fields field = start.fields field
  position : (g.offsets stage).foldlM (g.offsetBy? M) start.position = some memory.position

/-- A field takes the value of the last result that writes it. -/
theorem Yields.fields_eq {start memory : Memory V} (h : Yields M g stage start memory)
    {field : String} {v : V} (hv : (g.lastWriter? stage field).bind (g.result? M) = some v) :
    memory.fields field = v := by
  obtain ⟨node, hn, hv⟩ := Option.bind_eq_some_iff.mp hv
  have hfield := h.fields field
  rw [hn] at hfield
  exact Option.some.inj (hfield.symm.trans hv)

/-- Results have no outputs, so no connection starts at them. -/
theorem not_feeds_of_isResult (hw : WellFormed g) {node : Node} (hn : node ∈ g.nodes)
    (hf : node.Faithful) (hr : isResult node = true) : ¬ g.Feeds node := by
  rintro ⟨c, hc, hsource⟩
  obtain ⟨-, ⟨source, hs, hlt⟩, -⟩ := hw.joined c hc
  rw [hsource, hw.node?_eq_some_iff.mpr ⟨hn, rfl⟩] at hs
  cases hs
  rw [hf.length_outputs] at hlt
  rw [isResult] at hr
  cases hk : node.kind with
  | output semantic customName =>
    rw [hk] at hlt
    exact Nat.not_lt_zero _ hlt
  | math | vector | textureSample | input | custom =>
    rw [hk] at hr
    cases hr

/-- Nothing is emitted yet. -/
theorem agrees_start (M : Meaning V) (g : ShaderGraph) (fields : String → V) (position : V) :
    Agrees M g { fields := fields, position := position } {}
      { fields := fields, position := position } where
  run := rfl
  nodup := .nil
  known := fun _ hm ↦ absurd hm List.not_mem_nil
  declared := fun _ hne ↦ absurd rfl hne
  stands := fun _ _ hm ↦ absurd hm List.not_mem_nil
  legible := fun _ hm ↦ absurd hm List.not_mem_nil

/-- The results of a stage, taken in the order of the nodes. -/
theorem yields_of_foldlM {start memory : Memory V}
    (h : (g.nodes.filter (·.kind.outputStage? == some stage)).foldlM (g.applied? M)
      (start.fields, start.position) = some (memory.fields, memory.position)) :
    Yields M g stage start memory := by
  have hresults : ∀ node ∈ g.nodes.filter (·.kind.outputStage? == some stage),
      node.kind.outputStage?.isSome := by
    intro node hm
    rw [beq_iff_eq.mp (List.mem_filter.mp hm).2]
    rfl
  obtain ⟨hwritten, hposition⟩ := foldlM_applied? M g hresults h
  constructor
  · intro field
    have hlast := hwritten field
    rw [List.filter_filter] at hlast
    exact hlast
  · rw [List.filter_filter] at hposition
    exact hposition

/-- Running the statements of a stage yields the results of the graph, and each of them reads in
one way. -/
theorem Reachable.exists_run_body (h : Reachable Node.Created g) (hp : Plain g)
    {statements : List Statement} (hb : g.body stage = .ok statements) (M : Meaning V)
    (fields : String → V) (position : V) :
    ∃ memory, Memory.run? M { fields := fields, position := position } statements = some memory ∧
      Yields M g stage { fields := fields, position := position } memory ∧
        ∀ statement ∈ statements, statement.Legible := by
  have hw := (h.keeps kept_true).1
  have hf := h.faithful
  obtain ⟨walk, hwalk, rfl⟩ := map_eq_ok_iff.mp hb
  obtain ⟨nodes, hs, hresults⟩ := exists_emissions_of_walk hw
    (fun node hn hr ↦ not_feeds_of_isResult hw hn (hf node hn) hr) hwalk
  obtain ⟨memory, hm, hfold⟩ := (agrees_start M g fields position).exists_run hw hf hp hs
  refine ⟨memory, hm.run, yields_of_foldlM ?_, hm.legible⟩
  rw [← hresults, ← hfold]
  exact foldlM_applied?_filter M g nodes _

/-- A texture's colours with a tint, and its red channel on a field of its own. -/
def tinted : ShaderGraph :=
  let sample := (empty "Tinted").push (.ofKind 1 (.textureSample "Albedo"))
  let factors := sample.push (.ofKind 2 (.input .custom "tint"))
  let product := ((factors.push (.ofKind 3 (.math .multiply))).link ⟨1, 1, 3, 0⟩).link ⟨2, 0, 3, 1⟩
  let color := (product.push (.ofKind 4 (.output .color ""))).link ⟨3, 0, 4, 0⟩
  (color.push (.ofKind 5 (.output .metallic ""))).link ⟨1, 2, 5, 0⟩

private theorem reachable_tinted : Reachable Node.Created tinted := by
  unfold tinted
  refine .link (.push_ofKind (.link (.push_ofKind (.link (.link (.push_ofKind (.push_ofKind
    (.push_ofKind (.empty _) ?_ _) ?_ _) ?_ _) ?_) ?_) ?_ _) ?_) ?_ _) ?_
  all_goals decide

private theorem plain_tinted : Plain tinted := by
  have hnames : ∀ node ∈ tinted.nodes, ∀ name ∈ node.kind.givenName?,
      '_' ∉ name.toList ∧ name ∉ Language.reserved := by decide
  have hfed : ∀ node ∈ tinted.nodes, (tinted.source? node.id 0).isSome →
      node.kind.word? ≠ some "texture" := by decide
  refine ⟨by decide, fun node hn texture hk source output hs ↦ ?_, fun node hn name hg ↦ ?_⟩
  · exact absurd (by rw [hk]; rfl) (hfed node hn (by rw [hs]; rfl))
  · obtain ⟨hu, hr⟩ := hnames node hn name hg
    exact foreign_of_not_mem hu hr

/-- A meaning in numbers. -/
def counting : Meaning Nat where
  operation := fun _ operands ↦ operands.foldl (· + ·) 0
  construct := fun _ operands ↦ operands.foldl (· + ·) 0
  sample := fun texture sampler coordinate ↦ texture + sampler + coordinate
  channel := fun channel v ↦ v + channel.length
  convert := fun _ v ↦ v
  free := String.length

theorem exists_run_body_tinted :
    ∃ statements memory, tinted.body .fragment = .ok statements ∧ statements.length = 4 ∧
      Memory.run? counting { fields := fun _ ↦ 0, position := 0 } statements = some memory ∧
        memory.fields "color" = 40 ∧ memory.fields "metallic" = 34 ∧ memory.position = 0 ∧
          ∀ statement ∈ statements, statement.Legible := by
  have hl : (tinted.body .fragment).toOption.map List.length = some 4 := by decide +kernel
  cases hb : tinted.body .fragment with
  | error e => simp [hb, Except.toOption] at hl
  | ok statements =>
    obtain ⟨memory, hrun, hyields, hlegible⟩ :=
      reachable_tinted.exists_run_body plain_tinted hb counting (fun _ ↦ 0) 0
    have hposition : (tinted.offsets .fragment).foldlM (tinted.offsetBy? counting) 0 = some 0 := by
      decide
    refine ⟨statements, memory, rfl, ?_, hrun, hyields.fields_eq (by decide),
      hyields.fields_eq (by decide), ?_, hlegible⟩
    · simpa [hb, Except.toOption] using hl
    · exact Option.some.inj (hyields.position.symm.trans hposition)

end RenderKit.ShaderGraph
