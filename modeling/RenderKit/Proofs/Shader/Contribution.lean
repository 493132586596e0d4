import RenderKit.Proofs.Definition.Reading
import RenderKit.Proofs.Shader.Families

/-!
# What a snippet contributes

The statements of a snippet and its bindings, in order, from nothing but which outputs of its node
are bound already (`contribution?`). Running the snippet on a sheet appends just these statements
and makes just these bindings (`exists_contribution_of_run`), so within the stride it changes what
is bound to outputs of its own node only. Built-in families and templates stay within the stride;
a function may bind whatever output it likes, and is held to it (`Admissible`).
-/

namespace RenderKit

namespace Sheet

/-- Binds outputs of one node, one after the other. -/
def bindAll (sheet : Sheet) (node : NodeId) (bindings : List (Nat × String)) : Sheet :=
  bindings.foldl (fun s b ↦ s.bind ⟨node, b.1⟩ b.2) sheet

theorem bindAll_write (sheet : Sheet) (statement : Statement) (node : NodeId)
    (bindings : List (Nat × String)) :
    (sheet.write statement).bindAll node bindings =
      (sheet.bindAll node bindings).write statement := by
  induction bindings generalizing sheet with
  | nil => rfl
  | cons b bindings ih => exact ih (sheet.bind ⟨node, b.1⟩ b.2)

/-- Binding an output leaves the node's other outputs. -/
theorem get?_bind_own (sheet : Sheet) (node : NodeId) (output other : Nat) (expression : String) :
    (sheet.bind ⟨node, output⟩ expression).get? ⟨node, other⟩ =
      if output = other then some expression else sheet.get? ⟨node, other⟩ := by
  simp [get?_bind, OutputKey.value]

/-- An output of the node has the last expression that it was bound to. -/
theorem get?_bindAll_own (sheet : Sheet) (node : NodeId) (bindings : List (Nat × String))
    (output : Nat) :
    (sheet.bindAll node bindings).get? ⟨node, output⟩ =
      (bindings.reverse.lookup output).or (sheet.get? ⟨node, output⟩) := by
  induction bindings generalizing sheet with
  | nil => rfl
  | cons b bindings ih =>
    refine (ih (sheet.bind ⟨node, b.1⟩ b.2)).trans ?_
    rw [List.reverse_cons, List.lookup_append, Option.or_assoc, get?_bind_own, List.lookup_cons]
    by_cases he : output = b.1
    · simp [he]
    · simp [beq_false_of_ne he, Ne.symm he]

/-- Within the stride, outputs of other nodes keep their expressions. -/
theorem get?_bindAll_of_ne (sheet : Sheet) {node : NodeId} {bindings : List (Nat × String)}
    {key : OutputKey} (hb : ∀ b ∈ bindings, b.1 < OutputKey.stride)
    (hk : key.output < OutputKey.stride) (hne : key.node ≠ node) :
    (sheet.bindAll node bindings).get? key = sheet.get? key := by
  induction bindings generalizing sheet with
  | nil => rfl
  | cons b bindings ih =>
    refine (ih (sheet.bind ⟨node, b.1⟩ b.2) fun c hc ↦ hb c (List.mem_cons_of_mem _ hc)).trans ?_
    rw [get?_bind, if_neg]
    intro hv
    have hkey := OutputKey.value_inj (hb b List.mem_cons_self) hk hv
    exact hne (congrArg OutputKey.node hkey).symm

end Sheet

namespace Snippet

/-- The statements and the bindings of a snippet, in order, when some outputs of its node are bound
already; none of them if the snippet fails. -/
def contribution? : Snippet → (Nat → Bool) → Option (List Statement × List (Nat × String))
  | .done, _ => some ([], [])
  | .reject _, _ | .fail _, _ => none
  | .write statement next, bound => (next.contribution? bound).map (Prod.map (statement :: ·) id)
  | .bind output expression next, bound =>
    (next.contribution? (Function.update bound output true)).map
      (Prod.map id ((output, expression) :: ·))
  | .ifBound output next, bound => (next (bound output)).contribution? bound

/-- A run that does not fail does what the snippet contributes. -/
theorem exists_contribution_of_run {snippet : Snippet} {node : NodeId} {sheet after : Sheet}
    (h : snippet.run node sheet = (after, none)) :
    ∃ statements bindings,
      snippet.contribution? (fun i ↦ sheet.isBound ⟨node, i⟩) = some (statements, bindings) ∧
        after.statements = sheet.statements ++ statements ∧
          ∀ key, after.get? key = (sheet.bindAll node bindings).get? key := by
  induction snippet generalizing sheet with
  | done =>
    cases h
    exact ⟨[], [], rfl, (List.append_nil _).symm, fun _ ↦ rfl⟩
  | reject | fail => cases h
  | write statement next ih =>
    obtain ⟨statements, bindings, hc, hs, hb⟩ := ih h
    refine ⟨statement :: statements, bindings, ?_, ?_, fun key ↦ ?_⟩
    · rw [contribution?]
      exact Option.map_eq_some_iff.mpr ⟨_, hc, rfl⟩
    · rw [hs, Sheet.statements_write, List.append_assoc, List.singleton_append]
    · rw [hb, Sheet.bindAll_write, Sheet.get?_write]
  | bind output expression next ih =>
    obtain ⟨statements, bindings, hc, hs, hb⟩ := ih h
    refine ⟨statements, (output, expression) :: bindings, ?_, hs, hb⟩
    have hbound : (fun i ↦ (sheet.bind ⟨node, output⟩ expression).isBound ⟨node, i⟩) =
        Function.update (fun i ↦ sheet.isBound ⟨node, i⟩) output true := by
      funext i
      rw [Sheet.isBound, Sheet.get?_bind_own]
      by_cases he : i = output
      · simp [he]
      · rw [if_neg (Ne.symm he), Function.update_of_ne he, Sheet.isBound]
    rw [hbound] at hc
    rw [contribution?]
    exact Option.map_eq_some_iff.mpr ⟨_, hc, rfl⟩
  | ifBound output next ih => exact ih _ h

/-- Statements with bindings behind them contribute just these. -/
theorem contribution?_writes_binds (statements : List Statement) (bindings : List (Nat × String))
    (bound : Nat → Bool) :
    (writes statements (binds bindings .done)).contribution? bound =
      some (statements, bindings) := by
  induction statements with
  | nil =>
    induction bindings generalizing bound with
    | nil => rfl
    | cons b bindings ih => exact Option.map_eq_some_iff.mpr ⟨_, ih _, rfl⟩
  | cons statement statements ih => exact Option.map_eq_some_iff.mpr ⟨_, ih, rfl⟩

/-- Whatever the snippet binds, its outputs have numbers of their own. -/
def WithinStride (snippet : Snippet) : Prop :=
  ∀ bound statements bindings, snippet.contribution? bound = some (statements, bindings) →
    ∀ b ∈ bindings, b.1 < OutputKey.stride

theorem withinStride_writes_binds {statements : List Statement} {bindings : List (Nat × String)}
    (h : ∀ b ∈ bindings, b.1 < OutputKey.stride) :
    (writes statements (binds bindings .done)).WithinStride := by
  intro bound statements' bindings' hc
  rw [contribution?_writes_binds] at hc
  cases hc
  exact h

theorem withinStride_reject (name : String) : (reject name).WithinStride := by
  intro _ _ _ hc
  cases hc

end Snippet

/-- What can come into use: a template was read from a record, and a function binds outputs within
the stride. -/
inductive Definition.Admissible : Definition → Prop where
  | native {d : NativeDefinition} :
      (∀ node inputs, (d.snippet node inputs).WithinStride) → Admissible (.native d)
  | template {r : DefinitionRecord} {d : TemplateDefinition} (backing : Option Backing) :
      TemplateDefinition.ofRecord r = .ok d → Admissible (.template { d with backing := backing })

/-- A template has fewer outputs than the stride. -/
theorem Definition.Admissible.length_outputs_lt {d : TemplateDefinition}
    (h : (Definition.template d).Admissible) : d.descriptor.outputs.length < OutputKey.stride := by
  cases h with
  | template backing hr =>
    obtain ⟨-, hlt, -, -, segments, -, rfl⟩ := TemplateDefinition.ofRecord_eq_ok_iff.mp hr
    exact hlt

theorem Definition.Admissible.withinStride {d : Definition} (h : d.Admissible) (node : NodeId)
    (inputs : List String) : (d.snippet node inputs).WithinStride := by
  cases d with
  | native f =>
    cases h with
    | native hb => exact hb node inputs
  | template t =>
    refine Snippet.withinStride_writes_binds fun b hb ↦ ?_
    obtain ⟨i, hi, rfl⟩ := List.mem_map.mp hb
    exact Nat.lt_trans (List.mem_range.mp hi) h.length_outputs_lt

/-- The numbers of a family's outputs stay within the stride. -/
private theorem lt_stride_of_mem_numbered {kind : NodeKind} {node : NodeId} {b : Nat × String}
    (hb : b ∈ numbered (kind.exposed node) 0) : b.1 < OutputKey.stride := by
  obtain ⟨⟨expression, i⟩, hi, rfl⟩ := List.mem_map.mp hb
  have hlt := (List.getElem?_eq_some_iff.mp (List.mem_zipIdx_iff_getElem?.mp hi)).1
  exact Nat.lt_of_lt_of_le hlt (kind.length_exposed_le node)

/-- The snippets of all families stay within the stride, if those of definitions do. -/
theorem NodeKind.withinStride {kind : NodeKind}
    (h : ∀ d, kind = .custom d → d.definition.Admissible) (node : NodeId) {inputs : List String}
    (hl : inputs.length = kind.descriptor.inputs.length) :
    (kind.snippet node inputs).WithinStride := by
  cases hb : kind.isBuiltin with
  | true =>
    rcases snippet_eq_or_reject hb node hl with hs | ⟨name, hs⟩
    · rw [hs]
      exact Snippet.withinStride_writes_binds fun b ↦ lt_stride_of_mem_numbered
    · rw [hs]
      exact Snippet.withinStride_reject name
  | false =>
    cases kind with
    | custom d => exact (h d rfl).withinStride node inputs
    | math | vector | textureSample | input | output => cases hb

end RenderKit
