import RenderKit.Proofs.Refusal
import RenderKit.Proofs.Shader.Evaluation
import RenderKit.Proofs.Shader.Naming

/-!
# What built-in families contribute

The statements and the expressions of a node of a built-in family, as lists, and that its snippet
writes just these (`run_snippet`). Running the statements of a node leaves in its local what the
node means, and each expression reads one of the node's outputs.
-/

namespace RenderKit

open RenderKit.Language

namespace NodeKind

/-- Whether a family is one of the known ones. -/
def isBuiltin : NodeKind → Bool
  | .custom _ => false
  | _ => true

/-- The word in the name of a node's local. -/
def word? : NodeKind → Option String
  | .math _ => some "math"
  | .textureSample _ => some "texture"
  | .vector _ => some "vector"
  | _ => none

/-- The local of a node. -/
def local? (kind : NodeKind) (node : NodeId) : Option String :=
  kind.word?.map (localName · node)

/-- The channels of a node's local that its outputs take. -/
def channels : NodeKind → List String
  | .textureSample _ => TextureSample.swizzles
  | _ => [""]

/-- The expressions on the outputs of a node. -/
def exposed (kind : NodeKind) (node : NodeId) : List String :=
  match kind with
  | .math _ => [localName "math" node]
  | .textureSample _ => TextureSample.swizzles.map (point (localName "texture" node))
  | .vector _ => [localName "vector" node]
  | .input semantic customName => [semantic.expression customName]
  | .output .. | .custom _ => []

/-- The statements of a node, given the expressions on its inputs. -/
def written (kind : NodeKind) (node : NodeId) (inputs : List String) : List Statement :=
  match kind with
  | .math op => [.declare op.resultType (localName "math" node) (op.term inputs)]
  | .textureSample _ =>
    [.declare .vec4 (localName "texture" node)
      (.sample (inputs[0]?.getD "") (inputs[1]?.getD ""))]
  | .vector arity =>
    [.declare arity.type (localName "vector" node) (.call arity.type.shaderName inputs)]
  | .output semantic customName => [semantic.statement customName (inputs.head?.getD "")]
  | .input .. | .custom _ => []

/-- A given value that is called by its own name has one that can be written. -/
def Writable (kind : NodeKind) : Prop :=
  ∀ name, kind = .input .custom name → Text.isIdentifier name = true

theorem length_exposed {kind : NodeKind} (hb : kind.isBuiltin = true) (node : NodeId) :
    (kind.exposed node).length = kind.descriptor.outputs.length := by
  cases kind with
  | custom d => cases hb
  | math | vector | textureSample | input | output => rfl

/-- The outputs of a node have numbers of their own. -/
theorem length_exposed_le (kind : NodeKind) (node : NodeId) :
    (kind.exposed node).length ≤ OutputKey.stride := by
  cases kind <;> simp [exposed, OutputKey.stride, TextureSample.swizzles]

end NodeKind

/-! ### Snippets -/

/-- What the snippet of a node leaves on a sheet. -/
structure Contributed (kind : NodeKind) (node : NodeId) (inputs : List String)
    (sheet after : Sheet) : Prop where
  statements : after.statements = sheet.statements ++ kind.written node inputs
  others : ∀ key : OutputKey, key.output < OutputKey.stride → key.node ≠ node →
    after.get? key = sheet.get? key
  own : ∀ (i : Nat) (expression : String), (kind.exposed node)[i]? = some expression →
    after.get? ⟨node, i⟩ = some expression

/-- Expressions with the numbers of the outputs that they are bound to, one after the other. -/
def numbered (expressions : List String) (first : Nat) : List (Nat × String) :=
  (expressions.zipIdx first).map fun entry ↦ (entry.2, entry.1)

/-- Numbered expressions are bound to their outputs, and nothing else is bound within the stride. -/
theorem Snippet.run_numbered (node : NodeId) (expressions : List String) (first : Nat)
    (sheet : Sheet) (hl : first + expressions.length ≤ OutputKey.stride) :
    ∃ after, (binds (numbered expressions first) .done).run node sheet = (after, none) ∧
      after.statements = sheet.statements ∧
      (∀ key : OutputKey, key.output < OutputKey.stride →
        key.node ≠ node ∨ key.output < first ∨ first + expressions.length ≤ key.output →
          after.get? key = sheet.get? key) ∧
      ∀ (i : Nat) (expression : String), expressions[i]? = some expression →
        after.get? ⟨node, first + i⟩ = some expression := by
  induction expressions generalizing first sheet with
  | nil => exact ⟨sheet, rfl, rfl, fun _ _ _ ↦ rfl, fun i _ h ↦ by simp at h⟩
  | cons expression expressions ih =>
    rw [List.length_cons] at hl
    obtain ⟨after, hrun, hst, hother, hown⟩ :=
      ih (first + 1) (sheet.bind ⟨node, first⟩ expression) (by omega)
    refine ⟨after, hrun, hst, fun key hk hne ↦ ?_, fun i other hi ↦ ?_⟩
    · rw [List.length_cons] at hne
      rw [hother key hk (hne.imp_right fun h ↦ by omega), Sheet.get?_bind, if_neg]
      intro hv
      -- Numbers of outputs are shared behind the stride, so equal numbers are equal outputs in it.
      have := OutputKey.value_inj (by simp only; omega) hk hv
      subst this
      rcases hne with hne | hlt
      · exact hne rfl
      · simp only at hlt
        omega
    · cases i with
      | zero =>
        cases hi
        rw [Nat.add_zero, hother ⟨node, first⟩ (by simp only; omega)
          (.inr (.inl (Nat.lt_succ_self _))), Sheet.get?_bind, if_pos rfl]
      | succ i =>
        rw [← hown i other hi]
        congr 2
        omega

/-- Statements refuse nothing and bind nothing. -/
theorem Snippet.run_writes (statements : List Statement) (next : Snippet) (node : NodeId)
    (sheet : Sheet) : (writes statements next).run node sheet =
      next.run node { sheet with statements := sheet.statements ++ statements } := by
  induction statements generalizing sheet with
  | nil => simp [writes]
  | cons statement statements ih =>
    refine (ih (sheet.write statement)).trans ?_
    simp [Sheet.write]

/-- A built-in family writes its statements and binds its expressions, or refuses a name. -/
theorem NodeKind.snippet_eq_or_reject {kind : NodeKind} (hb : kind.isBuiltin = true) (node : NodeId)
    {inputs : List String} (hl : inputs.length = kind.descriptor.inputs.length) :
    kind.snippet node inputs = .writes (kind.written node inputs)
        (.binds (numbered (kind.exposed node) 0) .done) ∨
      ∃ name, kind.snippet node inputs = .reject name := by
  cases kind with
  | math | vector => exact .inl rfl
  | textureSample texture =>
    obtain ⟨first, second, rfl⟩ : ∃ first second, inputs = [first, second] :=
      List.length_eq_two.mp hl
    exact .inl rfl
  | input semantic customName =>
    simp only [snippet, InputSemantic.snippet]
    split
    · exact .inr ⟨customName, rfl⟩
    · exact .inl rfl
  | output semantic customName =>
    simp only [snippet, OutputSemantic.snippet]
    split
    · exact .inr ⟨customName, rfl⟩
    · exact .inl rfl
  | custom d => cases hb

/-- The snippet of a built-in family contributes its statements and expressions. -/
theorem contributed_of_run {kind : NodeKind} {node : NodeId} {inputs : List String}
    {sheet after : Sheet} (hb : kind.isBuiltin = true)
    (hl : inputs.length = kind.descriptor.inputs.length)
    (h : (kind.snippet node inputs).run node sheet = (after, none)) :
    Contributed kind node inputs sheet after := by
  have hstride := kind.length_exposed_le node
  rcases NodeKind.snippet_eq_or_reject hb node hl with hs | ⟨name, hs⟩
  · rw [hs, Snippet.run_writes] at h
    obtain ⟨after', hrun, hst, hother, hown⟩ := Snippet.run_numbered node (kind.exposed node) 0
      { sheet with statements := sheet.statements ++ kind.written node inputs } (by omega)
    rw [hrun] at h
    cases h
    refine ⟨hst, fun key hk hne ↦ hother key hk (.inl hne), fun i expression hi ↦ ?_⟩
    rw [← hown i expression hi, Nat.zero_add]
  · rw [hs] at h
    cases h

/-- The snippet of a given value is refused if the value's own name cannot be written. -/
theorem writable_of_run {kind : NodeKind} {node : NodeId} {inputs : List String}
    {sheet after : Sheet} (h : (kind.snippet node inputs).run node sheet = (after, none)) :
    kind.Writable := by
  rintro name rfl
  simp only [NodeKind.snippet, InputSemantic.snippet] at h
  split at h
  · cases h
  · next hn => simpa using hn

/-! ### Statements -/

variable {V : Type} {M : Meaning V} {memory : Memory V}

/-- Operands that have values. -/
def Memory.Reads (M : Meaning V) (memory : Memory V) (operands : List String) (values : List V) :
    Prop :=
  List.Forall₂ (fun operand v ↦ memory.read? M operand = some v) operands values

private theorem term?_between {mark first second : String} {op : MathOperation} {values : List V}
    (hm : marks.lookup mark = some op) (h : memory.Reads M [first, second] values) :
    memory.term? M (.between mark first second) = some (M.operation op values) := by
  obtain - | ⟨ha, - | ⟨hb, - | _⟩⟩ := h
  rw [Memory.term?, hm, ha, hb]
  rfl

private theorem term?_call {function : String} {op : MathOperation} {operands : List String}
    {values : List V} (hf : functions.lookup function = some op)
    (h : memory.Reads M operands values) :
    memory.term? M (.call function operands) = some (M.operation op values) := by
  rw [Memory.term?, mapM_eq_some_iff.mpr h]
  simp [hf]

/-- The text of an operation computes the operation. -/
theorem term?_term {op : MathOperation} {operands : List String} {values : List V}
    (hl : operands.length = op.inputs.length) (h : memory.Reads M operands values) :
    memory.term? M (op.term operands) = some (M.operation op values) := by
  cases op
  case add | subtract | multiply | divide =>
    obtain ⟨first, second, rfl⟩ := List.length_eq_two.mp hl
    exact term?_between rfl h
  case dot | cross | power | min | max =>
    obtain ⟨first, second, rfl⟩ := List.length_eq_two.mp hl
    exact term?_call rfl h
  case normalize | length | abs | sin | cos | tan =>
    obtain ⟨first, rfl⟩ := List.length_eq_one_iff.mp hl
    exact term?_call rfl h

/-- A vector has two, three or four components. -/
private theorem VectorArity.type_cases (arity : VectorArity) :
    arity.type = .vec2 ∨ arity.type = .vec3 ∨ arity.type = .vec4 := by
  obtain ⟨n, h2, h4⟩ := arity
  simp only [VectorArity.type, PinType.vector]
  have h : n = 2 ∨ n = 3 ∨ n = 4 := by
    rw [UInt32.le_iff_toNat_le] at h2 h4
    simp only [← UInt32.toNat_inj]
    have e2 : (2 : UInt32).toNat = 2 := rfl
    have e3 : (3 : UInt32).toNat = 3 := rfl
    have e4 : (4 : UInt32).toNat = 4 := rfl
    omega
  rcases h with rfl | rfl | rfl <;> simp

/-- The text of a constructor makes a vector. -/
theorem term?_vector (arity : VectorArity) {operands : List String} {values : List V}
    (h : memory.Reads M operands values) :
    memory.term? M (.call arity.type.shaderName operands) =
      some (M.construct arity.type values) := by
  rw [Memory.term?, mapM_eq_some_iff.mpr h]
  rcases arity.type_cases with ht | ht | ht <;> rw [ht] <;> rfl

/-! ### Nodes -/

namespace NodeKind

variable {kind : NodeKind} {node : NodeId} {name : String}

/-- The word in the name of a local is of letters. -/
private theorem word_letters {word : String} (h : kind.word? = some word) :
    '_' ∉ word.toList ∧ ∀ c ∈ word.toList, Text.isIdentifierRest c = true := by
  rw [← List.all_eq_true]
  cases kind <;> cases h <;> decide

private theorem exists_word (h : kind.local? node = some name) :
    ∃ word, kind.word? = some word ∧ name = localName word node := by
  obtain ⟨word, hw, rfl⟩ := Option.map_eq_some_iff.mp h
  exact ⟨word, hw, rfl⟩

/-- The local of a node is no other node's. -/
theorem local?_inj {other : NodeKind} {node' : NodeId} (h : kind.local? node = some name)
    (h' : other.local? node' = some name) : node = node' := by
  obtain ⟨word, hw, rfl⟩ := exists_word h
  obtain ⟨word', -, he⟩ := exists_word h'
  exact (localName_inj (word_letters hw).1 he).2

theorem underscore_mem_local (h : kind.local? node = some name) : '_' ∈ name.toList := by
  obtain ⟨word, -, rfl⟩ := exists_word h
  exact underscore_mem_localName word node

theorem isDigit_getLast_local (h : kind.local? node = some name) {c : Char}
    (hc : name.toList.getLast? = some c) : c.isDigit = true := by
  obtain ⟨word, -, rfl⟩ := exists_word h
  exact isDigit_getLast_localName hc

private theorem isIdentifierRest_local (h : kind.local? node = some name) :
    ∀ c ∈ name.toList, Text.isIdentifierRest c = true := by
  obtain ⟨word, hw, rfl⟩ := exists_word h
  exact isIdentifierRest_localName node (word_letters hw).2

theorem point_not_mem_local (h : kind.local? node = some name) : '.' ∉ name.toList :=
  not_mem_of_isIdentifierRest (isIdentifierRest_local h) (by decide)

theorem local_not_reserved (h : kind.local? node = some name) : name ∉ reserved := by
  intro hm
  have hu := underscore_mem_local h
  rcases List.mem_cons.mp hm with rfl | hm
  · revert hu
    decide
  · rw [List.mem_singleton.mp hm] at hu
    revert hu
    decide

theorem atomic_local (h : kind.local? node = some name) : Atomic name := by
  refine atomic_of_isIdentifierRest ?_ (isIdentifierRest_local h)
  rintro rfl
  simpa using underscore_mem_local h

/-- The outputs of a node with a local are channels of it. -/
theorem exposed_of_local (h : kind.local? node = some name) :
    kind.exposed node = kind.channels.map (point name) := by
  cases kind <;> cases h <;> simp [exposed, channels, point]

/-- A node of a built-in family has a local, or it is given from outside, or it is a result. -/
theorem isBuiltin_cases (hb : kind.isBuiltin = true) (node : NodeId) :
    (∃ name, kind.local? node = some name) ∨ (∃ semantic name, kind = .input semantic name) ∨
      ∃ semantic name, kind = .output semantic name := by
  cases kind with
  | math | vector | textureSample => exact .inl ⟨_, rfl⟩
  | input semantic name => exact .inr (.inl ⟨semantic, name, rfl⟩)
  | output semantic name => exact .inr (.inr ⟨semantic, name, rfl⟩)
  | custom d => cases hb

/-- A node with a local is no result. -/
theorem outputStage?_of_local (h : kind.local? node = some name) : kind.outputStage? = none := by
  cases kind <;> cases h <;> rfl

end NodeKind

/-- What the inputs of a node give it: values, or a texture with its sampler and a coordinate. -/
def Supplied (M : Meaning V) (memory : Memory V) (kind : NodeKind) (sampler : V)
    (inputs : List String) (values : List V) : Prop :=
  match kind with
  | .textureSample _ => ∃ texture coordinate t c, inputs = [texture, coordinate] ∧
      values = [t, c] ∧ memory.named? M texture = some t ∧
        memory.named? M (texture ++ "Sampler") = some sampler ∧
          memory.read? M coordinate = some c
  | _ => memory.Reads M inputs values

private theorem run?_declare {type : PinType} {name : String} {term : Term} {v : V}
    (h : memory.term? M term = some v) :
    memory.run? M [.declare type name term] = some (memory.declare name (M.convert type v)) := by
  simp [Memory.run?, Memory.step?, h]

/-- The statement of a node leaves in its local what the node means. -/
private theorem exists_run?_written {kind : NodeKind} {node : NodeId} {name : String}
    {sampler : V} {inputs : List String} {values : List V} (hn : kind.local? node = some name)
    (hl : inputs.length = kind.descriptor.inputs.length)
    (hs : Supplied M memory kind sampler inputs values) :
    ∃ v, memory.run? M (kind.written node inputs) = some (memory.declare name v) ∧
      ∀ (i : Nat) (channel : String), kind.channels[i]? = some channel →
        kind.value? M sampler values i =
          some (if channel = "" then v else M.channel channel v) := by
  have hfirst : ∀ (i : Nat) (channel : String), [""][i]? = some channel → i = 0 ∧ channel = "" := by
    intro i channel hi
    obtain ⟨hlt, rfl⟩ := List.getElem?_eq_some_iff.mp hi
    simp at hlt
    subst hlt
    exact ⟨rfl, rfl⟩
  cases kind with
  | math op =>
    cases hn
    refine ⟨_, run?_declare (term?_term hl hs), fun i channel hi ↦ ?_⟩
    obtain ⟨rfl, rfl⟩ := hfirst i channel hi
    rfl
  | vector arity =>
    cases hn
    refine ⟨_, run?_declare (term?_vector arity hs), fun i channel hi ↦ ?_⟩
    obtain ⟨rfl, rfl⟩ := hfirst i channel hi
    rfl
  | textureSample given =>
    cases hn
    obtain ⟨texture, coordinate, t, c, rfl, rfl, ht, hsampler, hc⟩ := hs
    have hterm : memory.term? M (.sample texture coordinate) = some (M.sample t sampler c) := by
      rw [Memory.term?, ht, hsampler, hc]
      rfl
    refine ⟨_, run?_declare hterm, fun i channel hi ↦ ?_⟩
    exact congrArg (Option.map _) hi
  | input | output | custom => cases hn

/-- Running the statement of a node lets the expressions on its outputs read what it means. -/
theorem exists_declare {kind : NodeKind} {node : NodeId} {name : String} {sampler : V}
    {inputs : List String} {values : List V} (hn : kind.local? node = some name)
    (hl : inputs.length = kind.descriptor.inputs.length)
    (hs : Supplied M memory kind sampler inputs values) :
    ∃ v, memory.run? M (kind.written node inputs) = some (memory.declare name v) ∧
      ∀ (i : Nat) (expression : String), (kind.exposed node)[i]? = some expression →
        base expression = name ∧ Atomic expression ∧
          ∃ w, kind.value? M sampler values i = some w ∧
            (memory.declare name v).read? M expression = some w := by
  obtain ⟨v, hrun, hvalue⟩ := exists_run?_written hn hl hs
  have hp := NodeKind.point_not_mem_local hn
  refine ⟨v, hrun, fun i expression hi ↦ ?_⟩
  rw [NodeKind.exposed_of_local hn, List.getElem?_map, Option.map_eq_some_iff] at hi
  obtain ⟨channel, hc, rfl⟩ := hi
  have hchannel : channel = "" ∨ Atomic channel := by
    have hall : ∀ other ∈ "" :: TextureSample.swizzles, other = "" ∨ Atomic other := by decide
    have hsub : kind.channels ⊆ "" :: TextureSample.swizzles := by
      cases kind <;> simp [NodeKind.channels]
    exact hall channel (hsub (List.mem_of_getElem? hc))
  refine ⟨base_point hp channel, atomic_point (NodeKind.atomic_local hn) hchannel, _,
    hvalue i channel hc, ?_⟩
  rw [Memory.read?_declare_self M memory v (base_point hp channel) (NodeKind.local_not_reserved hn),
    member_point hp]

/-! ### What is free -/

/-- An operand that starts with no local and no reserved name. -/
def Language.IsOutside (operand : String) : Prop :=
  '_' ∉ (base operand).toList ∧ base operand ∉ reserved

instance (operand : String) : Decidable (IsOutside operand) :=
  inferInstanceAs (Decidable (_ ∧ _))

/-- The default literals of all inputs but the textures'. -/
private def literals : List String :=
  ["0.0", "0.5", "1.0", MathOperation.zeroVector, "float3(0,0,1)", "input.texCoord"]

private theorem isOutside_of_mem : ∀ literal ∈ literals, IsOutside literal := by
  decide

/-- The default literal of an input is free; that of a texture is chosen. -/
theorem isOutside_default {kind : NodeKind} (hb : kind.isBuiltin = true) {i : Nat}
    {spec : PinSpec} (h : kind.descriptor.inputs[i]? = some spec)
    (ht : ∀ texture, kind = .textureSample texture → i ≠ 0) : IsOutside spec.default := by
  refine isOutside_of_mem _ ?_
  cases kind with
  | math op =>
    have hall : ∀ spec ∈ op.inputs, spec.default ∈ literals := by cases op <;> decide
    exact hall spec (List.mem_of_getElem? h)
  | vector arity =>
    obtain ⟨name, -, rfl⟩ := List.mem_map.mp (List.mem_of_getElem? h)
    exact List.mem_cons_self
  | textureSample texture =>
    match i, ht texture rfl with
    | 1, _ =>
      cases h
      decide
  | input => cases h
  | output semantic customName =>
    obtain rfl := List.mem_singleton.mp (List.mem_of_getElem? h)
    cases semantic <;> simp [literals, MathOperation.zeroVector]
  | custom d => cases hb

/-- The expression of a given value is free, or it is a name that the graph's author chose. -/
theorem exposed_input {semantic : InputSemantic} {customName : String}
    (hw : (NodeKind.input semantic customName).Writable) :
    Atomic (semantic.expression customName) ∧
      (IsOutside (semantic.expression customName) ∨
        (NodeKind.input semantic customName).givenName? =
          some (base (semantic.expression customName))) := by
  cases semantic with
  | custom =>
    obtain ⟨hne, hc⟩ := isIdentifierRest_of_isIdentifier (hw customName rfl)
    refine ⟨atomic_of_isIdentifierRest hne hc, .inr ?_⟩
    rw [InputSemantic.expression, base_of_not_mem (not_mem_of_isIdentifierRest hc (by decide))]
    rfl
  | position | normal | uv | color | tangent | bitangent | time | cameraPosition =>
    dsimp only [InputSemantic.expression]
    exact ⟨by decide, .inl (by decide)⟩

end RenderKit
