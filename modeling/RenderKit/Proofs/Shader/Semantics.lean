import RenderKit.Shader.Walk
import Mathlib.Logic.Function.Basic

/-!
# What shader statements mean

A meaning gives values to the parts of the shading language that statements use: operations,
constructors, sampling, channels, conversion to a declared type, and every text that names no local.
Which mark or function stands for which operation is fixed by the language. Running statements
changes locals, the fields of the results and the position of the vertex; statements that read what
they are to produce, or lines of unknown form, have no meaning.
-/

namespace RenderKit

/-- Values for the parts of the shading language. -/
structure Meaning (V : Type) where
  operation : MathOperation → List V → V
  construct : PinType → List V → V
  sample : (texture sampler coordinate : V) → V
  channel : String → V → V
  convert : PinType → V → V
  /-- The value of a literal, or of what is declared outside of the statements. -/
  free : String → V

namespace Language

/-- The operations that are written between their operands. -/
def marks : List (String × MathOperation) :=
  [("+", .add), ("-", .subtract), ("*", .multiply), ("/", .divide)]

/-- The operations that are called by name. -/
def functions : List (String × MathOperation) :=
  [("dot", .dot), ("cross", .cross), ("normalize", .normalize), ("length", .length),
    ("pow", .power), ("min", .min), ("max", .max), ("abs", .abs), ("sin", .sin), ("cos", .cos),
    ("tan", .tan)]

/-- The constructors of vectors. -/
def constructors : List (String × PinType) :=
  [("float2", .vec2), ("float3", .vec3), ("float4", .vec4)]

/-- The names that statements may assign to only. -/
def reserved : List String :=
  [Statement.resultsName, Statement.positionName]

/-- The part of an operand in front of its first point. -/
def base (operand : String) : String :=
  .ofList (operand.toList.takeWhile (· != '.'))

/-- The part of an operand behind its first point. -/
def member (operand : String) : String :=
  .ofList ((operand.toList.dropWhile (· != '.')).drop 1)

end Language

/-- What statements work on. -/
structure Memory (V : Type) where
  locals : String → Option V := fun _ ↦ none
  fields : String → V
  position : V

namespace Memory

variable {V : Type}

/-- The memory with a local. -/
def declare (memory : Memory V) (name : String) (v : V) : Memory V :=
  { memory with locals := Function.update memory.locals name (some v) }

/-- The value of a name as a whole. -/
def named? (M : Meaning V) (memory : Memory V) (name : String) : Option V :=
  if name ∈ Language.reserved then none
  else some ((memory.locals name).getD (M.free name))

/-- The value of an operand: a local, a channel of one, or something free. -/
def read? (M : Meaning V) (memory : Memory V) (operand : String) : Option V :=
  if Language.base operand ∈ Language.reserved then none
  else
    match memory.locals (Language.base operand) with
    | none => some (M.free operand)
    | some v =>
      if Language.member operand = "" then some v
      else some (M.channel (Language.member operand) v)

/-- The value of the right-hand side of a declaration. A texture is sampled by its own sampler. -/
def term? (M : Meaning V) (memory : Memory V) : Term → Option V
  | .between mark first second => do
    let op ← Language.marks.lookup mark
    let a ← memory.read? M first
    let b ← memory.read? M second
    return M.operation op [a, b]
  | .call function operands => do
    let arguments ← operands.mapM (memory.read? M)
    match Language.functions.lookup function with
    | some op => some (M.operation op arguments)
    | none => (Language.constructors.lookup function).map (M.construct · arguments)
  | .sample texture coordinate => do
    let t ← memory.named? M texture
    let s ← memory.named? M (texture ++ "Sampler")
    let c ← memory.read? M coordinate
    return M.sample t s c

/-- The memory after a statement. -/
def step? (M : Meaning V) (memory : Memory V) : Statement → Option (Memory V)
  | .declare type name term => do
    let v ← memory.term? M term
    return memory.declare name (M.convert type v)
  | .assign field value => do
    let v ← memory.read? M value
    return { memory with fields := Function.update memory.fields field v }
  | .offset value => do
    let v ← memory.read? M value
    return { memory with position := M.operation .add [memory.position, v] }
  | .verbatim _ => none

/-- The memory after statements in order. -/
def run? (M : Meaning V) (memory : Memory V) (statements : List Statement) : Option (Memory V) :=
  statements.foldlM (step? M) memory

theorem run?_append (M : Meaning V) (memory : Memory V) (first second : List Statement) :
    memory.run? M (first ++ second) = (memory.run? M first).bind (·.run? M second) :=
  List.foldlM_append

/-- What an operand reads depends on the local it starts with only. -/
theorem read?_congr (M : Meaning V) {memory memory' : Memory V} {operand : String}
    (h : memory'.locals (Language.base operand) = memory.locals (Language.base operand)) :
    memory'.read? M operand = memory.read? M operand := by
  rw [read?, read?, h]

/-- An operand that starts with no local and no reserved name is free. -/
theorem read?_of_free (M : Meaning V) {memory : Memory V} {operand : String}
    (hr : Language.base operand ∉ Language.reserved)
    (hl : memory.locals (Language.base operand) = none) :
    memory.read? M operand = some (M.free operand) := by
  rw [read?, if_neg hr, hl]

/-- An operand that starts with a new local is a channel of it, or all of it. -/
theorem read?_declare_self (M : Meaning V) (memory : Memory V) {name operand : String} (v : V)
    (h : Language.base operand = name) (hr : name ∉ Language.reserved) :
    (memory.declare name v).read? M operand =
      some (if Language.member operand = "" then v else M.channel (Language.member operand) v) := by
  subst h
  simp only [read?, if_neg hr, declare, Function.update_self]
  split <;> rfl

end Memory

end RenderKit
