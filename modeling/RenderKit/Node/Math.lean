import RenderKit.Node.Descriptor
import RenderKit.Shader.Snippet

/-!
# Arithmetic nodes

The operations of the shading language on one or two operands, each a node with one result.
-/

namespace RenderKit

/-- An operation of the shading language. -/
inductive MathOperation where
  | add
  | subtract
  | multiply
  | divide
  | dot
  | cross
  | normalize
  | length
  | power
  | min
  | max
  | abs
  | sin
  | cos
  | tan
deriving DecidableEq, Repr

namespace MathOperation

/-- All operations. -/
def all : List MathOperation :=
  [.add, .subtract, .multiply, .divide, .dot, .cross, .normalize, .length, .power, .min, .max,
    .abs, .sin, .cos, .tan]

/-- The name of an operation in documents. -/
def name : MathOperation → String
  | .add => "Add"
  | .subtract => "Subtract"
  | .multiply => "Multiply"
  | .divide => "Divide"
  | .dot => "Dot"
  | .cross => "Cross"
  | .normalize => "Normalize"
  | .length => "Length"
  | .power => "Power"
  | .min => "Min"
  | .max => "Max"
  | .abs => "Abs"
  | .sin => "Sin"
  | .cos => "Cos"
  | .tan => "Tan"

/-- The operation with a name. -/
def ofName? (s : String) : Option MathOperation :=
  all.find? (·.name == s)

/-- The title of an operation's nodes. -/
def title : MathOperation → String
  | .dot => "Dot Product"
  | .cross => "Cross Product"
  | .abs => "Absolute"
  | .sin => "Sine"
  | .cos => "Cosine"
  | .tan => "Tangent"
  | op => op.name

/-- The type of the result. -/
def resultType : MathOperation → PinType
  | .cross | .normalize => .vec3
  | _ => .float

/-- The literal of the zero vector. -/
def zeroVector : String := "float3(0,0,0)"

/-- The operands. -/
def inputs : MathOperation → List PinSpec
  | .add | .subtract | .multiply | .min | .max => [⟨"A", .float, "0.0"⟩, ⟨"B", .float, "0.0"⟩]
  | .divide => [⟨"A", .float, "0.0"⟩, ⟨"B", .float, "1.0"⟩]
  | .dot | .cross => [⟨"A", .vec3, zeroVector⟩, ⟨"B", .vec3, zeroVector⟩]
  | .normalize | .length => [⟨"Vector", .vec3, zeroVector⟩]
  | .power => [⟨"Base", .float, "0.0"⟩, ⟨"Exponent", .float, "1.0"⟩]
  | .abs | .sin | .cos | .tan => [⟨"Value", .float, "0.0"⟩]

/-- How an operation is written: its mark between two operands, or the name of a function of one
or of two. -/
inductive Form where
  | between (mark : String)
  | unary (function : String)
  | binary (function : String)
deriving DecidableEq, Repr

/-- How each operation is written. -/
def form : MathOperation → Form
  | .add => .between "+"
  | .subtract => .between "-"
  | .multiply => .between "*"
  | .divide => .between "/"
  | .dot => .binary "dot"
  | .cross => .binary "cross"
  | .normalize => .unary "normalize"
  | .length => .unary "length"
  | .power => .binary "pow"
  | .min => .binary "min"
  | .max => .binary "max"
  | .abs => .unary "abs"
  | .sin => .unary "sin"
  | .cos => .unary "cos"
  | .tan => .unary "tan"

/-- An operation on its operands. A missing operand is no text. -/
def term (op : MathOperation) (operands : List String) : Term :=
  let first := operands[0]?.getD ""
  let second := operands[1]?.getD ""
  match op.form with
  | .between mark => .between mark first second
  | .unary function => .call function [first]
  | .binary function => .call function [first, second]

/-- The face of an operation's nodes. -/
def descriptor (op : MathOperation) : Descriptor :=
  { name := op.title
    category := "Math"
    inputs := op.inputs
    outputs := [⟨"Result", op.resultType, ""⟩] }

/-- A local holds the result. -/
def snippet (op : MathOperation) (node : NodeId) (operands : List String) : Snippet :=
  let result := localName "math" node
  .write (.declare op.resultType result (op.term operands)) (.bind 0 result .done)

/-- Every operation is found by its name. -/
@[simp] theorem ofName?_name (op : MathOperation) : ofName? op.name = some op := by
  cases op <;> decide

end MathOperation

end RenderKit
