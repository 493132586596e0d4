/-!
# Pins

The sockets of a shader node: what a node family declares (`PinSpec`) and what a node in a graph
carries (`Pin`), which also knows whether a connection ends there.
-/

namespace RenderKit

/-- The type of the value that passes through a pin. -/
inductive PinType where
  | float
  | vec2
  | vec3
  | vec4
  | int
  | bool
  | sampler2D
  | matrix
deriving DecidableEq, Repr

namespace PinType

/-- All pin types. -/
def all : List PinType :=
  [.float, .vec2, .vec3, .vec4, .int, .bool, .sampler2D, .matrix]

/-- The name of a type in documents. -/
def name : PinType → String
  | .float => "float"
  | .vec2 => "vec2"
  | .vec3 => "vec3"
  | .vec4 => "vec4"
  | .int => "int"
  | .bool => "bool"
  | .sampler2D => "sampler2D"
  | .matrix => "matrix"

/-- The type with a name. -/
def ofName? (s : String) : Option PinType :=
  all.find? (·.name == s)

/-- The spelling of a type in shader source. -/
def shaderName : PinType → String
  | .float => "float"
  | .vec2 => "float2"
  | .vec3 => "float3"
  | .vec4 => "float4"
  | .int => "int"
  | .bool => "bool"
  | .sampler2D => "Texture2D"
  | .matrix => "float4x4"

/-- The type of a vector of that many components; of any other number it is a float. -/
def vector (components : UInt32) : PinType :=
  if components = 2 then .vec2
  else if components = 3 then .vec3
  else if components = 4 then .vec4
  else .float

/-- Every type is found by its name. -/
@[simp] theorem ofName?_name (t : PinType) : ofName? t.name = some t := by
  cases t <;> decide

end PinType

/-- A pin as a node family declares it. -/
structure PinSpec where
  name : String
  type : PinType
  default : String := ""
deriving DecidableEq, Repr

/-- A pin of a node. An input without a connection stands for its default literal. -/
structure Pin where
  name : String
  type : PinType
  default : String
  connected : Bool := false
deriving DecidableEq, Repr

namespace PinSpec

/-- The pin of a fresh node. -/
def pin (s : PinSpec) : Pin :=
  { name := s.name, type := s.type, default := s.default }

end PinSpec

namespace Pin

/-- The declaration of a pin, without its connection. -/
def spec (p : Pin) : PinSpec :=
  { name := p.name, type := p.type, default := p.default }

end Pin

/-- A fresh pin has the declaration it was made from. -/
@[simp] theorem Pin.spec_pin (s : PinSpec) : s.pin.spec = s := rfl

end RenderKit
