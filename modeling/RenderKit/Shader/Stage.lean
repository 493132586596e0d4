/-!
# Shader stages

The two programs of the graphics pipeline that a shader graph is compiled to.
-/

namespace RenderKit

/-- A program of the graphics pipeline. -/
inductive Stage where
  | vertex
  | fragment
deriving DecidableEq, Repr

namespace Stage

/-- Both stages. -/
def all : List Stage := [.vertex, .fragment]

/-- The name of a stage. -/
def name : Stage → String
  | .vertex => "Vertex"
  | .fragment => "Fragment"

/-- The stage with a name. -/
def ofName? (s : String) : Option Stage :=
  all.find? (·.name == s)

/-- Every stage is found by its name. -/
@[simp] theorem ofName?_name (s : Stage) : ofName? s.name = some s := by
  cases s <;> decide

end Stage

end RenderKit
