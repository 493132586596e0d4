import RenderKit.Json.Decode
import RenderKit.Node.Input
import RenderKit.Node.Math
import RenderKit.Node.Output

/-!
# Enumerations as JSON

Stages, operations, given values and results are written by their names.
-/

namespace RenderKit

open Json

/-- The name of a stage. -/
def Stage.toJson (s : Stage) : Value :=
  .ofText s.name

/-- The stage that a value names. -/
def Stage.ofJson? (v : Value) : Option Stage :=
  v.variant? ofName?

/-- The name of an operation. -/
def MathOperation.toJson (op : MathOperation) : Value :=
  .ofText op.name

/-- The operation that a value names. -/
def MathOperation.ofJson? (v : Value) : Option MathOperation :=
  v.variant? ofName?

/-- The name of a given value. -/
def InputSemantic.toJson (semantic : InputSemantic) : Value :=
  .ofText semantic.name

/-- The given value that a value names. -/
def InputSemantic.ofJson? (v : Value) : Option InputSemantic :=
  v.variant? ofName?

/-- The name of a result. -/
def OutputSemantic.toJson (semantic : OutputSemantic) : Value :=
  .ofText semantic.name

/-- The result that a value names. -/
def OutputSemantic.ofJson? (v : Value) : Option OutputSemantic :=
  v.variant? ofName?

@[simp] theorem Stage.ofJson?_toJson (s : Stage) : ofJson? s.toJson = some s :=
  ofName?_name s

@[simp] theorem MathOperation.ofJson?_toJson (op : MathOperation) :
    ofJson? op.toJson = some op :=
  ofName?_name op

@[simp] theorem InputSemantic.ofJson?_toJson (semantic : InputSemantic) :
    ofJson? semantic.toJson = some semantic :=
  ofName?_name semantic

@[simp] theorem OutputSemantic.ofJson?_toJson (semantic : OutputSemantic) :
    ofJson? semantic.toJson = some semantic :=
  ofName?_name semantic

end RenderKit
