import RenderKit.Pin

/-!
# Statements

The statements that nodes write into the source of a shader. Operands are the texts of single
expressions: a local, a channel of one, a literal, or the name of something given. A built-in
family writes statements of a known form; a definition writes lines of its own.
-/

namespace RenderKit

/-- The right-hand side of a declaration. -/
inductive Term where
  /-- An operation on two operands by its mark. -/
  | between (mark first second : String)
  /-- A function or a constructor on its operands. -/
  | call (function : String) (operands : List String)
  /-- A texture at a coordinate. -/
  | sample (texture coordinate : String)
deriving DecidableEq, Repr

namespace Term

/-- The source of a term. -/
def text : Term → String
  | .between mark first second => first ++ " " ++ mark ++ " " ++ second
  | .call function operands => function ++ "(" ++ ", ".intercalate operands ++ ")"
  | .sample texture coordinate =>
    texture ++ ".Sample(" ++ texture ++ "Sampler, " ++ coordinate ++ ")"

end Term

/-- A statement of a shader. -/
inductive Statement where
  /-- A local of a type, with its value. -/
  | declare (type : PinType) (name : String) (term : Term)
  /-- A field of the results takes a value. -/
  | assign (field value : String)
  /-- An offset is added to the vertex's position. -/
  | offset (value : String)
  /-- A line as it is. -/
  | verbatim (line : String)
deriving DecidableEq, Repr

namespace Statement

/-- The variable that holds the results of a stage. -/
def resultsName : String := "output"

/-- The variable that holds the vertex's position before it is transformed. -/
def positionName : String := "localPosition"

/-- The source of a field of the results. -/
def fieldText (field : String) : String :=
  resultsName ++ "." ++ field

/-- The source of a statement. -/
def text : Statement → String
  | .declare type name term => type.shaderName ++ " " ++ name ++ " = " ++ term.text ++ ";"
  | .assign field value => fieldText field ++ " = " ++ value ++ ";"
  | .offset value => positionName ++ " += " ++ value ++ ";"
  | .verbatim line => line

/-- Statements on lines of their own behind an indent. -/
def lines (indent : String) (statements : List Statement) : String :=
  String.join (statements.map fun statement => indent ++ statement.text ++ "\n")

theorem lines_append (indent : String) (first second : List Statement) :
    lines indent (first ++ second) = lines indent first ++ lines indent second := by
  simp [lines, String.join_append]

theorem lines_flatMap {α : Type} (indent : String) (f : α → List Statement) (xs : List α) :
    lines indent (xs.flatMap f) = String.join (xs.map fun x => lines indent (f x)) := by
  induction xs with
  | nil => rfl
  | cons x xs ih => rw [List.flatMap_cons, lines_append, ih, List.map_cons, String.join_cons]

end Statement

end RenderKit
