import RenderKit.Shader.Statement
import Std.Data.TreeMap

/-!
# Snippets

What one node contributes to the source of a shader. A snippet is a program of a few steps: write a
statement, bind an output of the node to an expression, ask whether an output is bound already,
refuse a name that no identifier can be, and fail with any error. It runs against a sheet, which
holds the statements written so far and the bound outputs of all nodes.
-/

namespace RenderKit

/-- The number of a shader node. -/
abbrev NodeId := UInt32

/-- Why a shader graph has no source. -/
inductive CodegenError where
  | cycle (node : NodeId)
  | nodeNotFound (node : NodeId)
  | unresolvedInput (node : NodeId) (pin : String)
  | missingVariable (node : NodeId) (output : Nat)
  | unboundOutput (node : NodeId) (output : Nat)
  | invalidName (node : NodeId) (name : String)
deriving DecidableEq, Repr

namespace CodegenError

/-- The diagnostic of an error. -/
def message : CodegenError → String
  | .cycle node => "cycle detected at node " ++ toString node
  | .nodeNotFound node =>
    "node " ++ toString node ++ " referenced by a connection does not exist"
  | .unresolvedInput node pin =>
    "input '" ++ pin ++ "' of node " ++ toString node ++ " is unconnected and has no default value"
  | .missingVariable node output =>
    "output " ++ toString output ++ " of node " ++ toString node ++ " has no generated variable"
  | .unboundOutput node output =>
    "node " ++ toString node ++ " did not bind output " ++ toString output
  | .invalidName node name =>
    "node " ++ toString node ++ " uses '" ++ name ++ "', which is not a usable shader identifier"

end CodegenError

/-- One output of one node. -/
structure OutputKey where
  node : NodeId
  output : Nat
deriving DecidableEq, Repr

namespace OutputKey

/-- How many numbers a node has for its outputs. -/
def stride : Nat := 1000

/-- The number of an output among the outputs of all nodes. -/
def value (k : OutputKey) : Nat :=
  k.node.toNat * stride + k.output

/-- Outputs within the stride have a number of their own. -/
theorem value_inj {a b : OutputKey} (ha : a.output < stride) (hb : b.output < stride)
    (h : a.value = b.value) : a = b := by
  obtain ⟨m, i⟩ := a
  obtain ⟨n, j⟩ := b
  simp only [value, stride] at *
  have hn : m.toNat = n.toNat := by omega
  have : m = n := UInt32.toNat_inj.1 hn
  subst this
  simp only [OutputKey.mk.injEq, true_and]
  omega

end OutputKey

/-- The statements written so far, in order, and the expressions bound to outputs, by the number
of the output. -/
structure Sheet where
  statements : List Statement := []
  bindings : Std.TreeMap Nat String := ∅

namespace Sheet

/-- Appends a statement. -/
def write (s : Sheet) (statement : Statement) : Sheet :=
  { s with statements := s.statements ++ [statement] }

/-- Binds an output to an expression, in place of the one it had. -/
def bind (s : Sheet) (key : OutputKey) (expression : String) : Sheet :=
  { s with bindings := s.bindings.insert key.value expression }

/-- The expression bound to an output. -/
def get? (s : Sheet) (key : OutputKey) : Option String :=
  s.bindings[key.value]?

/-- Whether an output is bound. -/
def isBound (s : Sheet) (key : OutputKey) : Bool :=
  (s.get? key).isSome

@[simp] theorem statements_write (s : Sheet) (statement : Statement) :
    (s.write statement).statements = s.statements ++ [statement] := rfl

@[simp] theorem get?_write (s : Sheet) (statement : Statement) (key : OutputKey) :
    (s.write statement).get? key = s.get? key := rfl

theorem get?_bind (s : Sheet) (key other : OutputKey) (expression : String) :
    (s.bind key expression).get? other
      = if key.value = other.value then some expression else s.get? other := by
  simp [get?, bind, Std.TreeMap.getElem?_insert]

end Sheet

/-- What a node contributes to the source. -/
inductive Snippet where
  /-- Nothing more. -/
  | done
  /-- The node uses a name that is no identifier. -/
  | reject (name : String)
  /-- The node has no source, for a reason of its own. -/
  | fail (error : CodegenError)
  /-- A statement on a line of its own. -/
  | write (statement : Statement) (next : Snippet)
  /-- An output stands for an expression from now on. -/
  | bind (output : Nat) (expression : String) (next : Snippet)
  /-- What follows depends on whether an output of the node is bound. -/
  | ifBound (output : Nat) (next : Bool → Snippet)

namespace Snippet

/-- Runs the snippet of a node. What it did before it failed stays on the sheet. -/
def run (node : NodeId) : Snippet → Sheet → Sheet × Option CodegenError
  | .done, sheet => (sheet, none)
  | .reject name, sheet => (sheet, some (.invalidName node name))
  | .fail error, sheet => (sheet, some error)
  | .write statement next, sheet => next.run node (sheet.write statement)
  | .bind output expression next, sheet => next.run node (sheet.bind ⟨node, output⟩ expression)
  | .ifBound output next, sheet => (next (sheet.isBound ⟨node, output⟩)).run node sheet

/-- Statements in order. -/
def writes (statements : List Statement) (next : Snippet) : Snippet :=
  statements.foldr .write next

/-- Bindings in order. -/
def binds (bindings : List (Nat × String)) (next : Snippet) : Snippet :=
  bindings.foldr (fun b rest => .bind b.1 b.2 rest) next

end Snippet

/-- The name of a local of a node: a word and the node's number. -/
def localName (word : String) (node : NodeId) : String :=
  word ++ "_" ++ toString node

/-- The name of a local for one output of a node. -/
def outputName (word : String) (node : NodeId) (output : Nat) : String :=
  localName word node ++ "_out" ++ toString output

end RenderKit
