import RenderKit.Node.Descriptor
import RenderKit.Shader.Snippet

/-!
# Vector nodes

A vector is made of two to four scalars, one for each component.
-/

namespace RenderKit

/-- A node's parameter that no node can have. -/
inductive NodeError where
  | invalidVectorArity (components : UInt32)
deriving DecidableEq, Repr

namespace NodeError

/-- The diagnostic of an error. -/
def message : NodeError → String
  | .invalidVectorArity components =>
    "vector nodes take 2 to 4 components, got " ++ toString components

end NodeError

/-- The number of components of a vector. -/
structure VectorArity where
  components : UInt32
  two_le : 2 ≤ components := by decide
  le_four : components ≤ 4 := by decide
deriving DecidableEq, Repr

namespace VectorArity

/-- A number of components, if a vector can have it. -/
def of (components : UInt32) : Except NodeError VectorArity :=
  if h : 2 ≤ components ∧ components ≤ 4 then .ok ⟨components, h.1, h.2⟩
  else .error (.invalidVectorArity components)

/-- The names of the components. -/
def componentNames : List String := ["X", "Y", "Z", "W"]

/-- The type of a vector. -/
def type (a : VectorArity) : PinType :=
  .vector a.components

/-- The face of a vector's nodes. -/
def descriptor (a : VectorArity) : Descriptor :=
  { name := "Vector" ++ toString a.components
    category := "Math"
    inputs := (componentNames.take a.components.toNat).map fun name => ⟨name, .float, "0.0"⟩
    outputs := [⟨"Vector", a.type, ""⟩] }

/-- A local holds the vector. -/
def snippet (a : VectorArity) (node : NodeId) (scalars : List String) : Snippet :=
  let result := localName "vector" node
  .write (.declare a.type result (.call a.type.shaderName scalars)) (.bind 0 result .done)

theorem of_eq_ok_iff {n : UInt32} {a : VectorArity} : of n = .ok a ↔ a.components = n := by
  unfold of
  constructor
  · intro h
    split at h
    · cases h; rfl
    · cases h
  · rintro rfl
    rw [dif_pos ⟨a.two_le, a.le_four⟩]

end VectorArity

end RenderKit
