import RenderKit.Pin

/-!
# Node descriptors

What a node family says about its nodes: a name, a place in the catalogue, a line of description
and the pins.
-/

namespace RenderKit

/-- The face of a node family. -/
structure Descriptor where
  name : String
  category : String
  description : String := ""
  inputs : List PinSpec := []
  outputs : List PinSpec := []
deriving DecidableEq, Repr

end RenderKit
