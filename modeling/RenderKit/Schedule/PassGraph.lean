import RenderKit.Schedule.Inference
import RenderKit.Schedule.Order

/-!
# Pass graphs

Passes in the order of their declaration, with unique names, an index of the names, and what a build
found for them: the dependencies of every slot, and an order. A change of the passes drops both, and
so does a build that fails; answers are drawn from the one or the other.
-/

namespace RenderKit

/-- What a build found: the dependencies of every slot, and an order. -/
structure Plan where
  dependencies : List (List Nat)
  order : List Nat
deriving DecidableEq, Repr

/-- Passes, the slots of their names, the dependencies of every slot, and an order once there is
one. -/
structure PassGraph (σ : Type) where
  name : String := "Render Graph"
  passes : List (Pass σ) := []
  index : Table Nat := .empty
  dependencies : List (List Nat) := []
  sorted : Option (List Nat) := none

namespace PassGraph

variable {σ : Type}

/-- The pass with a name. -/
def pass? (g : PassGraph σ) (name : String) : Option (Pass σ) :=
  (g.index.get? name).bind fun slot => g.passes[slot]?

/-- The name of the pass in a slot. -/
def nameAt (g : PassGraph σ) (slot : Nat) : String :=
  (g.passes[slot]?.map (·.name)).getD ""

/-- Whether there is an order. -/
def isBuilt (g : PassGraph σ) : Bool :=
  g.sorted.isSome

/-- The graph without dependencies and order. -/
def unplanned (g : PassGraph σ) : PassGraph σ :=
  { g with dependencies := [], sorted := none }

/-- The graph with what a build found. -/
def withPlan (g : PassGraph σ) (plan : Plan) : PassGraph σ :=
  { g with dependencies := plan.dependencies, sorted := some plan.order }

/-- The graph under another name. -/
def rename (g : PassGraph σ) (name : String) : PassGraph σ :=
  { g with name := name }

/-- Puts a pass behind the others. -/
def push (g : PassGraph σ) (p : Pass σ) : PassGraph σ :=
  { g with passes := g.passes ++ [p], index := g.index.insert p.name g.passes.length }

/-- Declares a pass of a new name behind the others. -/
def add (g : PassGraph σ) (p : Pass σ) : Except ScheduleError (PassGraph σ) :=
  if g.index.contains p.name then .error (.duplicatePass p.name) else .ok (g.push p).unplanned

/-- The graph without the pass in a slot, its names indexed anew. -/
def without (g : PassGraph σ) (slot : Nat) : PassGraph σ :=
  let passes := g.passes.eraseIdx slot
  { g with passes := passes, index := Schedule.slotsByName passes }

/-- Takes a pass out. -/
def remove (g : PassGraph σ) (name : String) : Except ScheduleError (Pass σ × PassGraph σ) :=
  match g.index.get? name, g.pass? name with
  | some slot, some p => .ok (p, (g.without slot).unplanned)
  | _, _ => .error (.passNotFound name)

/-- The schedule of the passes. -/
def planned (g : PassGraph σ) : Except ScheduleError Plan := do
  let dependencies ← Schedule.dependencies g.passes g.index
  let order ← (Schedule.order dependencies).mapError fun slot => .cycle (g.nameAt slot)
  return ⟨dependencies, order⟩

/-- Schedules the passes anew. -/
def build (g : PassGraph σ) : Except ScheduleError Unit × PassGraph σ :=
  match g.planned with
  | .ok plan => (.ok (), g.withPlan plan)
  | .error e => (.error e, g.unplanned)

/-- The passes that a pass follows, if they were found. -/
def dependencies? (g : PassGraph σ) (name : String) : Option (List String) := do
  let slot ← g.index.get? name
  let slots ← g.dependencies[slot]?
  return slots.map g.nameAt

/-- The names of the passes in order. -/
def orderedNames (g : PassGraph σ) : List String :=
  match g.sorted with
  | some order => order.map g.nameAt
  | none => []

/-- The names of the passes, wave by wave. -/
def levels (g : PassGraph σ) : List (List String) :=
  match g.sorted with
  | some order => (Schedule.waves g.dependencies order).map (·.map g.nameAt)
  | none => []

/-- The state after the passes in some slots ran. -/
def runSlots (g : PassGraph σ) (slots : List Nat) (s : σ) : σ :=
  slots.foldl (fun s slot =>
    match g.passes[slot]? with
    | some p => p.run s
    | none => s) s

/-- Runs every pass in order, and schedules the passes first if there is no order. -/
def execute (g : PassGraph σ) (s : σ) : Except ScheduleError Unit × PassGraph σ × σ :=
  let (result, g) := if g.isBuilt then (.ok (), g) else g.build
  match result with
  | .ok _ => (.ok (), g, g.runSlots (g.sorted.getD []) s)
  | .error e => (.error e, g, s)

/-- The graph of passes in the order of their declaration. -/
def ofPasses (name : String) (passes : List (Pass σ)) : PassGraph σ :=
  passes.foldl push { name := name }

/-- Shadows, geometry, lighting and post-processing. -/
def standard : PassGraph σ :=
  let idle : Option (σ → σ) := some id
  .ofPasses "Default Render Graph"
    [{ name := "ShadowPass", writes := .ofList ["ShadowMap"], callback := idle },
      { name := "GeometryPass", reads := .ofList ["ShadowMap"], writes := .ofList ["GBuffer"],
        callback := idle },
      { name := "LightingPass", reads := .ofList ["GBuffer", "ShadowMap"],
        writes := .ofList ["LightBuffer"], callback := idle },
      { name := "PostProcessPass", reads := .ofList ["LightBuffer"],
        writes := .ofList ["FinalImage"], callback := idle }]

@[simp] theorem sorted_unplanned (g : PassGraph σ) : g.unplanned.sorted = none := rfl

@[simp] theorem sorted_withPlan (g : PassGraph σ) (plan : Plan) :
    (g.withPlan plan).sorted = some plan.order := rfl

/-- A failed build leaves no order. -/
theorem isBuilt_build (g : PassGraph σ) : g.build.2.isBuilt = g.planned.isOk := by
  unfold build
  split <;> rename_i h <;> simp [h, isBuilt, Except.isOk, Except.toBool]

end PassGraph

end RenderKit
