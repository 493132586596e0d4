import RenderKit.Schedule.Pass
import RenderKit.Schedule.Search

/-!
# Dependencies of passes

Which passes must run before a pass, by their slots in the order of declaration. A reader follows
the latest earlier writer of a resource; a writer follows the latest earlier writer and all earlier
readers; a pass follows those that it names. A reader of what no earlier pass writes gets it from
a later writer: if that writer consumes the reader's own output, the two feed each other, and the
reader must follow the writer too, which no order can satisfy.
-/

namespace RenderKit

/-- Why passes cannot be scheduled. -/
inductive ScheduleError where
  | duplicatePass (name : String)
  | passNotFound (name : String)
  | cycle (name : String)
deriving DecidableEq, Repr

namespace ScheduleError

/-- The diagnostic of an error. -/
def message : ScheduleError → String
  | .duplicatePass name => "a pass named '" ++ name ++ "' already exists"
  | .passNotFound name => "no pass named '" ++ name ++ "'"
  | .cycle name => "dependency cycle detected at pass '" ++ name ++ "'"

end ScheduleError

namespace Schedule

variable {σ : Type}

/-- The slots of passes by their names. -/
def slotsByName (passes : List (Pass σ)) : Table Nat :=
  passes.zipIdx.foldl (fun index entry => index.insert entry.1.name entry.2) .empty

/-- The slots of the passes with a property, in ascending order. -/
def slotsWhere (passes : List (Pass σ)) (p : Pass σ → Bool) : List Nat :=
  (passes.zipIdx.filter fun entry => p entry.1).map (·.2)

/-- The slots of the passes that write a resource. -/
def writers (passes : List (Pass σ)) (resource : String) : List Nat :=
  slotsWhere passes (·.writes.contains resource)

/-- The slots of the passes that read a resource. -/
def readers (passes : List (Pass σ)) (resource : String) : List Nat :=
  slotsWhere passes (·.reads.contains resource)

/-- The latest writer of a resource before a slot. -/
def latestWriter? (passes : List (Pass σ)) (slot : Nat) (resource : String) : Option Nat :=
  (writers (passes.take slot) resource).getLast?

/-- The passes whose output a pass consumes. -/
def consumed (passes : List (Pass σ)) (entry : Pass σ × Nat) : List Nat :=
  let (pass, slot) := entry
  (pass.reads.names.filterMap (latestWriter? passes slot)).eraseDups

/-- For every slot the passes whose output it consumes. -/
def consumption (passes : List (Pass σ)) : List (List Nat) :=
  passes.zipIdx.map (consumed passes)

/-- The passes that a writer of a resource follows. -/
def beforeWriting (passes : List (Pass σ)) (slot : Nat) (resource : String) : List Nat :=
  (latestWriter? passes slot resource).toList ++ readers (passes.take slot) resource

/-- The passes that a pass names, found in an index of names. -/
def named (index : Table Nat) (pass : Pass σ) : Except ScheduleError (List Nat) :=
  pass.after.mapM fun name =>
    match index.get? name with
    | some slot => .ok slot
    | none => .error (.passNotFound name)

/-- The later writers that a pass and its own output feed each other with. -/
def feedback (passes : List (Pass σ)) (consumption : List (List Nat)) (entry : Pass σ × Nat) :
    List Nat :=
  let (pass, slot) := entry
  pass.reads.names.flatMap fun resource =>
    let sources := writers passes resource
    if sources.any (· < slot) then []
    else sources.filter fun writer => writer != slot && leadsTo consumption writer slot

/-- The passes that a pass follows, each once: what it consumes first, then what its writing waits
for, then what it names, then what feeds back to it. -/
def dependenciesOf (passes : List (Pass σ)) (index : Table Nat) (consumption : List (List Nat))
    (entry : Pass σ × Nat) : Except ScheduleError (List Nat) := do
  let (pass, slot) := entry
  let explicit ← named index pass
  return (consumed passes entry ++ pass.writes.names.flatMap (beforeWriting passes slot)
    ++ explicit ++ feedback passes consumption entry).eraseDups

/-- For every slot the passes that it follows. -/
def dependencies (passes : List (Pass σ)) (index : Table Nat) :
    Except ScheduleError (List (List Nat)) :=
  passes.zipIdx.mapM (dependenciesOf passes index (consumption passes))

end Schedule

end RenderKit
