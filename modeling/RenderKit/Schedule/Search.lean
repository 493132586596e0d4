/-!
# Searching a table of links

Whether one slot of a table can be reached from another along links. The search keeps the slots it
has still to look at and those it has seen; every slot hands over its links once, so there are no
more steps than links and one.
-/

namespace RenderKit.Schedule

/-- The links of a slot; a slot outside of the table has none. -/
def linksOf (table : List (List Nat)) (slot : Nat) : List Nat :=
  table[slot]?.getD []

/-- Whether the goal is among the pending slots or can be reached from one of them along slots not
seen yet, in at most `fuel` steps. -/
def search (table : List (List Nat)) (goal : Nat) : Nat → List Nat → List Nat → Bool
  | 0, _, _ => false
  | _ + 1, _, [] => false
  | fuel + 1, seen, slot :: pending =>
    if slot = goal then true
    else if slot ∈ seen then search table goal fuel seen pending
    else search table goal fuel (slot :: seen) (linksOf table slot ++ pending)

/-- Whether a slot is another one or leads to it along links. -/
def leadsTo (table : List (List Nat)) (slot goal : Nat) : Bool :=
  search table goal (table.flatten.length + 1) [] [slot]

end RenderKit.Schedule
