import RenderKit.Schedule.Search
import RenderKit.Way

/-!
# Orders and waves

A list of slots in which every slot stands behind those that it depends on, found by visiting
slots in turn and each behind its dependencies, and the waves of such an order: the slots by the
length of the longest chain of dependencies below them. A visit keeps the slots on its way and goes
to none of them again, so it ends.
-/

namespace RenderKit.Schedule

/-- Appends a slot behind its dependencies to the slots that are done, at the end of a way of slots
that wait for it. A slot that waits for itself is the error. -/
def visit (table : List (List Nat)) (way done : List Nat) (slot : Nat) : Except Nat (List Nat) :=
  if slot ∈ done then .ok done
  else if hway : slot ∈ way then .error slot
  else if hslot : slot < table.length then do
    let done ← table[slot].foldlM (fun done next => visit table (slot :: way) done next) done
    return done ++ [slot]
  else .ok (done ++ [slot])
termination_by room (List.range table.length) way
decreasing_by exact room_cons_lt (List.mem_range.2 hslot) hway

/-- A visit of a slot that is neither done nor waiting visits its links, of which a slot outside of
the table has none. -/
theorem visit_eq (table : List (List Nat)) (way done : List Nat) (slot : Nat) :
    visit table way done slot =
      if slot ∈ done then .ok done
      else if slot ∈ way then .error slot
      else do
        let done ← (linksOf table slot).foldlM (visit table (slot :: way)) done
        return done ++ [slot] := by
  rw [visit]
  by_cases hslot : slot < table.length
  · simp only [dif_pos hslot, linksOf, List.getElem?_eq_getElem hslot, Option.getD_some]
    split <;> rfl
  · simp only [dif_neg hslot, linksOf, List.getElem?_eq_none (Nat.le_of_not_lt hslot)]
    split <;> rfl

/-- An order of all slots of a table. -/
def order (table : List (List Nat)) : Except Nat (List Nat) :=
  (List.range table.length).foldlM (visit table []) []

/-- The waves of the slots of an order, in that order. -/
def ranks (table : List (List Nat)) (order : List Nat) : List (Nat × Nat) :=
  order.foldl (fun ranks slot =>
    let below := (linksOf table slot).map fun dependency => (ranks.lookup dependency).getD 0 + 1
    ranks ++ [(slot, below.foldl max 0)]) []

/-- The slots of an order, wave by wave. -/
def waves (table : List (List Nat)) (order : List Nat) : List (List Nat) :=
  let ranks := ranks table order
  let count := (ranks.map fun entry => entry.2 + 1).foldl max 0
  (List.range count).map fun k => (ranks.filter (·.2 == k)).map (·.1)

end RenderKit.Schedule
