/-!
# Ways

A recursion along links that keeps the places on its way and never goes to one of them again. There
is less room with every step (`room_cons_lt`), so it ends, and what holds of it is proved from the
longer ways back to the shorter ones (`way_induction`).
-/

namespace RenderKit

variable {α : Type} [DecidableEq α]

/-- How many of some places are not on a way. -/
def room (places way : List α) : Nat :=
  places.countP (· ∉ way)

theorem room_nil (places : List α) : room places [] = places.length := by
  simp [room]

/-- A place that is put on the way takes its room. -/
theorem room_cons_lt {places way : List α} {place : α} (hp : place ∈ places) (hw : place ∉ way) :
    room places (place :: way) < room places way := by
  have hsplit : places.filter (· ∉ place :: way) =
      (places.filter (· ∉ way)).filter (· ≠ place) := by
    rw [List.filter_filter]
    congr 1
    funext other
    simp
  rw [room, room, List.countP_eq_length_filter, List.countP_eq_length_filter, hsplit,
    List.length_filter_lt_length_iff_exists]
  exact ⟨place, by simp [hp, hw], by simp⟩

/-- What holds of a way if it holds of all ways with one more place holds of every way. -/
theorem way_induction (places : List α) {P : List α → Prop}
    (step : ∀ way, (∀ place ∈ places, place ∉ way → P (place :: way)) → P way) (way : List α) :
    P way := by
  induction hroom : room places way using Nat.strongRecOn generalizing way with
  | ind n ih =>
    refine step way fun place hp hw => ih _ ?_ (place :: way) rfl
    rw [← hroom]
    exact room_cons_lt hp hw

end RenderKit
