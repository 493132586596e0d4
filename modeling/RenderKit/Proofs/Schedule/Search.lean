import RenderKit.Schedule.Search
import Mathlib.Algebra.BigOperators.Intervals
import Mathlib.Logic.Relation

/-!
# Reachability along links

The search of a table finds a slot exactly when links lead to it. Soundness follows the pending
slots; completeness rests on an invariant of the seen ones: their links are seen or pending, so
when nothing is pending any more they are closed under links.
-/

namespace RenderKit.Schedule

open Relation

/-- A slot has a link to another. -/
def Link (table : List (List Nat)) (slot next : Nat) : Prop :=
  next ∈ linksOf table slot

variable {table : List (List Nat)} {goal : Nat}

/-- A slot outside of the table has no links. -/
theorem lt_of_link {slot next : Nat} (h : Link table slot next) : slot < table.length := by
  by_contra hs
  rw [Link, linksOf, List.getElem?_eq_none (Nat.le_of_not_lt hs)] at h
  simp at h

private theorem exists_reaches_of_search {fuel : Nat} {seen pending : List Nat}
    (h : search table goal fuel seen pending = true) :
    ∃ slot ∈ pending, ReflTransGen (Link table) slot goal := by
  induction fuel generalizing seen pending with
  | zero => simp [search] at h
  | succ fuel ih =>
    cases pending with
    | nil => simp [search] at h
    | cons slot pending =>
      rw [search] at h
      split at h
      · next hs => exact ⟨slot, by simp, hs ▸ .refl⟩
      · split at h
        · obtain ⟨s, hs, hr⟩ := ih h
          exact ⟨s, List.mem_cons_of_mem _ hs, hr⟩
        · obtain ⟨s, hs, hr⟩ := ih h
          rcases List.mem_append.mp hs with hs | hs
          · exact ⟨slot, by simp, hr.head hs⟩
          · exact ⟨s, List.mem_cons_of_mem _ hs, hr⟩

/-- The number of links that slots not seen yet have still to hand over. -/
def unseen (table : List (List Nat)) (seen : List Nat) : Nat :=
  ∑ slot ∈ Finset.range table.length with slot ∉ seen, (linksOf table slot).length

theorem unseen_cons {slot : Nat} {seen : List Nat} (h : slot ∉ seen) :
    unseen table (slot :: seen) + (linksOf table slot).length = unseen table seen := by
  have he : (Finset.range table.length).filter (· ∉ slot :: seen) =
      ((Finset.range table.length).filter (· ∉ seen)).erase slot := by
    ext s
    simp only [Finset.mem_filter, Finset.mem_erase, List.mem_cons, not_or]
    tauto
  rw [unseen, he]
  by_cases hs : slot < table.length
  · exact Finset.sum_erase_add _ _ (by simp [hs, h])
  · have hl : linksOf table slot = [] := by simp [linksOf, Nat.le_of_not_lt hs]
    rw [hl, Finset.erase_eq_of_notMem (by simp [hs])]
    rfl

theorem unseen_nil : unseen table [] = table.flatten.length := by
  simp only [unseen, List.not_mem_nil, not_false_eq_true, Finset.filter_true]
  induction table with
  | nil => rfl
  | cons links rest ih =>
    rw [List.length_cons, Finset.sum_range_succ', List.flatten_cons, List.length_append, ← ih,
      Nat.add_comm]
    simp [linksOf]

/-- Slots without the goal that are closed under links. -/
def Closed (table : List (List Nat)) (goal : Nat) (slots : List Nat) : Prop :=
  goal ∉ slots ∧ ∀ s ∈ slots, ∀ t, Link table s t → t ∈ slots

/-- What the seen slots of a search without result keep: none is the goal, and their links are seen
or pending. -/
def Searched (table : List (List Nat)) (goal : Nat) (seen pending : List Nat) : Prop :=
  goal ∉ seen ∧ ∀ s ∈ seen, ∀ t, Link table s t → t ∈ seen ∨ t ∈ pending

theorem Searched.skip {slot : Nat} {seen pending : List Nat}
    (h : Searched table goal seen (slot :: pending)) (hs : slot ∈ seen) :
    Searched table goal seen pending := by
  refine ⟨h.1, fun s hm t ht ↦ ?_⟩
  rcases h.2 s hm t ht with ht | ht
  · exact .inl ht
  · rcases List.mem_cons.mp ht with rfl | ht
    · exact .inl hs
    · exact .inr ht

theorem Searched.expand {slot : Nat} {seen pending : List Nat}
    (h : Searched table goal seen (slot :: pending)) (hg : slot ≠ goal) :
    Searched table goal (slot :: seen) (linksOf table slot ++ pending) := by
  refine ⟨by simp [Ne.symm hg, h.1], fun s hm t ht ↦ ?_⟩
  rcases List.mem_cons.mp hm with rfl | hm
  · exact .inr (List.mem_append_left _ ht)
  · rcases h.2 s hm t ht with ht | ht
    · exact .inl (List.mem_cons_of_mem _ ht)
    · rcases List.mem_cons.mp ht with rfl | ht
      · exact .inl (by simp)
      · exact .inr (List.mem_append_right _ ht)

/-- A search that fails with fuel to spare leaves a closed set around its slots. -/
private theorem exists_closed_of_search {fuel : Nat} {seen pending : List Nat}
    (hseen : Searched table goal seen pending)
    (hfuel : pending.length + unseen table seen ≤ fuel)
    (h : search table goal fuel seen pending = false) :
    ∃ slots, Closed table goal slots ∧ ∀ s, s ∈ seen ∨ s ∈ pending → s ∈ slots := by
  -- A step takes one pending slot away; an unseen one trades its links, which count as fuel so far.
  induction fuel generalizing seen pending with
  | zero =>
    have hp : pending = [] := List.length_eq_zero_iff.mp (by omega)
    subst hp
    exact ⟨seen, ⟨hseen.1, fun s hs t ht ↦ by simpa using hseen.2 s hs t ht⟩, by simp⟩
  | succ fuel ih =>
    cases pending with
    | nil => exact ⟨seen, ⟨hseen.1, fun s hs t ht ↦ by simpa using hseen.2 s hs t ht⟩, by simp⟩
    | cons slot pending =>
      rw [List.length_cons] at hfuel
      rw [search] at h
      split at h
      · cases h
      · next hg =>
        split at h
        · next hs =>
          obtain ⟨slots, hc, hin⟩ := ih (hseen.skip hs) (by omega) h
          refine ⟨slots, hc, fun s hm ↦ hin s ?_⟩
          rcases hm with hm | hm
          · exact .inl hm
          · rcases List.mem_cons.mp hm with rfl | hm
            · exact .inl hs
            · exact .inr hm
        · next hs =>
          have hu : unseen table (slot :: seen) + (linksOf table slot).length =
              unseen table seen := unseen_cons hs
          obtain ⟨slots, hc, hin⟩ := ih (hseen.expand hg)
            (by rw [List.length_append]; omega) h
          refine ⟨slots, hc, fun s hm ↦ hin s ?_⟩
          rcases hm with hm | hm
          · exact .inl (List.mem_cons_of_mem _ hm)
          · rcases List.mem_cons.mp hm with rfl | hm
            · exact .inl (by simp)
            · exact .inr (List.mem_append_right _ hm)

theorem Closed.mem_of_reaches {slots : List Nat} (hc : Closed table goal slots)
    {slot next : Nat} (hs : slot ∈ slots) (h : ReflTransGen (Link table) slot next) :
    next ∈ slots := by
  induction h with
  | refl => exact hs
  | tail _ hl ih => exact hc.2 _ ih _ hl

/-- More steps than links find the goal exactly when links lead to it. -/
theorem search_iff {fuel slot : Nat} (hfuel : table.flatten.length < fuel) :
    search table goal fuel [] [slot] = true ↔ ReflTransGen (Link table) slot goal := by
  constructor
  · intro h
    obtain ⟨s, hs, hr⟩ := exists_reaches_of_search h
    exact List.mem_singleton.mp hs ▸ hr
  · intro hr
    by_contra h
    rw [Bool.not_eq_true] at h
    have hseen : Searched table goal [] [slot] := ⟨by simp, by simp⟩
    obtain ⟨slots, hc, hin⟩ := exists_closed_of_search hseen
      (by rw [unseen_nil, List.length_singleton]; omega) h
    exact hc.1 (hc.mem_of_reaches (hin slot (by simp)) hr)

/-- The search finds the goal exactly when links lead to it. -/
theorem leadsTo_iff {slot : Nat} :
    leadsTo table slot goal = true ↔ ReflTransGen (Link table) slot goal :=
  search_iff (Nat.lt_succ_self _)

end RenderKit.Schedule
