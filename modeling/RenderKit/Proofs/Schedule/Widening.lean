import RenderKit.Proofs.Correspondence
import RenderKit.Proofs.Schedule.Order

/-!
# Tables with an idle slot

A slot that has no links and that no slot links to leaves the other slots of a table alone. The
others lead to each other as they do in the table without it (`Widened.leadsTo_eq`), and they are
visited in the same order, or the same slot is met on its own way (`Widened.corresponds_order`).
-/

namespace RenderKit.Schedule

open Relation

/-- Where a slot moves to when a gap is made in front of it, or behind it. -/
def skip (gap slot : Nat) : Nat :=
  if slot < gap then slot else slot + 1

section

variable {gap slot other : Nat}

@[simp] theorem skip_ne_gap (gap slot : Nat) : skip gap slot ≠ gap := by
  unfold skip
  split <;> omega

theorem skip_lt_skip_iff : skip gap slot < skip gap other ↔ slot < other := by
  unfold skip
  split <;> split <;> omega

theorem skip_injective (gap : Nat) : Function.Injective (skip gap) := by
  intro slot other h
  unfold skip at h
  split at h <;> split at h <;> omega

/-- Every slot but the gap is one that moved. -/
theorem exists_skip_eq (h : other ≠ gap) : ∃ slot, skip gap slot = other := by
  by_cases hlt : other < gap
  · exact ⟨other, if_pos hlt⟩
  · refine ⟨other - 1, ?_⟩
    rw [skip, if_neg (by omega)]
    omega

theorem skip_of_le (h : gap ≤ slot) : skip gap slot = slot + 1 :=
  if_neg (Nat.not_lt.mpr h)

theorem getElem?_eraseIdx_eq_skip {α : Type} (xs : List α) (gap slot : Nat) :
    (xs.eraseIdx gap)[slot]? = xs[skip gap slot]? := by
  rw [List.getElem?_eraseIdx, skip]
  split <;> rfl

/-- The slots of a table with a gap are those before the gap, the gap, and those behind it. -/
theorem range_succ_eq (h : gap ≤ slot) :
    ∃ front back, List.range slot = front ++ back ∧
      List.range (slot + 1) = front.map (skip gap) ++ gap :: back.map (skip gap) := by
  obtain ⟨more, rfl⟩ := Nat.exists_eq_add_of_le h
  refine ⟨List.range gap, (List.range more).map (gap + ·), List.range_add, ?_⟩
  have hfront : (List.range gap).map (skip gap) = List.range gap := by
    conv_rhs => rw [← List.map_id (List.range gap)]
    apply List.map_congr_left
    intro slot hs
    exact if_pos (List.mem_range.mp hs)
  rw [hfront, Nat.add_assoc, List.range_add, List.range_succ_eq_map, List.map_map, List.map_cons,
    List.map_map]
  congr 2
  apply List.map_congr_left
  intro slot _
  simp only [Function.comp_apply, skip_of_le (Nat.le_add_right gap slot)]
  omega

end

/-- Slots that moved, in a list that may hold the gap, too. -/
def Moved (gap : Nat) (slots moved : List Nat) : Prop :=
  moved.filter (· != gap) = slots.map (skip gap)

namespace Moved

variable {gap slot : Nat} {slots moved : List Nat} (h : Moved gap slots moved)

include h

theorem mem_iff : skip gap slot ∈ moved ↔ slot ∈ slots := by
  rw [← List.mem_map_of_injective (skip_injective gap) (l := slots), ← h, List.mem_filter]
  simp

theorem concat : Moved gap (slots ++ [slot]) (moved ++ [skip gap slot]) := by
  rw [Moved, List.filter_append, List.map_append, h]
  simp

theorem concat_gap : Moved gap slots (moved ++ [gap]) := by
  rw [Moved, List.filter_append, h]
  simp

end Moved

/-- Runs over slots correspond to those over the moved slots when their steps do. -/
private theorem corresponds_foldlM {gap : Nat} {f f' : List Nat → Nat → Except Nat (List Nat)}
    {slots done done' : List Nat}
    (step : ∀ {slot : Nat}, slot ∈ slots → ∀ {done done' : List Nat}, Moved gap done done' →
      Corresponds (fun slot slot' ↦ slot' = skip gap slot) (Moved gap) (f done slot)
        (f' done' (skip gap slot)))
    (hd : Moved gap done done') :
    Corresponds (fun slot slot' ↦ slot' = skip gap slot) (Moved gap) (slots.foldlM f done)
      ((slots.map (skip gap)).foldlM f' done') := by
  have hslots : List.Forall₂ (fun slot slot' ↦ slot ∈ slots ∧ slot' = skip gap slot) slots
      (slots.map (skip gap)) := by
    rw [List.forall₂_map_right_iff]
    exact List.forall₂_same.mpr fun _ hs ↦ ⟨hs, rfl⟩
  refine Corresponds.foldlM hslots ?_ hd
  rintro slot _ ⟨hs, rfl⟩ done done' hd
  exact step hs hd

/-- A table in which a gap was made for a slot that is idle. -/
structure Widened (gap : Nat) (table wide : List (List Nat)) : Prop where
  length : wide.length = table.length + 1
  gap_le : gap ≤ table.length
  idle : linksOf wide gap = []
  links : ∀ slot, linksOf wide (skip gap slot) = (linksOf table slot).map (skip gap)

namespace Widened

variable {gap : Nat} {table wide : List (List Nat)} (h : Widened gap table wide)

include h

theorem link_iff {slot next : Nat} :
    Link wide (skip gap slot) next ↔ ∃ origin, Link table slot origin ∧ skip gap origin = next := by
  rw [Link, h.links, List.mem_map]
  rfl

theorem reaches_iff {slot other : Nat} :
    ReflTransGen (Link wide) (skip gap slot) (skip gap other) ↔
      ReflTransGen (Link table) slot other := by
  constructor
  · intro hr
    generalize hother : skip gap other = goal at hr
    induction hr generalizing other with
    | refl => exact skip_injective gap hother ▸ .refl
    | @tail middle _ hr hl ih =>
      by_cases hm : middle = gap
      · rw [hm, Link, h.idle] at hl
        cases hl
      · obtain ⟨origin, rfl⟩ := exists_skip_eq hm
        obtain ⟨next, hnext, rfl⟩ := h.link_iff.mp hl
        rw [skip_injective gap hother]
        exact (ih rfl).tail hnext
  · intro hr
    refine ReflTransGen.lift (skip gap) (fun slot next hl ↦ ?_) _ _ hr
    exact h.link_iff.mpr ⟨next, hl, rfl⟩

theorem leadsTo_eq (slot other : Nat) :
    leadsTo wide (skip gap slot) (skip gap other) = leadsTo table slot other := by
  rw [Bool.eq_iff_iff, leadsTo_iff, leadsTo_iff]
  exact h.reaches_iff

theorem inRange (hr : InRange table) : InRange wide := by
  intro slot next hl
  rw [h.length]
  by_cases hs : slot = gap
  · rw [hs, Link, h.idle] at hl
    cases hl
  · obtain ⟨slot, rfl⟩ := exists_skip_eq hs
    obtain ⟨origin, hnext, rfl⟩ := h.link_iff.mp hl
    have hlt := hr slot origin hnext
    unfold skip
    split <;> omega

/-- A visit of a moved slot does what the visit of the slot does, whether the gap is done or not. -/
private theorem corresponds_visit {way done done' : List Nat} {slot : Nat}
    (hd : Moved gap done done') :
    Corresponds (fun slot slot' ↦ slot' = skip gap slot) (Moved gap)
      (visit table way done slot) (visit wide (way.map (skip gap)) done' (skip gap slot)) := by
  induction way using visit_induction table generalizing done done' slot with
  | step way ih =>
    rw [visit_eq, visit_eq]
    simp only [hd.mem_iff, List.mem_map_of_injective (skip_injective gap)]
    split
    · exact .ok hd
    · split
      · exact .error rfl
      · next hw =>
        rw [h.links, ← List.map_cons]
        apply (corresponds_foldlM (fun hl _ _ hd ↦ ih slot _ hw hl hd) hd).bind
        intro done done' hd
        exact .ok hd.concat

/-- The order of a widened table is that of the table, with the gap somewhere. -/
theorem corresponds_order :
    Corresponds (fun slot slot' ↦ slot' = skip gap slot) (Moved gap) (order table)
      (order wide) := by
  obtain ⟨front, back, hsmall, hwide⟩ := range_succ_eq h.gap_le
  rw [order, order, h.length, hsmall, hwide, List.foldlM_append, List.foldlM_append]
  have hrun : ∀ (slots : List Nat) {done done' : List Nat}, Moved gap done done' →
      Corresponds (fun slot slot' ↦ slot' = skip gap slot) (Moved gap)
        (slots.foldlM (visit table []) done)
        ((slots.map (skip gap)).foldlM (visit wide []) done') := fun slots ↦
    corresponds_foldlM fun _ _ _ hd ↦ h.corresponds_visit hd
  refine (hrun front (show Moved gap [] [] from rfl)).bind fun done done' hd ↦ ?_
  rw [List.foldlM_cons]
  have hgap : visit wide [] done' gap = .ok done' ∨
      visit wide [] done' gap = .ok (done' ++ [gap]) := by
    by_cases hm : gap ∈ done'
    · exact .inl (visit_of_mem _ _ hm)
    · right
      rw [visit_eq, if_neg hm, if_neg List.not_mem_nil, h.idle]
      rfl
  rcases hgap with hgap | hgap
  · rw [hgap]
    exact hrun back hd
  · rw [hgap]
    exact hrun back hd.concat_gap

end Widened

end RenderKit.Schedule
