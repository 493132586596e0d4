import RenderKit.Proofs.Refusal
import RenderKit.Proofs.Schedule.Search
import RenderKit.Schedule.Order
import Mathlib.Data.List.Nodup

/-!
# Orders of a table

What visiting finds. A visit that ends has put slots behind their links (`Topological`), and one
that is refused has met a slot on its own way, so the slot lies on a cycle. Main statements:
`perm_of_order` and `topological_of_order` say what an order is, `cycle_of_order_error` what a
refusal tells, and `not_reaches_self_of_order` that no table with a cycle has an order.
-/

namespace RenderKit.Schedule

open Relation

variable {table : List (List Nat)}

/-- A visit is followed to the slots that its slot links to, each at the end of a longer way. -/
theorem visit_induction (table : List (List Nat)) {P : List Nat → Prop}
    (step : ∀ way, (∀ slot next, slot ∉ way → Link table slot next → P (slot :: way)) → P way)
    (way : List Nat) : P way := by
  induction way using way_induction (List.range table.length) with
  | step way ih =>
    refine step way fun slot next hw hl ↦ ih slot ?_ hw
    exact List.mem_range.mpr (lt_of_link hl)

/-- Nothing is left to do for a slot that is done. -/
theorem visit_of_mem (table : List (List Nat)) (way : List Nat) {done : List Nat} {slot : Nat}
    (h : slot ∈ done) : visit table way done slot = .ok done := by
  rw [visit_eq, if_pos h]

/-- Slots in an order in which each stands once and behind its links. -/
structure Topological (table : List (List Nat)) (order : List Nat) : Prop where
  nodup : order.Nodup
  behind : ∀ front slot back, order = front ++ slot :: back →
    ∀ next, Link table slot next → next ∈ front

theorem topological_nil : Topological table [] :=
  ⟨List.nodup_nil, fun front slot back h ↦ by simp at h⟩

/-- A slot may be appended when its links are there. -/
theorem Topological.concat {order : List Nat} {slot : Nat} (h : Topological table order)
    (hs : slot ∉ order) (hl : ∀ next, Link table slot next → next ∈ order) :
    Topological table (order ++ [slot]) := by
  refine ⟨?_, fun front s back he next hn ↦ ?_⟩
  · rw [List.nodup_append]
    exact ⟨h.nodup, by simp, fun a ha b hb ↦ by
      rintro rfl; exact hs (List.mem_singleton.mp hb ▸ ha)⟩
  · rcases List.eq_nil_or_concat back with rfl | ⟨back, last, rfl⟩
    · obtain ⟨rfl, hlast⟩ := List.append_inj' he rfl
      cases hlast
      exact hl next hn
    · rw [List.concat_eq_append, ← List.cons_append, ← List.append_assoc] at he
      exact h.behind front s back (List.append_inj' he rfl).1 next hn

/-- Every front part of an order is closed under links. -/
theorem Topological.mem_front_of_reaches {front back : List Nat} {slot next : Nat}
    (h : Topological table (front ++ back)) (hs : slot ∈ front)
    (hr : ReflTransGen (Link table) slot next) : next ∈ front := by
  induction hr with
  | refl => exact hs
  | tail _ hl ih =>
    obtain ⟨a, b, rfl⟩ := List.append_of_mem ih
    have hm := h.behind a _ (b ++ back) (by simp) _ hl
    exact List.mem_append_left _ hm

/-- No slot leads to itself or to a later one. -/
theorem Topological.not_reaches {front back : List Nat} {slot other : Nat}
    (h : Topological table (front ++ slot :: back)) (ho : other = slot ∨ other ∈ front) :
    ¬ TransGen (Link table) other slot := by
  intro hr
  have hn : slot ∉ front := fun hm ↦ by
    have := (List.nodup_append.mp h.nodup).2.2 slot hm slot (by simp)
    exact this rfl
  rcases ho with rfl | ho
  · obtain ⟨next, hl, hr⟩ := TransGen.head'_iff.mp hr
    exact hn (h.mem_front_of_reaches (h.behind front other back rfl next hl) hr)
  · exact hn (h.mem_front_of_reaches ho hr.to_reflTransGen)

/-- No slot of an order leads to a later one. -/
theorem Topological.pairwise {order : List Nat} (h : Topological table order) :
    order.Pairwise fun slot later ↦ ¬ TransGen (Link table) slot later := by
  rw [List.pairwise_iff_forall_sublist]
  intro slot later hs
  obtain ⟨front, rest, rfl, hslot, hlater⟩ := List.cons_sublist_iff.mp hs
  obtain ⟨between, back, rfl⟩ := List.append_of_mem (List.singleton_sublist.mp hlater)
  rw [← List.append_assoc] at h
  exact h.not_reaches (.inr (List.mem_append_left _ hslot))

/-- What visiting the roots adds to the slots that are done, past a way of waiting slots. -/
structure Visited (table : List (List Nat)) (way roots done after : List Nat) : Prop where
  topological : Topological table after
  roots_mem : ∀ root ∈ roots, root ∈ after
  added : ∃ new, after = done ++ new ∧
    ∀ s ∈ new, s ∉ way ∧ ∃ root ∈ roots, ReflTransGen (Link table) root s

private theorem Visited.nil {way done : List Nat} (h : Topological table done) :
    Visited table way [] done done :=
  ⟨h, by simp, [], by simp, by simp⟩

private theorem Visited.cons {way roots done between after : List Nat} {root : Nat}
    (h : Visited table way [root] done between) (hs : Visited table way roots between after) :
    Visited table way (root :: roots) done after := by
  obtain ⟨new, rfl, hnew⟩ := h.added
  obtain ⟨more, rfl, hmore⟩ := hs.added
  refine ⟨hs.topological, fun r hr ↦ ?_, new ++ more, by simp, fun s hm ↦ ?_⟩
  · rcases List.mem_cons.mp hr with rfl | hr
    · exact List.mem_append_left _ (h.roots_mem r (by simp))
    · exact hs.roots_mem r hr
  · rcases List.mem_append.mp hm with hm | hm
    · obtain ⟨hw, r, hr, hp⟩ := hnew s hm
      exact ⟨hw, root, by simp, List.mem_singleton.mp hr ▸ hp⟩
    · obtain ⟨hw, r, hr, hp⟩ := hmore s hm
      exact ⟨hw, r, List.mem_cons_of_mem _ hr, hp⟩

private theorem visited_of_visits {way roots done after : List Nat}
    (visited : ∀ root ∈ roots, ∀ {done after : List Nat}, Topological table done →
      (∀ s ∈ way, s ∉ done) → visit table way done root = .ok after →
      Visited table way [root] done after)
    (hd : Topological table done) (hw : ∀ s ∈ way, s ∉ done)
    (h : roots.foldlM (visit table way) done = .ok after) :
    Visited table way roots done after := by
  induction roots generalizing done with
  | nil => cases h; exact .nil hd
  | cons root roots ih =>
    rw [List.foldlM_cons, bind_eq_ok_iff] at h
    obtain ⟨between, hb, h⟩ := h
    have hv := visited root List.mem_cons_self hd hw hb
    refine hv.cons (ih (fun root hroot ↦ visited root (List.mem_cons_of_mem _ hroot)) hv.topological
      (fun s hs hm ↦ ?_) h)
    obtain ⟨new, rfl, hnew⟩ := hv.added
    rcases List.mem_append.mp hm with hm | hm
    · exact hw s hs hm
    · exact (hnew s hm).1 hs

/-- A visit that ends puts the slot and what it leads to behind the slots that are done. -/
theorem visited_of_visit {way done after : List Nat} {slot : Nat} (hd : Topological table done)
    (hw : ∀ s ∈ way, s ∉ done) (h : visit table way done slot = .ok after) :
    Visited table way [slot] done after := by
  induction way using visit_induction table generalizing done after slot with
  | step way ih =>
    rw [visit_eq] at h
    split at h
    · next hs =>
      cases h
      exact ⟨hd, by simpa using hs, [], by simp, by simp⟩
    · next hs =>
      split at h
      · cases h
      · next hway =>
        obtain ⟨between, hb, h⟩ := bind_eq_ok_iff.mp h
        cases h
        have hway' : ∀ s ∈ slot :: way, s ∉ done := by simpa [hs] using hw
        have hv := visited_of_visits (fun next hl ↦ ih slot next hway hl) hd hway' hb
        obtain ⟨new, rfl, hnew⟩ := hv.added
        have hn : slot ∉ done ++ new := by
          simp only [List.mem_append, not_or]
          exact ⟨hs, fun hm ↦ (hnew slot hm).1 (by simp)⟩
        refine ⟨hv.topological.concat hn hv.roots_mem, by simp, new ++ [slot], by simp, ?_⟩
        intro s hm
        rcases List.mem_append.mp hm with hm | hm
        · obtain ⟨hw', r, hr, hp⟩ := hnew s hm
          exact ⟨fun hsw ↦ hw' (List.mem_cons_of_mem _ hsw), slot, by simp, hp.head hr⟩
        · cases List.mem_singleton.mp hm
          exact ⟨hway, slot, by simp, .refl⟩

/-- Every link of a table ends in the table. -/
def InRange (table : List (List Nat)) : Prop :=
  ∀ slot next, Link table slot next → next < table.length

/-- A refused visit has met a slot that leads to itself. -/
private theorem cycle_of_visit_error {way done : List Nat} {slot meeting : Nat}
    (hway : ∀ s ∈ way, TransGen (Link table) s slot)
    (h : visit table way done slot = .error meeting) :
    TransGen (Link table) meeting meeting := by
  induction way using visit_induction table generalizing done slot with
  | step way ih =>
    rw [visit_eq] at h
    split at h
    · cases h
    · split at h
      · next hm =>
        cases h
        exact hway _ hm
      · next hm =>
        rcases bind_eq_error_iff.mp h with h | ⟨_, _, h⟩
        · obtain ⟨next, hl, done', -, h⟩ :=
            exists_of_foldlM_error (P := fun _ ↦ True) h trivial fun _ _ _ _ _ _ ↦ trivial
          have hway' : ∀ s ∈ slot :: way, TransGen (Link table) s next :=
            List.forall_mem_cons.mpr ⟨.single hl, fun s hs ↦ (hway s hs).tail hl⟩
          exact ih slot next hm hl hway' h
        · cases h

private theorem visited_of_order {slots : List Nat} (h : order table = .ok slots) :
    Visited table [] (List.range table.length) [] slots :=
  visited_of_visits (fun _ _ ↦ visited_of_visit) topological_nil (by simp) h

theorem topological_of_order {slots : List Nat} (h : order table = .ok slots) :
    Topological table slots :=
  (visited_of_order h).topological

/-- An order lists every slot of the table once. -/
theorem perm_of_order (hr : InRange table) {slots : List Nat} (h : order table = .ok slots) :
    slots.Perm (List.range table.length) := by
  have hv := visited_of_order h
  refine (List.perm_ext_iff_of_nodup hv.topological.nodup List.nodup_range).mpr fun s ↦ ?_
  refine ⟨fun hs ↦ ?_, hv.roots_mem s⟩
  obtain ⟨new, rfl, hnew⟩ := hv.added
  obtain ⟨-, root, hroot, hp⟩ := hnew s (by simpa using hs)
  rw [List.mem_range] at hroot ⊢
  rcases hp.cases_tail with rfl | ⟨_, -, hl⟩
  · exact hroot
  · exact hr _ _ hl

/-- An order is begun by the first slots of the table and what those lead to. -/
theorem exists_front_of_order {slots : List Nat} (h : order table = .ok slots) {count : Nat}
    (hc : count ≤ table.length) :
    ∃ front back, slots = front ++ back ∧ (∀ slot < count, slot ∈ front) ∧
      ∀ slot ∈ front, ∃ root < count, ReflTransGen (Link table) root slot := by
  obtain ⟨more, hmore⟩ := Nat.exists_eq_add_of_le hc
  rw [order, hmore, List.range_add, List.foldlM_append] at h
  obtain ⟨front, hfront, h⟩ := bind_eq_ok_iff.mp h
  have hv := visited_of_visits (fun _ _ ↦ visited_of_visit) topological_nil (by simp) hfront
  obtain ⟨back, rfl, -⟩ :=
    (visited_of_visits (fun _ _ ↦ visited_of_visit) hv.topological (by simp) h).added
  obtain ⟨_, rfl, hnew⟩ := hv.added
  refine ⟨front, back, rfl, fun slot hs ↦ hv.roots_mem slot (List.mem_range.mpr hs),
    fun slot hs ↦ ?_⟩
  obtain ⟨-, root, hroot, hr⟩ := hnew slot hs
  exact ⟨root, List.mem_range.mp hroot, hr⟩

/-- A table has no order only where a slot leads to itself. -/
theorem cycle_of_order_error {meeting : Nat} (h : order table = .error meeting) :
    TransGen (Link table) meeting meeting := by
  obtain ⟨slot, -, done, -, h⟩ :=
    exists_of_foldlM_error (P := fun _ ↦ True) h trivial fun _ _ _ _ _ _ ↦ trivial
  exact cycle_of_visit_error (by simp) h

/-- A table with an order has no cycle. -/
theorem not_reaches_self_of_order {slots : List Nat} (hr : InRange table)
    (h : order table = .ok slots) (slot : Nat) : ¬ TransGen (Link table) slot slot := by
  intro hc
  obtain ⟨next, hl, -⟩ := TransGen.head'_iff.mp hc
  have hs : slot ∈ slots := (perm_of_order hr h).mem_iff.mpr (List.mem_range.mpr (lt_of_link hl))
  obtain ⟨front, back, rfl⟩ := List.append_of_mem hs
  exact (topological_of_order h).not_reaches (.inl rfl) hc

end RenderKit.Schedule
