import RenderKit.Proofs.Schedule.Dependencies

/-!
# Stable schedules

Visiting slots in the order of declaration pulls a slot forward only for a slot that was visited by
then and leads to it. So a schedule puts a pass in front of one that was declared earlier only for
the sake of that one or of a pass declared before it (`build_stable`), and where no pass names a
later one it leaves all passes where they are.
-/

namespace RenderKit

variable {σ : Type}

/-- What stands in front of an element of the front part of a list is in the front part, too. -/
private theorem mem_front_of_sublist {α : Type} {front back : List α} {a b : α}
    (hn : (front ++ back).Nodup) (hb : b ∈ front) (hs : [a, b].Sublist (front ++ back)) :
    a ∈ front := by
  obtain ⟨head, tail, he, hhead, htail⟩ := List.sublist_append_iff.mp hs
  cases head with
  | nil =>
    have hback : b ∈ back := by
      apply htail.subset
      rw [List.nil_append] at he
      simp [← he]
    exact absurd rfl ((List.nodup_append.mp hn).2.2 b hb b hback)
  | cons first head =>
    rw [List.cons_append, List.cons.injEq] at he
    apply hhead.subset
    simp [he.1]

namespace Schedule

open Relation

variable {table : List (List Nat)} {slots : List Nat}

/-- A slot comes in front of an earlier one only if that one, or a slot before it, leads to it. -/
theorem reaches_of_sublist_order (h : order table = .ok slots) {slot later : Nat}
    (hlt : slot < later) (hs : slot < table.length) (ho : [later, slot].Sublist slots) :
    ∃ root ≤ slot, TransGen (Link table) root later := by
  -- By the time that the slot is done, only slots that earlier ones lead to are done.
  obtain ⟨front, back, rfl, hfront, hreach⟩ := exists_front_of_order h (Nat.succ_le_of_lt hs)
  have hlater : later ∈ front :=
    mem_front_of_sublist (topological_of_order h).nodup (hfront slot (Nat.lt_succ_self slot)) ho
  obtain ⟨root, hroot, hr⟩ := hreach later hlater
  have hne : later ≠ root := by omega
  exact ⟨root, Nat.le_of_lt_succ hroot, (reflTransGen_iff_eq_or_transGen.mp hr).resolve_left hne⟩

/-- Slots that have links to earlier ones only stay where they are. -/
theorem order_eq_range (hr : InRange table) (h : order table = .ok slots)
    (hl : ∀ slot next, Link table slot next → next < slot) : slots = List.range table.length := by
  have hperm := perm_of_order hr h
  have hreach : ∀ {root later}, TransGen (Link table) root later → later < root := by
    intro root later hc
    induction hc with
    | single hs => exact hl _ _ hs
    | tail _ hs ih => exact (hl _ _ hs).trans ih
  have hsorted : slots.Pairwise (· < ·) := by
    rw [List.pairwise_iff_forall_sublist]
    intro later slot ho
    by_contra hle
    have hne : slot ≠ later := by
      rintro rfl
      exact List.nodup_iff_sublist.mp (topological_of_order h).nodup slot ho
    have hslot : slot < table.length := by
      rw [← List.mem_range, ← hperm.mem_iff]
      exact ho.subset (by simp)
    obtain ⟨root, hroot, hc⟩ := reaches_of_sublist_order h (by omega) hslot ho
    have hlater := hreach hc
    omega
  exact hsorted.eq_of_mem_iff List.pairwise_lt_range fun slot ↦ hperm.mem_iff

/-- Passes that name no later ones follow earlier ones only. -/
theorem lt_of_link_of_names {passes : List (Pass σ)} {index : Table Nat}
    (hi : Indexes (passes.map (·.name)) index.get?) (ht : dependencies passes index = .ok table)
    (hs : Schedulable passes) (hn : ∀ slot later, Names passes slot later → later ≤ slot)
    {slot next : Nat} (hl : Link table slot next) : next < slot := by
  rcases (link_iff hi ht).mp hl with ⟨_, -, hw⟩ | ⟨_, -, hw | hr⟩ | hnames | hfed
  · exact hw.1
  · exact hw.1
  · exact hr.1
  · apply Nat.lt_of_le_of_ne (hn slot next hnames)
    rintro rfl
    exact hs.acyclic next (.single (.inr hnames))
  · exact absurd hfed (hs.unfed slot next)

end Schedule

namespace PassGraph

open Relation Schedule

variable {g built : PassGraph σ}

/-- Passes come one in front of the other when their slots do. -/
private theorem sublist_order_of_sublist_names {plan : Plan} (h : Planned g plan)
    {slot other : Nat} {p q : Pass σ} (hp : g.passes[slot]? = some p)
    (hq : g.passes[other]? = some q) (hs : [p.name, q.name].Sublist g.orderedNames) :
    [slot, other].Sublist plan.order := by
  have hslot : ∀ {i s : Nat} {r : Pass σ}, g.passes[s]? = some r → i ∈ plan.order →
      g.nameAt i = r.name → i = s := by
    intro i s r hr hi hname
    have hs : s ∈ plan.order := h.mem_order.mpr (List.getElem?_eq_some_iff.mp hr).1
    have hfound := h.get?_eq_some_iff.mpr ⟨hi, hname⟩
    rw [h.get?_eq_some_iff.mpr ⟨hs, by rw [nameAt, hr]; rfl⟩] at hfound
    exact (Option.some.inj hfound).symm
  rw [h.orderedNames_eq, List.sublist_map_iff] at hs
  obtain ⟨slots, hsub, he⟩ := hs
  have hlen : slots.length = 2 := by simpa using (congrArg List.length he).symm
  obtain ⟨i, j, rfl⟩ := List.length_eq_two.mp hlen
  simp only [List.map_cons, List.map_nil, List.cons.injEq, and_true] at he
  have hi : i = slot := hslot hp (hsub.subset (by simp)) he.1.symm
  have hj : j = other := hslot hq (hsub.subset (by simp)) he.2.symm
  rwa [hi, hj] at hsub

/-- A schedule is stable. It puts a pass in front of one that was declared earlier only if the
earlier one, or a pass declared before that, depends on it; so where no pass names a later one, the
schedule is the order of declaration. -/
theorem build_stable (hg : g.Reachable) (hb : g.build = (.ok (), built)) :
    (∀ (slot later : Nat) p q, slot < later → g.passes[slot]? = some p →
      g.passes[later]? = some q → [q.name, p.name].Sublist built.orderedNames →
        ∃ root ≤ slot, ∃ r, g.passes[root]? = some r ∧ TransGen built.DependsOn r.name q.name) ∧
      ((∀ (slot later : Nat) p q, slot < later → g.passes[slot]? = some p →
        g.passes[later]? = some q → q.name ∉ p.after) →
          built.orderedNames = g.passes.map (·.name)) := by
  obtain ⟨plan, hplan, h, hpasses, -⟩ := exists_planned_of_build hg hb
  obtain ⟨ht, ho⟩ := planned_eq_ok_iff.mp hplan
  have hlen := length_of_dependencies ht
  constructor
  · intro slot later p q hlt hp hq hs
    have hslot := (List.getElem?_eq_some_iff.mp hp).1
    rw [← hpasses] at hp hq
    obtain ⟨root, hroot, hc⟩ := reaches_of_sublist_order ho hlt (by omega)
      (sublist_order_of_sublist_names h hq hp hs)
    have hr := List.getElem?_eq_getElem (Nat.lt_of_le_of_lt hroot hslot)
    refine ⟨root, hroot, _, hr, ?_⟩
    have hroot' : root ∈ plan.order := by
      rw [h.mem_order, hpasses]
      exact Nat.lt_of_le_of_lt hroot hslot
    have hlater : later ∈ plan.order := h.mem_order.mpr (List.getElem?_eq_some_iff.mp hq).1
    have hnames := (h.reaches_nameAt_iff hroot' hlater).mpr hc
    rwa [nameAt, nameAt, hq, hpasses, hr] at hnames
  · intro hn
    have horder : plan.order = List.range g.passes.length := by
      rw [← hlen]
      refine order_eq_range (inRange_of_dependencies hg.indexed ht) ho fun slot next hl ↦ ?_
      refine lt_of_link_of_names hg.indexed ht (schedulable_of_planned hg.indexed hplan) ?_ hl
      rintro slot later ⟨p, q, hp, hq, hname⟩
      by_contra hlt
      exact hn slot later p q (Nat.lt_of_not_le hlt) hp hq hname
    rw [h.orderedNames_eq, horder, ← hpasses, map_nameAt_range]

theorem build_stable_painted :
    (∃ root ≤ 2, ∃ r, painted[root]? = some r ∧
      TransGen (ofPasses "Painted" painted).build.2.DependsOn r.name "Log") ∧
      (ofPasses "Forked" forked).build.2.orderedNames = forked.map (·.name) := by
  have hg : (ofPasses "Painted" painted).Reachable := (reachable_ofPasses _ (by decide)).1
  have hb : (ofPasses "Painted" painted).build = (.ok (), (ofPasses "Painted" painted).build.2) :=
    Prod.ext (by decide +kernel) rfl
  have hg' : (ofPasses "Forked" forked).Reachable := (reachable_ofPasses _ (by decide)).1
  have hb' : (ofPasses "Forked" forked).build = (.ok (), (ofPasses "Forked" forked).build.2) :=
    Prod.ext (by decide +kernel) rfl
  have hstable := (build_stable hg hb).1
  have hkept := (build_stable hg' hb').2
  rw [passes_ofPasses] at hstable hkept
  constructor
  · exact hstable 2 3 painted[2] painted[3] (by decide) rfl rfl (by decide +kernel)
  · apply hkept
    intro slot later p q _ hp _
    have hnone : ∀ p ∈ forked, p.after = [] := by
      simp [forked]
    simp [hnone p (List.mem_of_getElem? hp)]

end PassGraph

end RenderKit
