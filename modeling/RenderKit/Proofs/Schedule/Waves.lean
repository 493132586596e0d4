import RenderKit.Proofs.Schedule.Reordering
import Mathlib.Order.Bounds.Defs

/-!
# Waves

A schedule falls into waves by the longest chains of dependencies (`Layered`). The rank of a slot is
one more than the highest rank among its links, so it is the length of the longest way down from the
slot, every rank below one that is taken is taken too, and what comes before a pass has a lower
rank. Passes of one wave therefore do not conflict, and they may run in any order
(`levels_layered`).
-/

namespace RenderKit

namespace Schedule

open Relation

/-! ### Ranks -/

/-- A number exceeds the greatest of some exactly when it exceeds each of them. -/
private theorem le_foldl_max_iff {xs : List Nat} {start k : Nat} :
    k ≤ xs.foldl max start ↔ k ≤ start ∨ ∃ x ∈ xs, k ≤ x := by
  induction xs generalizing start with
  | nil => simp
  | cons x xs ih =>
    rw [List.foldl_cons, ih, le_max_iff]
    simp [or_assoc]

/-- Where ranks fall along a relation and leave no gap, the rank is the length of the longest chain
below. -/
theorem isGreatest_rank {α : Type} {r : α → α → Prop} {rank : α → Nat}
    (falls : ∀ a b, r a b → rank b < rank a)
    (next : ∀ a, 0 < rank a → ∃ b, r a b ∧ rank a = rank b + 1) (a : α) :
    IsGreatest {n | ∃ below : List α, below.length = n ∧ (a :: below).IsChain r} (rank a) := by
  constructor
  -- A chain that takes every rank below, then no chain is longer than the rank it starts at.
  · induction hn : rank a generalizing a with
    | zero => exact ⟨[], rfl, .singleton a⟩
    | succ n ih =>
      obtain ⟨b, hb, hrank⟩ := next a (by omega)
      obtain ⟨below, hl, hc⟩ := ih b (by omega)
      exact ⟨b :: below, by rw [List.length_cons, hl], .cons_cons hb hc⟩
  · rintro n ⟨below, rfl, hc⟩
    induction below generalizing a with
    | nil => exact Nat.zero_le _
    | cons b below ih =>
      rw [List.isChain_cons_cons] at hc
      exact Nat.lt_of_le_of_lt (ih b hc.2) (falls a b hc.1)

variable {table : List (List Nat)} {order : List Nat}

/-- The wave of a slot in an order. -/
def rank (table : List (List Nat)) (order : List Nat) (slot : Nat) : Nat :=
  ((ranks table order).lookup slot).getD 0

/-- The rank that the links of a slot ask for. -/
private def rankAbove (table : List (List Nat)) (order : List Nat) (slot : Nat) : Nat :=
  ((linksOf table slot).map fun next ↦ rank table order next + 1).foldl max 0

private theorem ranks_concat (slot : Nat) :
    ranks table (order ++ [slot]) = ranks table order ++ [(slot, rankAbove table order slot)] := by
  rw [ranks, List.foldl_append]
  rfl

private theorem map_fst_ranks : (ranks table order).map (·.1) = order := by
  induction order using List.reverseRecOn with
  | nil => rfl
  | append_singleton order slot ih => rw [ranks_concat, List.map_append, ih]; rfl

/-- A slot behind the others takes its rank from its links and leaves the other ranks as they
are. -/
private theorem rank_concat {slot : Nat} (hs : slot ∉ order) (other : Nat) :
    rank table (order ++ [slot]) other =
      if other = slot then rankAbove table order slot else rank table order other := by
  rw [rank, ranks_concat, List.lookup_append]
  split
  · next he =>
    have hn : (ranks table order).lookup other = none := by
      rw [List.lookup_eq_none_iff]
      intro entry hm
      have hmem : entry.1 ∈ (ranks table order).map (·.1) := List.mem_map_of_mem hm
      rw [map_fst_ranks] at hmem
      simpa using fun hk : other = entry.1 ↦ hs (he ▸ hk ▸ hmem)
    rw [hn, he]
    simp
  · next hne =>
    have hn : List.lookup other [(slot, rankAbove table order slot)] = none := by
      rw [List.lookup_eq_none_iff]
      simpa using hne
    rw [hn, Option.or_none]
    rfl

namespace Topological

theorem of_concat {slot : Nat} (h : Topological table (order ++ [slot])) :
    Topological table order := by
  refine ⟨h.nodup.of_append_left, fun front s back he next hn ↦ ?_⟩
  refine h.behind front s (back ++ [slot]) ?_ next hn
  rw [he, List.append_assoc, List.cons_append]

private theorem not_mem_of_concat {slot : Nat} (h : Topological table (order ++ [slot])) :
    slot ∉ order := fun hm ↦
  (List.nodup_append.mp h.nodup).2.2 slot hm slot (List.mem_singleton_self slot) rfl

/-- Every slot of an order has the rank that its links ask for. -/
private theorem rank_eq (h : Topological table order) :
    ∀ slot ∈ order, rank table order slot = rankAbove table order slot := by
  induction order using List.reverseRecOn with
  | nil => exact fun _ hm ↦ absurd hm List.not_mem_nil
  | append_singleton order last ih =>
    have hlast := h.not_mem_of_concat
    -- Links lead to the front of the order, where the last slot changes nothing.
    have hkept : ∀ slot ∈ order ++ [last],
        rankAbove table (order ++ [last]) slot = rankAbove table order slot := by
      intro slot hs
      obtain ⟨front, back, he⟩ := List.append_of_mem hs
      rw [rankAbove, rankAbove]
      congr 1
      refine List.map_congr_left fun next hn ↦ ?_
      have hm := h.behind front slot back he next hn
      have hfront : front <+: order := by
        rcases List.prefix_concat_iff.mp ⟨slot :: back, he.symm⟩ with rfl | hp
        · simp at he
        · exact hp
      have hne : next ≠ last := fun hl ↦ hlast (hl ▸ hfront.subset hm)
      rw [rank_concat hlast, if_neg hne]
    intro slot hs
    rw [hkept slot hs, rank_concat hlast]
    split
    · next he => rw [he]
    · next hne =>
      have hm := (List.mem_append.mp hs).resolve_right (by simpa using hne)
      exact ih h.of_concat slot hm

/-- Links lead to lower ranks. -/
theorem rank_lt (h : Topological table order) {slot next : Nat} (hs : slot ∈ order)
    (hl : Link table slot next) : rank table order next < rank table order slot := by
  rw [h.rank_eq slot hs, rankAbove, ← Nat.succ_le_iff, le_foldl_max_iff]
  exact .inr ⟨_, List.mem_map_of_mem hl, Nat.le_refl _⟩

/-- A slot of a higher rank has a link to the rank below. -/
theorem exists_link (h : Topological table order) {slot : Nat} (hs : slot ∈ order)
    (hr : 0 < rank table order slot) :
    ∃ next, Link table slot next ∧ rank table order slot = rank table order next + 1 := by
  have hle : rank table order slot ≤ rankAbove table order slot := (h.rank_eq slot hs).le
  rw [rankAbove, le_foldl_max_iff] at hle
  obtain ⟨x, hx, hle⟩ := hle.resolve_left (by omega)
  obtain ⟨next, hl, rfl⟩ := List.mem_map.mp hx
  exact ⟨next, hl, Nat.le_antisymm hle (h.rank_lt hs hl)⟩

theorem mem_of_link (h : Topological table order) {slot next : Nat} (hs : slot ∈ order)
    (hl : Link table slot next) : next ∈ order := by
  obtain ⟨front, back, rfl⟩ := List.append_of_mem hs
  exact List.mem_append_left _ (h.behind front slot back rfl next hl)

/-- What a slot leads to has a lower rank. -/
theorem rank_lt_of_reaches (h : Topological table order) {slot other : Nat} (hs : slot ∈ order)
    (hr : TransGen (Link table) slot other) :
    other ∈ order ∧ rank table order other < rank table order slot := by
  induction hr with
  | single hl => exact ⟨h.mem_of_link hs hl, h.rank_lt hs hl⟩
  | tail _ hl ih => exact ⟨h.mem_of_link ih.1 hl, (h.rank_lt ih.1 hl).trans ih.2⟩

/-- Below a rank that is taken every rank is taken. -/
theorem exists_rank_eq (h : Topological table order) {slot k : Nat} (hs : slot ∈ order)
    (hk : k ≤ rank table order slot) : ∃ other ∈ order, rank table order other = k := by
  induction hn : rank table order slot generalizing slot with
  | zero => exact ⟨slot, hs, by omega⟩
  | succ n ih =>
    rcases Nat.eq_or_lt_of_le hk with rfl | hlt
    · exact ⟨slot, hs, rfl⟩
    · obtain ⟨next, hl, hrank⟩ := h.exists_link hs (by omega)
      exact ih (h.mem_of_link hs hl) (by omega) (by omega)

/-! ### Waves of slots -/

private theorem ranks_eq (h : Topological table order) :
    ranks table order = order.map fun slot ↦ (slot, rank table order slot) := by
  induction order using List.reverseRecOn with
  | nil => rfl
  | append_singleton order last ih =>
    have hlast := h.not_mem_of_concat
    rw [ranks_concat, ih h.of_concat, List.map_append, List.map_singleton, rank_concat hlast,
      if_pos rfl]
    congr 1
    refine List.map_congr_left fun slot hs ↦ ?_
    rw [rank_concat hlast, if_neg fun he : slot = last ↦ hlast (he ▸ hs)]

/-- A wave holds the slots of one rank, in their order, and each rank that is taken has one. -/
theorem getElem?_waves (h : Topological table order) {k : Nat} {wave : List Nat} :
    (waves table order)[k]? = some wave ↔
      wave = order.filter (rank table order · == k) ∧
        ∃ slot ∈ order, rank table order slot = k := by
  have hcount : ∀ k, k < ((ranks table order).map fun entry ↦ entry.2 + 1).foldl max 0 ↔
      ∃ slot ∈ order, rank table order slot = k := by
    intro k
    rw [← Nat.succ_le_iff, le_foldl_max_iff, h.ranks_eq]
    constructor
    · rintro (hk | ⟨x, hx, hk⟩)
      · omega
      · simp only [List.map_map, List.mem_map, Function.comp_apply] at hx
        obtain ⟨slot, hs, rfl⟩ := hx
        exact h.exists_rank_eq hs (by omega)
    · rintro ⟨slot, hs, rfl⟩
      simp only [List.map_map]
      exact .inr ⟨_, List.mem_map_of_mem hs, Nat.le_refl _⟩
  rw [← hcount, waves, List.getElem?_map, Option.map_eq_some_iff]
  have hwave : ((ranks table order).filter (·.2 == k)).map (·.1) =
      order.filter (rank table order · == k) := by
    rw [h.ranks_eq, List.filter_map, List.map_map]
    exact List.map_id _
  constructor
  · rintro ⟨i, hi, rfl⟩
    obtain ⟨hlt, he⟩ := List.getElem?_eq_some_iff.mp hi
    rw [List.getElem_range] at he
    rw [List.length_range] at hlt
    exact he ▸ ⟨hwave, he ▸ hlt⟩
  · rintro ⟨rfl, hlt⟩
    exact ⟨k, List.getElem?_range hlt, hwave⟩

theorem exists_mem_waves (h : Topological table order) {k slot : Nat} :
    (∃ wave, (waves table order)[k]? = some wave ∧ slot ∈ wave) ↔
      slot ∈ order ∧ rank table order slot = k := by
  simp only [h.getElem?_waves]
  constructor
  · rintro ⟨wave, ⟨rfl, -⟩, hm⟩
    simpa using hm
  · rintro ⟨hs, rfl⟩
    exact ⟨_, ⟨rfl, slot, hs, rfl⟩, by simpa using hs⟩

theorem mem_waves (h : Topological table order) {wave : List Nat} (hw : wave ∈ waves table order) :
    wave ≠ [] ∧ wave.Sublist order ∧
      ∀ slot ∈ wave, ∀ other ∈ wave, rank table order slot = rank table order other := by
  obtain ⟨k, hk⟩ := List.mem_iff_getElem?.mp hw
  obtain ⟨rfl, slot, hs, hr⟩ := h.getElem?_waves.mp hk
  have hm : slot ∈ order.filter (rank table order · == k) := by simpa [hs] using hr
  refine ⟨List.ne_nil_of_mem hm, List.filter_sublist, fun slot hslot other hother ↦ ?_⟩
  have hrank := (List.mem_filter.mp hslot).2
  have hrank' := (List.mem_filter.mp hother).2
  exact (beq_iff_eq.mp hrank).trans (beq_iff_eq.mp hrank').symm

/-- The waves hold every slot of the order, and each once. -/
theorem perm_flatten_waves (h : Topological table order) :
    (waves table order).flatten.Perm order := by
  have hn : (waves table order).flatten.Nodup := by
    rw [List.nodup_flatten, List.pairwise_iff_getElem]
    refine ⟨fun wave hw ↦ h.nodup.sublist (h.mem_waves hw).2.1, fun i j hi hj hij slot hs hs' ↦ ?_⟩
    -- A slot of two waves would have two ranks.
    have hr := (h.exists_mem_waves.mp ⟨_, List.getElem?_eq_getElem hi, hs⟩).2
    have hr' := (h.exists_mem_waves.mp ⟨_, List.getElem?_eq_getElem hj, hs'⟩).2
    exact Nat.ne_of_lt hij (hr.symm.trans hr')
  refine (List.perm_ext_iff_of_nodup hn h.nodup).mpr fun slot ↦ ?_
  rw [List.mem_flatten]
  constructor
  · rintro ⟨wave, hw, hs⟩
    exact (h.mem_waves hw).2.1.subset hs
  · intro hs
    obtain ⟨wave, hw, hm⟩ := h.exists_mem_waves.mpr ⟨hs, rfl⟩
    exact ⟨wave, List.mem_of_getElem? hw, hm⟩

/-- Slots taken wave by wave, the members of each wave in any order, never fall in rank. -/
theorem pairwise_rank_flatten (h : Topological table order) {runs : List (List Nat)}
    (hr : List.Forall₂ List.Perm runs (waves table order)) :
    runs.flatten.Pairwise fun slot later ↦ rank table order slot ≤ rank table order later := by
  have hrank : ∀ i (hi : i < runs.length), ∀ slot ∈ runs[i], rank table order slot = i := by
    intro i hi slot hs
    obtain ⟨hl, hp⟩ := List.forall₂_iff_get.mp hr
    have hm := (hp i hi (hl ▸ hi)).mem_iff.mp hs
    exact (h.exists_mem_waves.mp ⟨_, List.getElem?_eq_getElem (hl ▸ hi), hm⟩).2
  rw [List.pairwise_flatten, List.pairwise_iff_getElem]
  constructor
  · intro run hrun
    obtain ⟨i, hi, rfl⟩ := List.mem_iff_getElem.mp hrun
    exact List.pairwise_of_forall_mem_list fun slot hs later hl ↦
      (hrank i hi slot hs).trans_le (hrank i hi later hl).ge
  · intro i j hi hj hij slot hs later hl
    rw [hrank i hi slot hs, hrank j hj later hl]
    exact hij.le

end Topological

end Schedule

/-! ### Waves of passes -/

namespace PassGraph

open Relation Schedule

variable {σ : Type} {g : PassGraph σ}

/-- The schedule lets a pass follow another. -/
def DependsOn (g : PassGraph σ) (name other : String) : Prop :=
  ∃ names, g.dependencies? name = some names ∧ other ∈ names

/-- The numbers of links of the chains of dependencies that end at a pass. -/
def chainLengths (g : PassGraph σ) (name : String) : Set Nat :=
  {n | ∃ below : List String, below.length = n ∧ (name :: below).IsChain g.DependsOn}

/-- The waves hold every scheduled pass once, as early as its dependencies let it run, and no two
passes that must not run at the same time. -/
structure Layered (g : PassGraph σ) : Prop where
  nonempty : ∀ wave ∈ g.levels, wave ≠ []
  complete : g.orderedNames.Perm (g.passes.map (·.name))
  perm : g.levels.flatten.Perm g.orderedNames
  nodup : g.levels.flatten.Nodup
  depth : ∀ k name, (∃ wave, g.levels[k]? = some wave ∧ name ∈ wave) ↔
    name ∈ g.orderedNames ∧ IsGreatest (g.chainLengths name) k
  ordered : ∀ wave ∈ g.levels, wave.Sublist g.orderedNames
  independent : ∀ wave ∈ g.levels, ∀ name ∈ wave, ∀ other ∈ wave,
    ¬ TransGen g.DependsOn name other
  apart : ∀ wave ∈ g.levels, ∀ p ∈ g.passes, ∀ q ∈ g.passes, p.name ∈ wave → q.name ∈ wave →
    p.name ≠ q.name → ¬ p.Conflict q

/-- A graph with the schedule that a build found for it. -/
structure Planned (g : PassGraph σ) (plan : Plan) : Prop where
  reachable : g.Reachable
  stored : g.Stores plan
  table : Schedule.dependencies g.passes g.index = .ok plan.dependencies
  topological : Topological plan.dependencies plan.order
  legal : Legal g.passes plan.order

namespace Planned

variable {plan : Plan}

theorem of_reachable (hg : g.Reachable) (hs : g.Stores plan) : Planned g plan :=
  have hplan := hg.inStep.planned_eq hs
  have ⟨ht, ho⟩ := planned_eq_ok_iff.mp hplan
  ⟨hg, hs, ht, topological_of_order ho, legal_of_planned hg.indexed hplan⟩

variable (h : Planned g plan)

include h

theorem mem_order {slot : Nat} : slot ∈ plan.order ↔ slot < g.passes.length :=
  h.legal.perm.mem_iff.trans List.mem_range

/-- A name is found in the slot of its pass. -/
theorem get?_eq_some_iff {name : String} {slot : Nat} :
    g.index.get? name = some slot ↔ slot ∈ plan.order ∧ g.nameAt slot = name := by
  rw [h.reachable.indexed name slot, h.mem_order, List.getElem?_map, nameAt]
  by_cases hs : slot < g.passes.length
  · simp [hs]
  · simp [hs]

theorem exists_slot {p : Pass σ} (hp : p ∈ g.passes) :
    ∃ slot ∈ plan.order, g.passes[slot]? = some p ∧ g.nameAt slot = p.name := by
  obtain ⟨slot, hs⟩ := List.mem_iff_getElem?.mp hp
  refine ⟨slot, h.mem_order.mpr (List.getElem?_eq_some_iff.mp hs).1, hs, ?_⟩
  rw [nameAt, hs]
  rfl

theorem orderedNames_eq : g.orderedNames = plan.order.map g.nameAt := by
  rw [orderedNames, h.stored.sorted]

theorem levels_eq : g.levels = (waves plan.dependencies plan.order).map (·.map g.nameAt) := by
  rw [levels, h.stored.sorted, h.stored.dependencies]

/-- Dependencies between names are links between slots. -/
theorem dependsOn_iff {name other : String} :
    g.DependsOn name other ↔
      ∃ slot ∈ plan.order, ∃ next, Link plan.dependencies slot next ∧ g.nameAt slot = name ∧
        g.nameAt next = other := by
  constructor
  · rintro ⟨names, hn, hm⟩
    simp only [dependencies?, h.stored.dependencies, Option.bind_eq_bind, Option.bind_eq_some_iff,
      Option.pure_def, Option.some.injEq] at hn
    obtain ⟨slot, hs, links, hl, rfl⟩ := hn
    obtain ⟨next, hnext, rfl⟩ := List.mem_map.mp hm
    obtain ⟨hslot, rfl⟩ := h.get?_eq_some_iff.mp hs
    exact ⟨slot, hslot, next, by simpa [Link, linksOf, hl] using hnext, rfl, rfl⟩
  · rintro ⟨slot, hs, next, hl, rfl, rfl⟩
    have hlt := lt_of_link hl
    have hlinks := List.getElem?_eq_getElem hlt
    refine ⟨plan.dependencies[slot].map g.nameAt, ?_, List.mem_map_of_mem ?_⟩
    · simp [dependencies?, h.stored.dependencies, h.get?_eq_some_iff.mpr ⟨hs, rfl⟩, hlinks]
    · simpa [Link, linksOf, hlinks] using hl

/-- The dependencies of a pass are the names in the slots that it has links to. -/
theorem dependencies?_nameAt {slot : Nat} (hs : slot ∈ plan.order) :
    g.dependencies? (g.nameAt slot) = some ((linksOf plan.dependencies slot).map g.nameAt) := by
  have hlt : slot < plan.dependencies.length := by
    rw [length_of_dependencies h.table]
    exact h.mem_order.mp hs
  rw [dependencies?, h.get?_eq_some_iff.mpr ⟨hs, rfl⟩, h.stored.dependencies, linksOf]
  simp [List.getElem?_eq_getElem hlt]

/-- The dependencies of a pass are known, and each is told once. -/
theorem exists_dependencies? {p : Pass σ} (hm : p ∈ g.passes) :
    ∃ names, g.dependencies? p.name = some names ∧ names.Nodup := by
  obtain ⟨slot, hs, -, hname⟩ := h.exists_slot hm
  refine ⟨(linksOf plan.dependencies slot).map g.nameAt, ?_, ?_⟩
  · rw [← hname, h.dependencies?_nameAt hs]
  · refine (nodup_linksOf h.table slot).map_on fun next hn other ho he ↦ ?_
    -- Names tell where passes stand, so links of one name are one link.
    have hnext := h.get?_eq_some_iff.mpr ⟨h.topological.mem_of_link hs hn, rfl⟩
    have hother := h.get?_eq_some_iff.mpr ⟨h.topological.mem_of_link hs ho, rfl⟩
    rw [he, hother] at hnext
    exact (Option.some.inj hnext).symm

/-- The wave of a pass. -/
def waveOf (g : PassGraph σ) (plan : Plan) (name : String) : Nat :=
  ((g.index.get? name).map (rank plan.dependencies plan.order)).getD 0

theorem waveOf_nameAt {slot : Nat} (hs : slot ∈ plan.order) :
    waveOf g plan (g.nameAt slot) = rank plan.dependencies plan.order slot := by
  rw [waveOf, h.get?_eq_some_iff.mpr ⟨hs, rfl⟩]
  rfl

/-- What a pass depends on is in an earlier wave. -/
theorem waveOf_lt {name other : String} (hd : g.DependsOn name other) :
    waveOf g plan other < waveOf g plan name := by
  obtain ⟨slot, hs, next, hl, rfl, rfl⟩ := h.dependsOn_iff.mp hd
  rw [h.waveOf_nameAt hs, h.waveOf_nameAt (h.topological.mem_of_link hs hl)]
  exact h.topological.rank_lt hs hl

theorem waveOf_lt_of_reaches {name other : String} (hr : TransGen g.DependsOn name other) :
    waveOf g plan other < waveOf g plan name := by
  induction hr with
  | single hd => exact h.waveOf_lt hd
  | tail _ hd ih => exact (h.waveOf_lt hd).trans ih

/-- The wave of a pass is the length of the longest chain of dependencies that ends at it. -/
theorem isGreatest_waveOf (name : String) :
    IsGreatest (g.chainLengths name) (waveOf g plan name) := by
  refine isGreatest_rank (fun _ _ hd ↦ h.waveOf_lt hd) (fun name hw ↦ ?_) name
  cases hs : g.index.get? name with
  | none => simp [waveOf, hs] at hw
  | some slot =>
    obtain ⟨hm, rfl⟩ := h.get?_eq_some_iff.mp hs
    rw [h.waveOf_nameAt hm] at hw ⊢
    obtain ⟨next, hl, hr⟩ := h.topological.exists_link hm hw
    refine ⟨g.nameAt next, h.dependsOn_iff.mpr ⟨slot, hm, next, hl, rfl, rfl⟩, ?_⟩
    rw [hr, h.waveOf_nameAt (h.topological.mem_of_link hm hl)]

theorem exists_mem_levels {k : Nat} {name : String} :
    (∃ wave, g.levels[k]? = some wave ∧ name ∈ wave) ↔
      name ∈ g.orderedNames ∧ waveOf g plan name = k := by
  simp only [h.levels_eq, h.orderedNames_eq, List.getElem?_map, Option.map_eq_some_iff,
    List.mem_map]
  constructor
  · rintro ⟨_, ⟨wave, hw, rfl⟩, hm⟩
    obtain ⟨slot, hs, rfl⟩ := List.mem_map.mp hm
    obtain ⟨hm, hr⟩ := h.topological.exists_mem_waves.mp ⟨wave, hw, hs⟩
    exact ⟨⟨slot, hm, rfl⟩, (h.waveOf_nameAt hm).trans hr⟩
  · rintro ⟨⟨slot, hs, rfl⟩, rfl⟩
    rw [h.waveOf_nameAt hs]
    obtain ⟨wave, hw, hm⟩ := h.topological.exists_mem_waves.mpr ⟨hs, rfl⟩
    exact ⟨_, ⟨wave, hw, rfl⟩, List.mem_map_of_mem hm⟩

/-- Names of one wave belong to scheduled passes of that wave. -/
theorem waveOf_eq {wave : List String} (hw : wave ∈ g.levels) {name other : String}
    (hn : name ∈ wave) (ho : other ∈ wave) : waveOf g plan name = waveOf g plan other := by
  obtain ⟨k, hk⟩ := List.mem_iff_getElem?.mp hw
  have hname := (h.exists_mem_levels.mp ⟨wave, hk, hn⟩).2
  exact hname.trans (h.exists_mem_levels.mp ⟨wave, hk, ho⟩).2.symm

/-- What comes before a slot has a lower rank. -/
theorem rank_lt_of_before {slot other : Nat} (ho : other ∈ plan.order)
    (hb : Before g.passes slot other) :
    rank plan.dependencies plan.order slot < rank plan.dependencies plan.order other := by
  have hr := reaches_of_before h.reachable.indexed h.table hb
  exact (h.topological.rank_lt_of_reaches ho hr).2

/-- Of two passes that conflict one is in an earlier wave. -/
theorem waveOf_ne_of_conflict {p q : Pass σ} (hp : p ∈ g.passes) (hq : q ∈ g.passes)
    (hne : p.name ≠ q.name) (hc : p.Conflict q) :
    waveOf g plan p.name ≠ waveOf g plan q.name := by
  obtain ⟨slot, hs, hslot, hname⟩ := h.exists_slot hp
  obtain ⟨other, ho, hother, hname'⟩ := h.exists_slot hq
  rw [← hname, ← hname', h.waveOf_nameAt hs, h.waveOf_nameAt ho]
  rcases Nat.lt_trichotomy slot other with hlt | rfl | hlt
  · exact (h.rank_lt_of_before ho (.inl ⟨hlt, p, q, hslot, hother, hc⟩)).ne
  · exact absurd (hname.symm.trans hname') hne
  · exact (h.rank_lt_of_before hs (.inl ⟨hlt, q, p, hother, hslot, hc.symm⟩)).ne'

theorem perm_orderedNames : g.orderedNames.Perm (g.passes.map (·.name)) := by
  rw [PassGraph.orderedNames_eq h.reachable, scheduled, h.stored.sorted]
  exact (perm_filterMap h.legal.perm).map _

theorem perm_flatten_levels : g.levels.flatten.Perm g.orderedNames := by
  rw [h.levels_eq, h.orderedNames_eq, ← List.map_flatten]
  exact h.topological.perm_flatten_waves.map g.nameAt

theorem mem_levels {wave : List String} (hw : wave ∈ g.levels) :
    wave ≠ [] ∧ wave.Sublist g.orderedNames := by
  rw [h.levels_eq] at hw
  obtain ⟨slots, hs, rfl⟩ := List.mem_map.mp hw
  obtain ⟨hne, hsub, -⟩ := h.topological.mem_waves hs
  rw [h.orderedNames_eq]
  exact ⟨by simpa using hne, hsub.map _⟩

theorem layered : g.Layered where
  nonempty := fun _ hw ↦ (h.mem_levels hw).1
  complete := h.perm_orderedNames
  perm := h.perm_flatten_levels
  nodup := by
    have hperm := h.perm_flatten_levels.trans h.perm_orderedNames
    exact hperm.nodup_iff.mpr h.reachable.indexed.nodup
  depth := by
    intro k name
    have hg := h.isGreatest_waveOf name
    rw [h.exists_mem_levels]
    exact and_congr_right fun _ ↦ ⟨fun hk ↦ hk ▸ hg, fun hk ↦ hg.unique hk⟩
  ordered := fun _ hw ↦ (h.mem_levels hw).2
  independent := fun _ hw _ hn _ ho hr ↦ (h.waveOf_lt_of_reaches hr).ne (h.waveOf_eq hw ho hn)
  apart := fun _ hw _ hp _ hq hpw hqw hne hc ↦
    h.waveOf_ne_of_conflict hp hq hne hc (h.waveOf_eq hw hpw hqw)

/-- The slot of a name. -/
private def slotOf (g : PassGraph σ) (name : String) : Nat :=
  (g.index.get? name).getD 0

theorem slotOf_nameAt {slot : Nat} (hs : slot ∈ plan.order) : slotOf g (g.nameAt slot) = slot := by
  rw [slotOf, h.get?_eq_some_iff.mpr ⟨hs, rfl⟩]
  rfl

/-- Chains of dependencies between names are chains of links between slots. -/
theorem reaches_nameAt_iff {slot other : Nat} (hs : slot ∈ plan.order) (ho : other ∈ plan.order) :
    TransGen g.DependsOn (g.nameAt slot) (g.nameAt other) ↔
      TransGen (Link plan.dependencies) slot other := by
  constructor
  · intro hr
    have hslots : TransGen (Link plan.dependencies) (slotOf g (g.nameAt slot))
        (slotOf g (g.nameAt other)) := by
      refine TransGen.lift (slotOf g) (fun name next hd ↦ ?_) _ _ hr
      obtain ⟨before, hb, behind, hl, rfl, rfl⟩ := h.dependsOn_iff.mp hd
      rwa [Function.onFun, h.slotOf_nameAt hb,
        h.slotOf_nameAt (h.topological.mem_of_link hb hl)]
    rwa [h.slotOf_nameAt hs, h.slotOf_nameAt ho] at hslots
  · refine TransGen.lift g.nameAt (fun before behind hl ↦ ?_) _ _
    have hlt := length_of_dependencies h.table ▸ lt_of_link hl
    exact h.dependsOn_iff.mpr ⟨before, h.mem_order.mpr hlt, behind, hl, rfl, rfl⟩

/-- Passes that make up the waves stand in the slots of the waves. -/
theorem forall₂_slots {runs : List (List (Pass σ))}
    (hr : List.Forall₂ (fun run wave ↦ (run.map (·.name)).Perm wave) runs g.levels) :
    List.Forall₂ List.Perm (runs.map (·.map fun p ↦ slotOf g p.name))
      (waves plan.dependencies plan.order) := by
  have hw : g.levels.map (·.map (slotOf g)) = waves plan.dependencies plan.order := by
    rw [h.levels_eq, List.map_map]
    conv_rhs => rw [← List.map_id (waves plan.dependencies plan.order)]
    refine List.map_congr_left fun wave hwave ↦ ?_
    rw [Function.comp_apply, List.map_map]
    conv_rhs => rw [id, ← List.map_id wave]
    refine List.map_congr_left fun slot hs ↦ ?_
    exact h.slotOf_nameAt ((h.topological.mem_waves hwave).2.1.subset hs)
  rw [← hw, List.forall₂_map_left_iff, List.forall₂_map_right_iff]
  refine hr.imp fun run wave hp ↦ ?_
  have hm := hp.map (slotOf g)
  rwa [List.map_map] at hm

theorem filterMap_slots {passes : List (Pass σ)} (hp : ∀ p ∈ passes, p ∈ g.passes) :
    (passes.map fun p ↦ slotOf g p.name).filterMap (g.passes[·]?) = passes := by
  rw [List.filterMap_map]
  have hget : ∀ p ∈ passes, g.passes[slotOf g p.name]? = some p := by
    intro p hm
    obtain ⟨slot, hs, hslot, hname⟩ := h.exists_slot (hp p hm)
    rw [← hname, h.slotOf_nameAt hs, hslot]
  exact (List.filterMap_congr hget).trans List.filterMap_some

/-- Slots taken wave by wave are in a legal order. -/
theorem legal_flatten {slots : List (List Nat)}
    (hs : List.Forall₂ List.Perm slots (waves plan.dependencies plan.order)) :
    Legal g.passes slots.flatten := by
  have hperm : slots.flatten.Perm plan.order :=
    (List.Perm.flatten_congr hs).trans h.topological.perm_flatten_waves
  refine ⟨hperm.trans h.legal.perm, ?_⟩
  refine (h.topological.pairwise_rank_flatten hs).imp_of_mem fun {slot later} hslot _ hle hb ↦ ?_
  -- What comes before a slot has a lower rank, and ranks do not fall from wave to wave.
  exact (h.rank_lt_of_before (hperm.mem_iff.mp hslot) hb).not_ge hle

end Planned

/-- The waves of a built graph are safe: they are laid out by the chains of dependencies, and
running one wave after the other, the passes of each in any order, leaves the store as the order of
declaration does. -/
theorem levels_layered (hg : g.Reachable) (hb : g.isBuilt = true) :
    g.Layered ∧ ∀ {V : String → Type} (act : Pass σ → Store V → Store V),
      (∀ p ∈ g.passes, Confined p (act p)) → ∀ runs : List (List (Pass σ)),
        (∀ run ∈ runs, ∀ p ∈ run, p ∈ g.passes) →
          List.Forall₂ (fun run wave ↦ (run.map (·.name)).Perm wave) runs g.levels →
            ∀ s, runAll act runs.flatten s = runAll act g.passes s := by
  obtain ⟨plan, hs, -⟩ := hg.inStep.exists_stores hb
  have h := Planned.of_reachable hg hs
  refine ⟨h.layered, fun act ha runs hmem hr s ↦ ?_⟩
  have hl := h.legal_flatten (h.forall₂_slots hr)
  have hrun := runAll_of_legal hl ha s
  rw [← List.map_flatten, h.filterMap_slots] at hrun
  · exact hrun
  · intro p hp
    obtain ⟨run, hrun, hp⟩ := List.mem_flatten.mp hp
    exact hmem run hrun p hp

/-- Shadows and a sky that need nothing, a scene in the shadows, and an image of all. -/
def forked : List (Pass Unit) :=
  [{ name := "Shadow", writes := .ofList ["Map"] },
    { name := "Sky", writes := .ofList ["Backdrop"] },
    { name := "Scene", reads := .ofList ["Map"], writes := .ofList ["Color"] },
    { name := "Post", reads := .ofList ["Backdrop", "Color"], writes := .ofList ["Image"] }]

theorem levels_layered_forked :
    (ofPasses "Forked" forked).build.2.levels = [["Shadow", "Sky"], ["Scene"], ["Post"]] ∧
      IsGreatest ((ofPasses "Forked" forked).build.2.chainLengths "Post") 2 ∧
        ∀ s, runAll digest ([forked[1], forked[0]] ++ forked.drop 2) s =
          runAll digest forked s := by
  have hg : (ofPasses "Forked" forked).build.2.Reachable :=
    .build (reachable_ofPasses _ (by decide)).1
  have hlevels : (ofPasses "Forked" forked).build.2.levels =
      [["Shadow", "Sky"], ["Scene"], ["Post"]] := by decide +kernel
  have hpasses : (ofPasses "Forked" forked).build.2.passes = forked := by
    rw [passes_build, passes_ofPasses]
  obtain ⟨hlayered, hrun⟩ := levels_layered hg (by decide +kernel)
  have hdepth := (hlayered.depth 2 "Post").mp ⟨["Post"], by rw [hlevels]; rfl, by decide⟩
  refine ⟨hlevels, hdepth.2, fun s ↦ ?_⟩
  have h := hrun digest (fun p _ ↦ confined_digest p)
    [[forked[1], forked[0]], [forked[2]], [forked[3]]]
  rw [hpasses, hlevels] at h
  refine h (fun run hr p hp ↦ ?_) ?_ s
  · have hmem := List.mem_flatten_of_mem hr hp
    simp only [List.flatten_cons, List.flatten_nil, List.cons_append, List.nil_append,
      List.mem_cons, List.not_mem_nil, or_false] at hmem
    rcases hmem with rfl | rfl | rfl | rfl <;> exact List.getElem_mem _
  · exact .cons (by decide) (.cons (by decide) (.cons (by decide) .nil))

end PassGraph

end RenderKit
