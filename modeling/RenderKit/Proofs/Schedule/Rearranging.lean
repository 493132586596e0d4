import RenderKit.Proofs.Schedule.Schedulability
import RenderKit.Proofs.Schedule.Waves

/-!
# Passes in another order of declaration

The order of declaration matters between conflicting passes only. Passes whose conflicting pairs keep
their order are `Rearranged`; the slots of one order then lead to those of the other (`Relocation`)
so that every relation that the dependencies are made of holds between the new slots when it holds
between the old ones, and a build finds the same dependencies and the same waves, or refuses both
orders for one kind of reason (`build_rearranged`).
-/

namespace RenderKit

variable {σ : Type}

namespace Schedule

open Relation

/-- The same passes in two orders of declaration that agree on every two passes that conflict. -/
structure Rearranged (passes passes' : List (Pass σ)) : Prop where
  perm : passes.Perm passes'
  keeps : ∀ p q, p.Conflict q → ([p, q].Sublist passes ↔ [p, q].Sublist passes')

/-- Where passes stand in another order, in which conflicting passes do not change places. -/
structure Relocation (passes passes' : List (Pass σ)) (move : Nat → Nat) : Prop where
  get : ∀ slot, passes'[move slot]? = passes[slot]?
  onto : ∀ slot p, passes'[slot]? = some p → ∃ origin, move origin = slot
  lt_iff : ∀ slot other p q, passes[slot]? = some p → passes[other]? = some q → p.Conflict q →
    (move slot < move other ↔ slot < other)

namespace Rearranged

variable {passes passes' passes'' : List (Pass σ)}

theorem symm (h : Rearranged passes passes') : Rearranged passes' passes :=
  ⟨h.perm.symm, fun p q hc ↦ (h.keeps p q hc).symm⟩

theorem trans (h : Rearranged passes passes') (h' : Rearranged passes' passes'') :
    Rearranged passes passes'' :=
  ⟨h.perm.trans h'.perm, fun p q hc ↦ (h.keeps p q hc).trans (h'.keeps p q hc)⟩

private theorem sublist_swap {front back : List (Pass σ)} {p q a b : Pass σ}
    (hn : ¬ p.Conflict q) (hc : a.Conflict b) (h : [a, b].Sublist (front ++ p :: q :: back)) :
    [a, b].Sublist (front ++ q :: p :: back) := by
  obtain ⟨head, tail, he, hhead, htail⟩ := List.sublist_append_iff.mp h
  suffices htail' : tail.Sublist (q :: p :: back) from he ▸ hhead.append htail'
  rcases List.sublist_cons_iff.mp htail with hq | ⟨tail, rfl, hq⟩
  · rcases List.sublist_cons_iff.mp hq with hback | ⟨tail, rfl, hback⟩
    · exact (hback.cons p).cons q
    · exact (hback.cons p).cons_cons q
  · rcases List.sublist_cons_iff.mp hq with hback | ⟨tail, rfl, hback⟩
    · exact (hback.cons_cons p).cons q
    · -- Only the two passes that changed places would be left, and those do not conflict.
      have hlen := congrArg List.length he
      simp only [List.length_append, List.length_cons, List.length_nil] at hlen
      obtain rfl := List.length_eq_zero_iff.mp (show head.length = 0 by omega)
      cases he
      exact absurd hc hn

/-- Neighbours that do not conflict may change places. -/
theorem swap (front back : List (Pass σ)) {p q : Pass σ} (hn : ¬ p.Conflict q) :
    Rearranged (front ++ p :: q :: back) (front ++ q :: p :: back) :=
  ⟨(List.Perm.swap q p back).append_left front, fun _ _ hc ↦
    ⟨sublist_swap hn hc, sublist_swap (fun h ↦ hn h.symm) hc⟩⟩

end Rearranged

/-- One pass stands before another when their slots do. -/
private theorem pair_sublist_iff {passes : List (Pass σ)} {p q : Pass σ} :
    [p, q].Sublist passes ↔
      ∃ slot other : Nat, slot < other ∧ passes[slot]? = some p ∧ passes[other]? = some q := by
  rw [List.cons_sublist_iff]
  constructor
  · rintro ⟨front, back, rfl, hp, hq⟩
    obtain ⟨slot, hs⟩ := List.mem_iff_getElem?.mp hp
    obtain ⟨other, ho⟩ := List.mem_iff_getElem?.mp (List.singleton_sublist.mp hq)
    have hlt := (List.getElem?_eq_some_iff.mp hs).1
    refine ⟨slot, front.length + other, by omega, ?_, ?_⟩
    · rwa [List.getElem?_append_left hlt]
    · rwa [List.getElem?_append_right (Nat.le_add_right _ _), Nat.add_sub_cancel_left]
  · rintro ⟨slot, other, hlt, hs, ho⟩
    refine ⟨passes.take other, passes.drop other, (List.take_append_drop _ _).symm, ?_, ?_⟩
    · exact List.mem_iff_getElem?.mpr ⟨slot, by rw [List.getElem?_take_of_lt hlt, hs]⟩
    · refine List.singleton_sublist.mpr (List.mem_iff_getElem?.mpr ⟨0, ?_⟩)
      rw [List.getElem?_drop, Nat.add_zero, ho]

private theorem slot_unique {passes : List (Pass σ)} (hn : (passes.map (·.name)).Nodup)
    {slot other : Nat} {p : Pass σ} (hs : passes[slot]? = some p) (ho : passes[other]? = some p) :
    slot = other := by
  have hlt : slot < passes.length := (List.getElem?_eq_some_iff.mp hs).1
  exact (List.getElem?_inj hlt hn.of_map).mp (hs.trans ho.symm)

/-- Passes of different names have a slot in every order of declaration. -/
theorem Rearranged.exists_relocation {passes passes' : List (Pass σ)}
    (h : Rearranged passes passes') (hn : (passes.map (·.name)).Nodup) :
    ∃ move, Relocation passes passes' move := by
  have hn' : (passes'.map (·.name)).Nodup := (h.perm.map _).nodup_iff.mp hn
  have hmove : ∀ slot : Nat, ∃ target : Nat, passes'[target]? = passes[slot]? := by
    intro slot
    cases hp : passes[slot]? with
    | none => exact ⟨passes'.length, List.getElem?_eq_none (Nat.le_refl _)⟩
    | some p => exact List.mem_iff_getElem?.mp (h.perm.mem_iff.mp (List.mem_of_getElem? hp))
  choose move hget using hmove
  refine ⟨move, hget, fun slot p hp ↦ ?_, fun slot other p q hp hq hc ↦ ?_⟩
  · obtain ⟨origin, ho⟩ := List.mem_iff_getElem?.mp (h.perm.mem_iff.mpr (List.mem_of_getElem? hp))
    exact ⟨origin, slot_unique hn' ((hget origin).trans ho) hp⟩
  · have hp' := (hget slot).trans hp
    have hq' := (hget other).trans hq
    have hkeeps := h.keeps p q hc
    rw [pair_sublist_iff, pair_sublist_iff] at hkeeps
    constructor
    · intro hlt
      obtain ⟨i, j, hij, hi, hj⟩ := hkeeps.mpr ⟨_, _, hlt, hp', hq'⟩
      rwa [slot_unique hn hp hi, slot_unique hn hq hj]
    · intro hlt
      obtain ⟨i, j, hij, hi, hj⟩ := hkeeps.mp ⟨_, _, hlt, hp, hq⟩
      rwa [slot_unique hn' hp' hi, slot_unique hn' hq' hj]

/-! ### Relations between moved slots -/

namespace Relocation

variable {passes passes' : List (Pass σ)} {move : Nat → Nat} (h : Relocation passes passes' move)
  {slot other : Nat} {resource : String}

include h

theorem reads_iff : Reads passes' (move slot) resource ↔ Reads passes slot resource := by
  rw [Reads, Reads, h.get]

theorem writes_iff : Writes passes' (move slot) resource ↔ Writes passes slot resource := by
  rw [Writes, Writes, h.get]

/-- A writer keeps its place among the users of a resource. -/
theorem writer_lt_iff (hw : Writes passes other resource)
    (hu : Reads passes slot resource ∨ Writes passes slot resource) :
    (move other < move slot ↔ other < slot) ∧ (move slot < move other ↔ slot < other) := by
  obtain ⟨q, hq, hw⟩ := hw
  have hp : ∃ p, passes[slot]? = some p ∧ q.Conflict p := by
    rcases hu with ⟨p, hp, hr⟩ | ⟨p, hp, hw'⟩
    · exact ⟨p, hp, resource, .inl ⟨hw, .inl hr⟩⟩
    · exact ⟨p, hp, resource, .inl ⟨hw, .inr hw'⟩⟩
  obtain ⟨p, hp, hc⟩ := hp
  exact ⟨h.lt_iff _ _ _ _ hq hp hc, h.lt_iff _ _ _ _ hp hq hc.symm⟩

/-- Writers in the other order are moved writers. -/
theorem exists_writes (hw : Writes passes' other resource) :
    ∃ origin, move origin = other ∧ Writes passes origin resource := by
  obtain ⟨q, hq, -⟩ := id hw
  obtain ⟨origin, rfl⟩ := h.onto _ _ hq
  exact ⟨origin, rfl, h.writes_iff.mp hw⟩

theorem latestWriter (hu : Reads passes slot resource ∨ Writes passes slot resource)
    (hl : LatestWriter passes slot resource other) :
    LatestWriter passes' (move slot) resource (move other) := by
  obtain ⟨hlt, hw, hmax⟩ := hl
  refine ⟨(h.writer_lt_iff hw hu).1.mpr hlt, h.writes_iff.mpr hw, fun third hthird hw' ↦ ?_⟩
  obtain ⟨origin, rfl, horigin⟩ := h.exists_writes hw'
  have hle := hmax origin ((h.writer_lt_iff horigin hu).1.mp hthird) horigin
  exact Nat.le_of_not_lt fun hgt ↦ hle.not_gt ((h.writer_lt_iff hw (.inr horigin)).1.mp hgt)

theorem consumes (hc : Consumes passes slot other) : Consumes passes' (move slot) (move other) := by
  obtain ⟨resource, hr, hl⟩ := hc
  exact ⟨resource, h.reads_iff.mpr hr, h.latestWriter (.inl hr) hl⟩

theorem awaits (ha : Awaits passes slot other) : Awaits passes' (move slot) (move other) := by
  obtain ⟨resource, hw, hl | ⟨hlt, hr⟩⟩ := ha
  · exact ⟨resource, h.writes_iff.mpr hw, .inl (h.latestWriter (.inr hw) hl)⟩
  · exact ⟨resource, h.writes_iff.mpr hw,
      .inr ⟨(h.writer_lt_iff hw (.inl hr)).2.mpr hlt, h.reads_iff.mpr hr⟩⟩

theorem names (hn : Names passes slot other) : Names passes' (move slot) (move other) := by
  rwa [Names, h.get, h.get]

theorem feedbackPair (hf : FeedbackPair passes slot other) :
    FeedbackPair passes' (move slot) (move other) := by
  obtain ⟨hlt, ⟨resource, hr, hw, hnone⟩, hchain⟩ := hf
  refine ⟨(h.writer_lt_iff hw (.inl hr)).2.mpr hlt,
    ⟨resource, h.reads_iff.mpr hr, h.writes_iff.mpr hw, fun third hthird hw' ↦ ?_⟩,
    TransGen.lift move (fun _ _ hc ↦ h.consumes hc) _ _ hchain⟩
  obtain ⟨origin, rfl, horigin⟩ := h.exists_writes hw'
  exact hnone origin ((h.writer_lt_iff horigin (.inl hr)).1.mp hthird) horigin

theorem before (hb : Before passes slot other) : Before passes' (move slot) (move other) := by
  rcases hb with ⟨hlt, p, q, hp, hq, hc⟩ | hn
  · exact .inl ⟨(h.lt_iff _ _ _ _ hp hq hc).mpr hlt, p, q, (h.get _).trans hp, (h.get _).trans hq,
      hc⟩
  · exact .inr (h.names hn)

/-- Dependencies are moved with the passes. -/
theorem link {index index' : Table Nat} (hi : Indexes (passes.map (·.name)) index.get?)
    (hi' : Indexes (passes'.map (·.name)) index'.get?) {table table' : List (List Nat)}
    (ht : dependencies passes index = .ok table) (ht' : dependencies passes' index' = .ok table')
    (hl : Link table slot other) : Link table' (move slot) (move other) := by
  rw [link_iff hi' ht']
  rcases (link_iff hi ht).mp hl with hl | hl | hl | hl
  · exact .inl (h.consumes hl)
  · exact .inr (.inl (h.awaits hl))
  · exact .inr (.inr (.inl (h.names hl)))
  · exact .inr (.inr (.inr (h.feedbackPair hl)))

end Relocation

namespace Rearranged

variable {passes passes' : List (Pass σ)} (h : Rearranged passes passes')

include h

theorem missingNames_eq_nil (hm : missingNames passes = []) : missingNames passes' = [] := by
  rw [missingNames_eq_nil_iff] at hm ⊢
  intro p hp name hname
  obtain ⟨q, hq, hn⟩ := hm p (h.perm.mem_iff.mpr hp) name hname
  exact ⟨q, h.perm.mem_iff.mp hq, hn⟩

/-- Whether passes have a schedule does not depend on the order of those that do not conflict. -/
theorem schedulable (hn : (passes.map (·.name)).Nodup) (hs : Schedulable passes) :
    Schedulable passes' := by
  have hn' : (passes'.map (·.name)).Nodup := (h.perm.map _).nodup_iff.mp hn
  obtain ⟨move, hmove⟩ := h.symm.exists_relocation hn'
  exact ⟨missingNames_eq_nil_iff.mp (h.missingNames_eq_nil (missingNames_eq_nil_iff.mpr hs.known)),
    fun _ _ hf ↦ hs.unfed _ _ (hmove.feedbackPair hf),
    fun _ hc ↦ hs.acyclic _ (TransGen.lift move (fun _ _ hb ↦ hmove.before hb) _ _ hc)⟩

end Rearranged

end Schedule

/-! ### Builds of both orders -/

namespace PassGraph

open Relation Schedule

variable {g g' : PassGraph σ}

/-- A name that is found in a built graph is found again where its pass was moved to. -/
private theorem nameAt_move {move : Nat → Nat} (h : Relocation g.passes g'.passes move)
    (slot : Nat) : g'.nameAt (move slot) = g.nameAt slot := by
  rw [nameAt, nameAt, h.get]

/-- Waves with the same members are the same up to the order of their members. -/
private theorem forall₂_perm {waves waves' : List (List String)}
    (hne : ∀ wave ∈ waves, wave ≠ []) (hne' : ∀ wave ∈ waves', wave ≠ [])
    (hn : waves.flatten.Nodup) (hn' : waves'.flatten.Nodup)
    (h : ∀ (k : Nat) name, (∃ wave, waves[k]? = some wave ∧ name ∈ wave) ↔
      ∃ wave, waves'[k]? = some wave ∧ name ∈ wave) :
    List.Forall₂ List.Perm waves waves' := by
  induction waves generalizing waves' with
  | nil =>
    cases waves' with
    | nil => exact .nil
    | cons wave' waves' =>
      obtain ⟨name, hm⟩ := List.exists_mem_of_ne_nil _ (hne' wave' List.mem_cons_self)
      obtain ⟨wave, hw, -⟩ := (h 0 name).mpr ⟨wave', rfl, hm⟩
      cases hw
  | cons wave waves ih =>
    cases waves' with
    | nil =>
      obtain ⟨name, hm⟩ := List.exists_mem_of_ne_nil _ (hne wave List.mem_cons_self)
      obtain ⟨wave', hw, -⟩ := (h 0 name).mp ⟨wave, rfl, hm⟩
      cases hw
    | cons wave' waves' =>
      rw [List.flatten_cons, List.nodup_append] at hn hn'
      have hmem : ∀ name, name ∈ wave ↔ name ∈ wave' := by simpa using h 0
      exact .cons ((List.perm_ext_iff_of_nodup hn.1 hn'.1).mpr hmem)
        (ih (fun _ hw ↦ hne _ (List.mem_cons_of_mem _ hw))
          (fun _ hw ↦ hne' _ (List.mem_cons_of_mem _ hw)) hn.2.1 hn'.2.1 fun k ↦ h (k + 1))

section

variable {plan plan' : Plan} (hp : Planned g plan) (hp' : Planned g' plan')
  (hr : Rearranged g.passes g'.passes)

include hp hp' hr

private theorem dependsOn_of_rearranged {name other : String} (hd : g.DependsOn name other) :
    g'.DependsOn name other := by
  obtain ⟨move, hmove⟩ := hr.exists_relocation hp.reachable.indexed.nodup
  obtain ⟨slot, -, next, hl, rfl, rfl⟩ := hp.dependsOn_iff.mp hd
  have hl' := hmove.link hp.reachable.indexed hp'.reachable.indexed hp.table hp'.table hl
  have hlt : move slot < g'.passes.length := length_of_dependencies hp'.table ▸ lt_of_link hl'
  exact hp'.dependsOn_iff.mpr ⟨move slot, hp'.mem_order.mpr hlt, move next, hl',
    nameAt_move hmove slot, nameAt_move hmove next⟩

/-- In both orders the same passes depend on each other. -/
theorem dependsOn_rearranged : g.DependsOn = g'.DependsOn := by
  funext name other
  exact propext ⟨dependsOn_of_rearranged hp hp' hr, dependsOn_of_rearranged hp' hp hr.symm⟩

/-- In both orders the dependencies of a pass are the same. -/
theorem dependencies?_rearranged {p : Pass σ} (hm : p ∈ g.passes) :
    ∃ names names', g.dependencies? p.name = some names ∧
      g'.dependencies? p.name = some names' ∧ names.Perm names' := by
  obtain ⟨names, hnames, hn⟩ := hp.exists_dependencies? hm
  obtain ⟨names', hnames', hn'⟩ := hp'.exists_dependencies? (hr.perm.mem_iff.mp hm)
  refine ⟨names, names', hnames, hnames', (List.perm_ext_iff_of_nodup hn hn').mpr fun other ↦ ?_⟩
  have hd : g.DependsOn p.name other ↔ g'.DependsOn p.name other := by
    rw [dependsOn_rearranged hp hp' hr]
  simpa [DependsOn, hnames, hnames'] using hd

/-- In both orders the waves hold the same passes. -/
theorem levels_rearranged : List.Forall₂ List.Perm g.levels g'.levels := by
  have hl := hp.layered
  have hl' := hp'.layered
  refine forall₂_perm hl.nonempty hl'.nonempty hl.nodup hl'.nodup fun k name ↦ ?_
  -- The wave of a pass is told by the chains below it, which both orders share.
  have hnames : g.orderedNames.Perm g'.orderedNames :=
    hl.complete.trans ((hr.perm.map _).trans hl'.complete.symm)
  have hchains : g.chainLengths name = g'.chainLengths name := by
    rw [chainLengths, chainLengths, dependsOn_rearranged hp hp' hr]
  rw [hl.depth, hl'.depth, hnames.mem_iff, hchains]

end

/-- Declaration order matters between conflicting passes only. Two orders that agree on those are
both scheduled, with the same dependencies of every pass and the same passes in every wave; or both
name a pass that does not exist; or both have a cycle. -/
theorem build_rearranged (hg : g.Reachable) (hg' : g'.Reachable)
    (hr : Rearranged g.passes g'.passes) :
    (g.build.1 = .ok () ∧ g'.build.1 = .ok () ∧
      (∀ p ∈ g.passes, ∃ names names', g.build.2.dependencies? p.name = some names ∧
        g'.build.2.dependencies? p.name = some names' ∧ names.Perm names') ∧
      List.Forall₂ List.Perm g.build.2.levels g'.build.2.levels) ∨
    (∃ name name', g.build.1 = .error (.passNotFound name) ∧
      g'.build.1 = .error (.passNotFound name')) ∨
    ∃ name name', g.build.1 = .error (.cycle name) ∧ g'.build.1 = .error (.cycle name') := by
  have hn := hg.indexed.nodup
  have hn' := hg'.indexed.nodup
  cases h : g.planned with
  | ok plan =>
    have hs := hr.schedulable hn (schedulable_of_planned hg.indexed h)
    cases h' : g'.planned with
    | error e => exact absurd hs (refused_of_planned hg'.indexed h').2
    | ok plan' =>
      have hb := build_eq_ok_iff.mpr ⟨plan, h, rfl⟩
      have hb' := build_eq_ok_iff.mpr ⟨plan', h', rfl⟩
      have hp : Planned g.build.2 plan := .of_reachable hg.build (stores_build h)
      have hp' : Planned g'.build.2 plan' := .of_reachable hg'.build (stores_build h')
      rw [← passes_build g, ← passes_build g'] at hr
      refine .inl ⟨by rw [hb], by rw [hb'], fun p hm ↦ ?_, levels_rearranged hp hp' hr⟩
      exact dependencies?_rearranged hp hp' hr (passes_build g ▸ hm)
  | error e =>
    obtain ⟨he, hs⟩ := refused_of_planned hg.indexed h
    cases h' : g'.planned with
    | ok plan' => exact absurd (hr.symm.schedulable hn' (schedulable_of_planned hg'.indexed h')) hs
    | error e' =>
      rw [build_eq_error_iff.mpr ⟨h, rfl⟩, build_eq_error_iff.mpr ⟨h', rfl⟩]
      right
      rcases kind_of_refused he, kind_of_refused (refused_of_planned hg'.indexed h').1 with
        ⟨⟨hm, name, rfl⟩ | ⟨hm, name, rfl⟩, ⟨hm', name', rfl⟩ | ⟨hm', name', rfl⟩⟩
      · exact .inl ⟨name, name', rfl, rfl⟩
      · exact absurd (hr.symm.missingNames_eq_nil hm') hm
      · exact absurd (hr.missingNames_eq_nil hm) hm'
      · exact .inr ⟨name, name', rfl, rfl⟩

/-- The forked passes with the sky declared first and the shadows after it. -/
def forkedSkyFirst : List (Pass Unit) :=
  [{ name := "Sky", writes := .ofList ["Backdrop"] },
    { name := "Shadow", writes := .ofList ["Map"] },
    { name := "Scene", reads := .ofList ["Map"], writes := .ofList ["Color"] },
    { name := "Post", reads := .ofList ["Backdrop", "Color"], writes := .ofList ["Image"] }]

private theorem rearranged_forked : Rearranged forked forkedSkyFirst := by
  refine Rearranged.swap [] _ ?_
  have hw : (NameSet.ofList ["Map"]).names = ["Map"] := by decide
  have hw' : (NameSet.ofList ["Backdrop"]).names = ["Backdrop"] := by decide
  rintro ⟨resource, ⟨hp, hq | hq⟩ | ⟨hp, -⟩⟩
  · cases hq
  · rw [hw] at hp
    rw [hw'] at hq
    cases List.mem_singleton.mp hp
    simp at hq
  · cases hp

theorem build_rearranged_forked :
    (ofPasses "Forked" forked).build.2.levels = [["Shadow", "Sky"], ["Scene"], ["Post"]] ∧
      (ofPasses "Forked" forkedSkyFirst).build.2.levels =
        [["Sky", "Shadow"], ["Scene"], ["Post"]] ∧
      ∃ names names', (ofPasses "Forked" forked).build.2.dependencies? "Post" = some names ∧
        (ofPasses "Forked" forkedSkyFirst).build.2.dependencies? "Post" = some names' ∧
          names.Perm names' := by
  have hg : (ofPasses "Forked" forked).Reachable := (reachable_ofPasses _ (by decide)).1
  have hg' : (ofPasses "Forked" forkedSkyFirst).Reachable := (reachable_ofPasses _ (by decide)).1
  have hb : (ofPasses "Forked" forked).build.1 = .ok () := by decide +kernel
  refine ⟨by decide +kernel, by decide +kernel, ?_⟩
  have hr : Rearranged (ofPasses "Forked" forked).passes
      (ofPasses "Forked" forkedSkyFirst).passes := by
    rw [passes_ofPasses, passes_ofPasses]
    exact rearranged_forked
  rcases build_rearranged hg hg' hr with ⟨-, -, hd, -⟩ | ⟨_, _, he, -⟩ | ⟨_, _, he, -⟩
  · rw [passes_ofPasses] at hd
    exact hd forked[3] (List.getElem_mem _)
  · rw [hb] at he
    cases he
  · rw [hb] at he
    cases he

end PassGraph

end RenderKit
