import RenderKit.Proofs.Schedule.Precedence
import RenderKit.Proofs.Schedule.Reachable

/-!
# Running a schedule

A schedule may change the places of passes that do not conflict, and nothing else. Passes that keep
to what they declare (`Confined`) commute when they do not conflict, so running a schedule leaves
the store as running the passes in the order of declaration does (`run_scheduled_eq`), and so does
execution (`execute_eq`), which schedules anew only when there is no schedule.
-/

namespace RenderKit

/-! ### Steps that change places -/

/-- A step that changes places with each step of a run does so with the run. -/
private theorem foldl_swap {β : Type} {f : β → Nat → β} {front : List Nat} {first : Nat}
    (h : ∀ slot ∈ front, ∀ s, f (f s slot) first = f (f s first) slot) (s : β) :
    f (front.foldl f s) first = front.foldl f (f s first) := by
  induction front generalizing s with
  | nil => rfl
  | cons slot front ih =>
    rw [List.foldl_cons, ih fun x hx ↦ h x (List.mem_cons_of_mem _ hx), h slot (by simp),
      List.foldl_cons]

/-- A run of steps is the same in another order if only such steps change places as commute. -/
theorem Schedule.foldl_eq_of_reordered {β : Type} {f : β → Nat → β} {slots order : List Nat}
    (hs : slots.Pairwise (· < ·)) (hp : order.Perm slots)
    (hc : order.Pairwise fun slot later ↦
      slot < later ∨ ∀ s, f (f s slot) later = f (f s later) slot) (s : β) :
    order.foldl f s = slots.foldl f s := by
  -- The least slot moves to the front of the order past the slots before it, which all commute.
  induction slots generalizing order s with
  | nil => rw [List.perm_nil.mp hp]
  | cons first slots ih =>
    obtain ⟨hfirst, hs⟩ := List.pairwise_cons.mp hs
    obtain ⟨front, back, rfl⟩ := List.append_of_mem (hp.mem_iff.mpr List.mem_cons_self)
    have hrest : (front ++ back).Perm slots := (List.perm_middle.symm.trans hp).cons_inv
    have hahead : ∀ slot ∈ front, ∀ s, f (f s slot) first = f (f s first) slot := by
      intro slot hslot
      have hlt := hfirst slot (hrest.mem_iff.mp (List.mem_append_left _ hslot))
      have hpair := (List.pairwise_append.mp hc).2.2 slot hslot first (by simp)
      exact hpair.resolve_left (Nat.lt_asymm hlt)
    have hsub : (front ++ back).Sublist (front ++ first :: back) :=
      (List.sublist_cons_self first back).append_left front
    rw [List.foldl_append, List.foldl_cons, foldl_swap hahead, ← List.foldl_append, List.foldl_cons]
    exact ih hs hrest (hc.sublist hsub) (f s first)

/-! ### Passes that keep to what they declare -/

variable {σ : Type}

/-- What is held under the names of resources. -/
abbrev Store (V : String → Type) : Type :=
  (resource : String) → V resource

/-- A pass looks only at the resources it reads or writes, and changes only those it writes. -/
structure Confined {V : String → Type} (p : Pass σ) (work : Store V → Store V) : Prop where
  keeps : ∀ s resource, resource ∉ p.writes.names → work s resource = s resource
  looks : ∀ s t, (∀ resource, resource ∈ p.reads.names ∨ resource ∈ p.writes.names →
      s resource = t resource) →
    ∀ resource ∈ p.writes.names, work s resource = work t resource

variable {V : String → Type} {p q : Pass σ}

/-- What a pass that does not conflict with another one makes is the same behind the other. -/
private theorem Confined.eq_behind {before after : Store V → Store V} (hp : Confined p before)
    (hq : Confined q after) (hn : ¬ p.Conflict q) (s : Store V) {resource : String}
    (hw : resource ∈ q.writes.names) : after (before s) resource = after s resource := by
  refine hq.looks (before s) s (fun other ho ↦ hp.keeps s other fun hpw ↦ hn ?_) resource hw
  exact ⟨other, .inl ⟨hpw, ho⟩⟩

theorem Confined.commute {f g : Store V → Store V} (hp : Confined p f) (hq : Confined q g)
    (hn : ¬ p.Conflict q) (s : Store V) : g (f s) = f (g s) := by
  funext resource
  by_cases hpw : resource ∈ p.writes.names
  · have hqw : resource ∉ q.writes.names := fun h ↦ hn ⟨resource, .inl ⟨hpw, .inr h⟩⟩
    rw [hq.keeps _ _ hqw, hq.eq_behind hp (fun hc ↦ hn hc.symm) s hpw]
  · rw [hp.keeps _ _ hpw]
    by_cases hqw : resource ∈ q.writes.names
    · exact hp.eq_behind hq hn s hqw
    · rw [hq.keeps _ _ hqw, hq.keeps _ _ hqw, hp.keeps _ _ hpw]

/-! ### Schedules -/

namespace PassGraph

/-- The passes in the order of the schedule. -/
def scheduled (g : PassGraph σ) : List (Pass σ) :=
  match g.sorted with
  | some order => order.filterMap (g.passes[·]?)
  | none => []

/-- The store after passes ran one after the other. -/
def runAll {β : Type} (act : Pass σ → β → β) (passes : List (Pass σ)) (s : β) : β :=
  passes.foldl (fun s p ↦ act p s) s

private theorem filterMap_range (passes : List (Pass σ)) :
    (List.range passes.length).filterMap (passes[·]?) = passes := by
  induction passes using List.reverseRecOn with
  | nil => rfl
  | append_singleton passes p ih =>
    rw [List.length_append, List.length_singleton, List.range_succ, List.filterMap_append]
    have hfront : (List.range passes.length).filterMap ((passes ++ [p])[·]?) =
        (List.range passes.length).filterMap (passes[·]?) := by
      refine List.filterMap_congr fun slot hs ↦ ?_
      exact List.getElem?_append_left (List.mem_range.mp hs)
    rw [hfront, ih]
    simp

theorem perm_filterMap {passes : List (Pass σ)} {order : List Nat}
    (h : order.Perm (List.range passes.length)) :
    (order.filterMap (passes[·]?)).Perm passes := by
  have hf := h.filterMap (passes[·]?)
  rwa [filterMap_range] at hf

/-- Confined passes may run in every legal order. -/
theorem runAll_of_legal {passes : List (Pass σ)} {order : List Nat}
    (h : Schedule.Legal passes order) {act : Pass σ → Store V → Store V}
    (ha : ∀ p ∈ passes, Confined p (act p)) (s : Store V) :
    runAll act (order.filterMap (passes[·]?)) s = runAll act passes s := by
  conv_rhs => rw [← filterMap_range passes]
  rw [runAll, runAll, List.foldl_filterMap, List.foldl_filterMap]
  refine Schedule.foldl_eq_of_reordered List.pairwise_lt_range h.perm ?_ s
  refine h.pairwise.imp fun {slot later} hb ↦ ?_
  by_cases hlt : slot < later
  · exact .inl hlt
  · refine .inr fun s ↦ ?_
    cases hp : passes[slot]? with
    | none => rfl
    | some p =>
      cases hq : passes[later]? with
      | none => rfl
      | some q =>
        rcases Nat.eq_or_lt_of_le (Nat.le_of_not_lt hlt) with rfl | hlt
        · rw [hp] at hq
          cases hq
          rfl
        · have hn : ¬ p.Conflict q := fun hc ↦ hb (.inl ⟨hlt, q, p, hq, hp, hc.symm⟩)
          exact (ha p (List.mem_of_getElem? hp)).commute (ha q (List.mem_of_getElem? hq)) hn s

/-- A plan has a legal order. -/
theorem legal_of_planned {g : PassGraph σ} (hi : g.Indexed) {plan : Plan}
    (h : g.planned = .ok plan) : Schedule.Legal g.passes plan.order := by
  obtain ⟨ht, ho⟩ := planned_eq_ok_iff.mp h
  exact Schedule.legal_of_order hi ht ho

/-- The names of the schedule are those of its passes. -/
theorem orderedNames_eq {g : PassGraph σ} (hg : g.Reachable) :
    g.orderedNames = g.scheduled.map (·.name) := by
  rw [orderedNames, scheduled]
  rcases hg.inStep with ⟨-, hnone⟩ | ⟨plan, hs, hp⟩
  · rw [hnone]
    rfl
  · rw [hs.sorted]
    have hl := legal_of_planned hg.indexed hp
    have hn : ∀ slot ∈ plan.order, (g.passes[slot]?).map (·.name) = some (g.nameAt slot) := by
      intro slot hs
      have hlt := List.mem_range.mp (hl.perm.mem_iff.mp hs)
      rw [nameAt, List.getElem?_eq_getElem hlt]
      rfl
    rw [List.map_filterMap, List.filterMap_congr hn]
    exact List.filterMap_eq_map.symm ▸ rfl

/-- Built passes run as in the order of declaration: a schedule holds every pass once, and whatever
each pass does within what it declares, the store is the same in the end. -/
theorem run_scheduled_eq {g g' : PassGraph σ} (hg : g.Reachable) (hb : g.build = (.ok (), g')) :
    g'.orderedNames = g'.scheduled.map (·.name) ∧ g'.scheduled.Perm g.passes ∧
      g'.scheduled.Nodup ∧
        ∀ {V : String → Type} (act : Pass σ → Store V → Store V),
          (∀ p ∈ g.passes, Confined p (act p)) →
            ∀ s, runAll act g'.scheduled s = runAll act g.passes s := by
  have hn := orderedNames_eq (hg.build)
  rw [hb] at hn
  obtain ⟨plan, hp, rfl⟩ := build_eq_ok_iff.mp hb
  have hl := legal_of_planned hg.indexed hp
  have hperm : (plan.order.filterMap (g.passes[·]?)).Perm g.passes := perm_filterMap hl.perm
  exact ⟨hn, hperm, hperm.nodup_iff.mpr hg.indexed.nodup.of_map,
    fun act ha s ↦ runAll_of_legal hl ha s⟩

/-- A pass that leaves a digest of what it uses in all that it writes. -/
def digest (p : Pass σ) (s : Store fun _ ↦ Nat) : Store fun _ ↦ Nat := fun resource ↦
  if resource ∈ p.writes.names then ((p.reads.names ++ p.writes.names).map s).sum + 1
  else s resource

theorem confined_digest (p : Pass σ) : Confined p (digest p) := by
  constructor
  · intro s resource hr
    exact if_neg hr
  · intro s t h resource hr
    have hm : (p.reads.names ++ p.writes.names).map s = (p.reads.names ++ p.writes.names).map t :=
      List.map_congr_left fun other ho ↦ h other (List.mem_append.mp ho)
    rw [digest, digest, if_pos hr, if_pos hr, hm]

/-- A scene that is told to wait for a sky declared later. -/
def overtaken : List (Pass Unit) :=
  [{ name := "Scene", writes := .ofList ["Color"], after := ["Sky"] },
    { name := "Post", reads := .ofList ["Color"], writes := .ofList ["Image"] },
    { name := "Sky", writes := .ofList ["Backdrop"] }]

theorem run_scheduled_overtaken :
    (ofPasses "Overtaken" overtaken).Reachable ∧
      (ofPasses "Overtaken" overtaken).build.1 = .ok () ∧
        (ofPasses "Overtaken" overtaken).build.2.orderedNames = ["Sky", "Scene", "Post"] ∧
          ∀ s, runAll digest (ofPasses "Overtaken" overtaken).build.2.scheduled s =
            runAll digest overtaken s := by
  have hg : (ofPasses "Overtaken" overtaken).Reachable := (reachable_ofPasses _ (by decide)).1
  have hb : (ofPasses "Overtaken" overtaken).build.1 = .ok () := by decide +kernel
  have he : (ofPasses "Overtaken" overtaken).build =
      (.ok (), (ofPasses "Overtaken" overtaken).build.2) := Prod.ext hb rfl
  obtain ⟨-, -, -, hr⟩ := run_scheduled_eq hg he
  exact ⟨hg, hb, by decide +kernel, hr digest fun p _ ↦ confined_digest p⟩

theorem runSlots_eq (g : PassGraph σ) (slots : List Nat) (s : σ) :
    g.runSlots slots s = runAll Pass.run (slots.filterMap (g.passes[·]?)) s := by
  rw [runSlots, runAll, List.foldl_filterMap]
  congr 1
  funext s slot
  cases g.passes[slot]? <;> rfl

/-- Execution that succeeds runs the passes in the order that a build would find. -/
theorem InStep.exists_planned_of_execute {g : PassGraph σ} (h : g.InStep) {s : σ}
    (he : (g.execute s).1 = .ok ()) :
    ∃ plan, g.planned = .ok plan ∧ (g.execute s).2.2 = g.runSlots plan.order s := by
  by_cases hb : g.isBuilt = true
  · obtain ⟨plan, hs, hp⟩ := h.exists_stores hb
    exact ⟨plan, hp, by simp [execute, hb, hs.sorted]⟩
  · cases hp : g.planned with
    | error e =>
      have hbuild := build_eq_error_iff.mpr ⟨hp, rfl⟩
      simp [execute, hb, hbuild] at he
    | ok plan =>
      have hbuild := build_eq_ok_iff.mpr ⟨plan, hp, rfl⟩
      exact ⟨plan, rfl, by simp [execute, hb, hbuild, runSlots, withPlan]⟩

/-- Execution that succeeds leaves the store as the order of declaration would. -/
theorem execute_eq {V : String → Type} {g : PassGraph (Store V)} (hg : g.Reachable)
    (hc : ∀ p ∈ g.passes, Confined p p.run) {s : Store V} (h : (g.execute s).1 = .ok ()) :
    (g.execute s).2.2 = runAll Pass.run g.passes s := by
  obtain ⟨plan, hp, hs⟩ := hg.inStep.exists_planned_of_execute h
  have hl := legal_of_planned hg.indexed hp
  rw [hs, runSlots_eq, runAll_of_legal hl hc s]

end PassGraph

end RenderKit
