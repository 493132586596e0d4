import RenderKit.Proofs.Schedule.Dependencies
import RenderKit.Proofs.Schedule.Widening
import Mathlib.Data.List.Find

/-!
# Passes that nothing concerns

A pass that shares no resource with another, and neither names one nor is named, can be taken out
unnoticed. The slots behind it close up; but for their new numbers every list that dependencies are
inferred from stays as it was (`followed_skip`), so a build ends as before, with the same order and
the same dependencies of the passes that are left (`build_remove`).
-/

namespace RenderKit

variable {σ : Type}

/-- A pass reads or writes a resource. -/
def Pass.Touches (p : Pass σ) (resource : String) : Prop :=
  resource ∈ p.reads.names ∨ resource ∈ p.writes.names

private theorem Pass.contains_of_not_touches {p : Pass σ} {resource : String}
    (h : ¬ p.Touches resource) :
    p.reads.contains resource = false ∧ p.writes.contains resource = false := by
  rw [Touches, not_or] at h
  rwa [← Bool.not_eq_true, ← Bool.not_eq_true, Table.contains_iff, Table.contains_iff]

namespace Schedule

/-- A pass that touches no resource of another one, names none to follow, and that none names. -/
structure Isolated (passes : List (Pass σ)) (u : Pass σ) : Prop where
  mem : u ∈ passes
  unshared : ∀ q ∈ passes, q.name ≠ u.name → ∀ resource, u.Touches resource → ¬ q.Touches resource
  after : u.after = []
  unnamed : ∀ q ∈ passes, q.name ≠ u.name → u.name ∉ q.after

/-- Renaming the elements of a list one by one keeps which of them are repeated. -/
private theorem eraseDups_map {f : Nat → Nat} (hf : Function.Injective f) (xs : List Nat) :
    (xs.map f).eraseDups = xs.eraseDups.map f := by
  cases xs with
  | nil => rfl
  | cons x xs =>
    have hfilter : xs.filter ((fun y ↦ !y == f x) ∘ f) = xs.filter fun y ↦ !y == x := by
      apply List.filter_congr
      intro y _
      simp [hf.eq_iff]
    rw [List.map_cons, List.eraseDups_cons, List.eraseDups_cons, List.map_cons, List.filter_map,
      hfilter, eraseDups_map hf]
termination_by xs.length
decreasing_by
  have hle := List.length_filter_le (fun y ↦ !y == x) xs
  rw [List.length_cons]
  omega

/-- What slots are found in, if one that lacks the property is taken out. -/
private theorem slotsWhere_skip {passes : List (Pass σ)} {gap : Nat} {u : Pass σ}
    (hgap : passes[gap]? = some u) {p : Pass σ → Bool} (hu : p u = false) (slot : Nat) :
    slotsWhere (passes.take (skip gap slot)) p =
      (slotsWhere ((passes.eraseIdx gap).take slot) p).map (skip gap) := by
  have hsorted : ((slotsWhere ((passes.eraseIdx gap).take slot) p).map (skip gap)).Pairwise
      (· < ·) :=
    (pairwise_slotsWhere p).map _ fun _ _ ↦ skip_lt_skip_iff.mpr
  apply (pairwise_slotsWhere p).eq_of_mem_iff hsorted
  intro other
  simp only [mem_slotsWhere, getElem?_take_eq_some, List.mem_map, getElem?_eraseIdx_eq_skip]
  constructor
  · rintro ⟨q, ⟨hlt, hq⟩, hp⟩
    have hne : other ≠ gap := by
      rintro rfl
      rw [hgap] at hq
      cases hq
      rw [hu] at hp
      cases hp
    obtain ⟨other, rfl⟩ := exists_skip_eq hne
    exact ⟨other, ⟨q, ⟨skip_lt_skip_iff.mp hlt, hq⟩, hp⟩, rfl⟩
  · rintro ⟨other, ⟨q, ⟨hlt, hq⟩, hp⟩, rfl⟩
    exact ⟨q, ⟨skip_lt_skip_iff.mpr hlt, hq⟩, hp⟩

section

variable {passes : List (Pass σ)} {u : Pass σ} {gap : Nat} (hgap : passes[gap]? = some u)

include hgap

private theorem skip_length_eraseIdx :
    skip gap (passes.eraseIdx gap).length = passes.length := by
  have hlt := (List.getElem?_eq_some_iff.mp hgap).1
  rw [List.length_eraseIdx_of_lt hlt, skip_of_le (by omega)]
  omega

private theorem flatMap_after_eraseIdx (hu : u.after = []) :
    (passes.eraseIdx gap).flatMap (·.after) = passes.flatMap (·.after) := by
  obtain ⟨hlt, rfl⟩ := List.getElem?_eq_some_iff.mp hgap
  conv_rhs => rw [← List.take_append_drop gap passes, List.drop_eq_getElem_cons hlt]
  rw [List.eraseIdx_eq_take_drop_succ, List.flatMap_append, List.flatMap_append, List.flatMap_cons,
    hu, List.nil_append]

/-- A table that is made pass by pass, if the row of one of them is empty. -/
private theorem widened_of_rows {f f' : Pass σ × Nat → List Nat}
    (hidle : linksOf (passes.zipIdx.map f) gap = [])
    (hrows : ∀ slot p, passes[skip gap slot]? = some p →
      f (p, skip gap slot) = (f' (p, slot)).map (skip gap)) :
    Widened gap ((passes.eraseIdx gap).zipIdx.map f') (passes.zipIdx.map f) where
  length := by
    have hlt := (List.getElem?_eq_some_iff.mp hgap).1
    simp only [List.length_map, List.length_zipIdx, List.length_eraseIdx_of_lt hlt]
    omega
  gap_le := by
    have hlt := (List.getElem?_eq_some_iff.mp hgap).1
    simp only [List.length_map, List.length_zipIdx, List.length_eraseIdx_of_lt hlt]
    omega
  idle := hidle
  links slot := by
    rw [linksOf_map_zipIdx, linksOf_map_zipIdx, getElem?_eraseIdx_eq_skip]
    cases hp : passes[skip gap slot]? with
    | none => rfl
    | some p => exact hrows slot p hp

/-- The latest writer of a resource that the pass which is taken out does not write. -/
private theorem latestWriter?_skip {resource : String} (hr : ¬ u.Touches resource) (slot : Nat) :
    latestWriter? passes (skip gap slot) resource =
      (latestWriter? (passes.eraseIdx gap) slot resource).map (skip gap) := by
  rw [latestWriter?, writers, slotsWhere_skip hgap (Pass.contains_of_not_touches hr).2,
    List.getLast?_map]
  rfl

private theorem beforeWriting_skip {resource : String} (hr : ¬ u.Touches resource) (slot : Nat) :
    beforeWriting passes (skip gap slot) resource =
      (beforeWriting (passes.eraseIdx gap) slot resource).map (skip gap) := by
  rw [beforeWriting, beforeWriting, latestWriter?_skip hgap hr, readers, readers,
    slotsWhere_skip hgap (Pass.contains_of_not_touches hr).1, List.map_append, Option.toList_map]

private theorem writers_skip {resource : String} (hr : ¬ u.Touches resource) :
    writers passes resource = (writers (passes.eraseIdx gap) resource).map (skip gap) := by
  have h := slotsWhere_skip (p := fun p ↦ p.writes.contains resource) hgap
    (Pass.contains_of_not_touches hr).2 (passes.eraseIdx gap).length
  rwa [skip_length_eraseIdx hgap, List.take_length, List.take_length] at h

variable (hn : (passes.map (·.name)).Nodup) (hu : Isolated passes u)

include hn

private theorem name_ne {slot : Nat} {p : Pass σ} (hp : passes[skip gap slot]? = some p) :
    p.name ≠ u.name := by
  intro he
  have hlt := (List.getElem?_eq_some_iff.mp hgap).1
  apply skip_ne_gap gap slot
  refine ((List.getElem?_inj (by simpa using hlt) hn).mp ?_).symm
  rw [List.getElem?_map, List.getElem?_map, hp, hgap, Option.map_some, Option.map_some, he]

include hu

private theorem not_touches {slot : Nat} {p : Pass σ} (hp : passes[skip gap slot]? = some p)
    {resource : String} (hr : p.Touches resource) : ¬ u.Touches resource := fun ht ↦
  hu.unshared p (List.mem_of_getElem? hp) (name_ne hgap hn hp) resource ht hr

/-- No pass names an isolated one, nor does that name itself. -/
private theorem ne_of_mem_after {p : Pass σ} (hp : p ∈ passes) {name : String}
    (hname : name ∈ p.after) : name ≠ u.name := by
  rintro rfl
  obtain ⟨slot, hs⟩ := List.mem_iff_getElem?.mp hp
  by_cases he : slot = gap
  · rw [he, hgap] at hs
    cases hs
    rw [hu.after] at hname
    cases hname
  · obtain ⟨slot, rfl⟩ := exists_skip_eq he
    exact hu.unnamed p hp (name_ne hgap hn hs) hname

private theorem consumed_skip {slot : Nat} {p : Pass σ} (hp : passes[skip gap slot]? = some p) :
    consumed passes (p, skip gap slot) =
      (consumed (passes.eraseIdx gap) (p, slot)).map (skip gap) := by
  rw [consumed, consumed, ← eraseDups_map (skip_injective gap), List.map_filterMap]
  congr 1
  apply List.filterMap_congr
  intro resource hr
  exact latestWriter?_skip hgap (not_touches hgap hn hu hp (.inl hr)) slot

/-- Nothing that an isolated pass reads or writes concerns another. -/
private theorem eq_of_touches {slot : Nat} {q : Pass σ} (hq : passes[slot]? = some q)
    {resource : String} (hr : u.Touches resource) (ht : q.Touches resource) : slot = gap := by
  by_contra hne
  obtain ⟨slot, rfl⟩ := exists_skip_eq hne
  exact not_touches hgap hn hu hq ht hr

private theorem not_consumes (other : Nat) : ¬ Consumes passes gap other := by
  rintro ⟨resource, ⟨p, hp, hr⟩, hlt, ⟨q, hq, hw⟩, -⟩
  rw [hgap] at hp
  cases hp
  exact hlt.ne (eq_of_touches hgap hn hu hq (.inl hr) (.inr hw))

/-- An isolated pass has no links. -/
private theorem not_link {index : Table Nat} (hi : Indexes (passes.map (·.name)) index.get?)
    {table : List (List Nat)} (ht : dependencies passes index = .ok table) (other : Nat) :
    ¬ Link table gap other := by
  have hself : ∀ {p : Pass σ}, passes[gap]? = some p → p = u := fun hp ↦
    Option.some.inj (hp.symm.trans hgap)
  rw [link_iff hi ht]
  rintro (hc | ⟨resource, ⟨p, hp, hw⟩, ⟨hlt, ⟨q, hq, hw'⟩, -⟩ | ⟨hlt, q, hq, hr⟩⟩ |
    ⟨p, q, hp, hq, hname⟩ | ⟨hlt, ⟨resource, ⟨p, hp, hr⟩, ⟨q, hq, hw⟩, -⟩, -⟩)
  · exact not_consumes hgap hn hu other hc
  · cases hself hp
    exact hlt.ne (eq_of_touches hgap hn hu hq (.inr hw) (.inr hw'))
  · cases hself hp
    exact hlt.ne (eq_of_touches hgap hn hu hq (.inr hw) (.inl hr))
  · cases hself hp
    rw [hu.after] at hname
    cases hname
  · cases hself hp
    exact hlt.ne' (eq_of_touches hgap hn hu hq (.inl hr) (.inr hw))

private theorem widened_consumption :
    Widened gap (consumption (passes.eraseIdx gap)) (consumption passes) := by
  refine widened_of_rows hgap ?_ fun slot p hp ↦ consumed_skip hgap hn hu hp
  rw [List.eq_nil_iff_forall_not_mem]
  intro other hl
  exact not_consumes hgap hn hu other (link_consumption_iff.mp hl)

private theorem feedback_skip {slot : Nat} {p : Pass σ} (hp : passes[skip gap slot]? = some p) :
    feedback passes (consumption passes) (p, skip gap slot) =
      (feedback (passes.eraseIdx gap) (consumption (passes.eraseIdx gap)) (p, slot)).map
        (skip gap) := by
  rw [feedback, feedback, List.map_flatMap]
  apply List.flatMap_congr
  intro resource hr
  have hany : ((writers (passes.eraseIdx gap) resource).map (skip gap)).any
      (· < skip gap slot) = (writers (passes.eraseIdx gap) resource).any (· < slot) := by
    rw [List.any_map]
    congr 1
    funext writer
    simp [skip_lt_skip_iff]
  have hfilter : ((writers (passes.eraseIdx gap) resource).map (skip gap)).filter
      (fun writer ↦ writer != skip gap slot &&
        leadsTo (consumption passes) writer (skip gap slot)) =
      ((writers (passes.eraseIdx gap) resource).filter fun writer ↦ writer != slot &&
        leadsTo (consumption (passes.eraseIdx gap)) writer slot).map (skip gap) := by
    rw [List.filter_map]
    congr 1
    apply List.filter_congr
    intro writer _
    rw [Function.comp_apply, (widened_consumption hgap hn hu).leadsTo_eq, bne, bne,
      (skip_injective gap).beq_eq]
  simp only [writers_skip hgap (not_touches hgap hn hu hp (.inl hr)), hany, hfilter]
  split <;> rfl

section

variable {index index' : Table Nat} (hi : Indexes (passes.map (·.name)) index.get?)
  (hi' : Indexes ((passes.eraseIdx gap).map (·.name)) index'.get?)

omit hn hu

include hi hi'

private theorem get?_skip {name : String} (hname : name ≠ u.name) :
    index.get? name = (index'.get? name).map (skip gap) := by
  apply Option.ext
  intro target
  simp only [hi _ _, hi' _ _, Option.map_eq_some_iff, List.getElem?_map,
    getElem?_eraseIdx_eq_skip]
  constructor
  · rintro ⟨p, hp, rfl⟩
    have hne : target ≠ gap := by
      rintro rfl
      rw [hgap] at hp
      cases hp
      exact hname rfl
    obtain ⟨slot, rfl⟩ := exists_skip_eq hne
    exact ⟨slot, ⟨p, hp, rfl⟩, rfl⟩
  · rintro ⟨slot, hp, rfl⟩
    exact hp

include hn hu

/-- What a pass follows, if an isolated one is taken out. -/
private theorem followed_skip {slot : Nat} {p : Pass σ} (hp : passes[skip gap slot]? = some p) :
    followed passes index (p, skip gap slot) =
      (followed (passes.eraseIdx gap) index' (p, slot)).map (skip gap) := by
  have hwriting : p.writes.names.flatMap (beforeWriting passes (skip gap slot)) =
      (p.writes.names.flatMap (beforeWriting (passes.eraseIdx gap) slot)).map (skip gap) := by
    rw [List.map_flatMap]
    apply List.flatMap_congr
    intro resource hr
    exact beforeWriting_skip hgap (not_touches hgap hn hu hp (.inr hr)) slot
  have hnamed : p.after.filterMap index.get? = (p.after.filterMap index'.get?).map (skip gap) := by
    rw [List.map_filterMap]
    apply List.filterMap_congr
    intro name hname
    exact get?_skip hgap hi hi' (ne_of_mem_after hgap hn hu (List.mem_of_getElem? hp) hname)
  rw [followed, followed, ← eraseDups_map (skip_injective gap), List.map_append, List.map_append,
    List.map_append, consumed_skip hgap hn hu hp, hwriting, hnamed, feedback_skip hgap hn hu hp]

private theorem firstMissing?_eraseIdx :
    firstMissing? (passes.eraseIdx gap) index' = firstMissing? passes index := by
  rw [firstMissing?, firstMissing?, flatMap_after_eraseIdx hgap hu.after]
  apply List.find?_congr
  intro name hname
  obtain ⟨p, hp, hname⟩ := List.mem_flatMap.mp hname
  rw [Table.contains, Table.contains, get?_skip hgap hi hi' (ne_of_mem_after hgap hn hu hp hname),
    Option.isSome_map]

/-- A table of dependencies is missing for the same name, or the isolated pass is idle in it. -/
theorem corresponds_dependencies :
    Corresponds Eq (fun table wide ↦ Widened gap table wide ∧ InRange table)
      (dependencies (passes.eraseIdx gap) index') (dependencies passes index) := by
  have hmissing := firstMissing?_eraseIdx hgap hn hu hi hi'
  cases hm : firstMissing? passes index with
  | some name =>
    rw [hm] at hmissing
    rw [dependencies_eq, dependencies_eq, hm, hmissing]
    exact .error rfl
  | none =>
    rw [hm] at hmissing
    have ht := dependencies_eq passes index
    have ht' := dependencies_eq (passes.eraseIdx gap) index'
    rw [hm] at ht
    rw [hmissing] at ht'
    rw [ht, ht']
    refine .ok ⟨widened_of_rows hgap ?_ fun slot p hp ↦ followed_skip hgap hn hu hi hi' hp,
      inRange_of_dependencies hi' ht'⟩
    rw [List.eq_nil_iff_forall_not_mem]
    exact not_link hgap hn hu hi ht

end

end

end Schedule

/-! ### Builds without an isolated pass -/

namespace PassGraph

open Schedule

variable {g g' : PassGraph σ} {u : Pass σ} {gap : Nat}

private theorem nameAt_of_eraseIdx (h : g'.passes = g.passes.eraseIdx gap) (slot : Nat) :
    g'.nameAt slot = g.nameAt (skip gap slot) := by
  rw [nameAt, nameAt, h, getElem?_eraseIdx_eq_skip]

/-- The plans of a graph and of that without the pass in a slot, which is idle. -/
structure PlansApart (gap : Nat) (plan wide : Plan) : Prop where
  widened : Widened gap plan.dependencies wide.dependencies
  moved : Moved gap plan.order wide.order

/-- A plan is found with an isolated pass when it is found without, and differs from it by the slot
of that pass only. -/
private theorem corresponds_planned (hg : g.Reachable) (hgap : g.passes[gap]? = some u)
    (hu : Isolated g.passes u) :
    Corresponds Eq (PlansApart gap) (g.without gap).planned g.planned := by
  rw [planned, planned]
  have htable := corresponds_dependencies hgap hg.indexed.nodup hu hg.indexed
    (hg.indexed.without gap)
  apply htable.bind
  rintro table wide ⟨hw, hr⟩
  have hnames : ∀ slot slot', slot' = skip gap slot →
      ScheduleError.cycle ((g.without gap).nameAt slot) = .cycle (g.nameAt slot') := by
    rintro slot _ rfl
    rw [nameAt_of_eraseIdx rfl]
  apply (hw.corresponds_order.mapError hnames).bind
  intro order order' ho
  exact .ok ⟨hw, ho⟩

section

variable {plan wide : Plan} (hp' : Planned g' plan) (hp : Planned g wide)
  (hgap : g.passes[gap]? = some u) (hpasses : g'.passes = g.passes.eraseIdx gap)
  (h : PlansApart gap plan wide)

include hp' hp hgap hpasses h

private theorem orderedNames_eraseIdx :
    g'.orderedNames = g.orderedNames.filter (· ≠ u.name) := by
  have hslot : ∀ slot ∈ wide.order, (slot != gap) = decide (g.nameAt slot ≠ u.name) := by
    intro slot hs
    have hindex : g.index.get? u.name = some gap := by
      rw [hp.reachable.indexed, List.getElem?_map, hgap]
      rfl
    have hname : g.index.get? u.name = some slot ↔ slot ∈ wide.order ∧ g.nameAt slot = u.name :=
      hp.get?_eq_some_iff
    rw [hindex, Option.some.injEq] at hname
    rw [Bool.eq_iff_iff, bne_iff_ne, decide_eq_true_iff, not_iff_not, eq_comm, hname]
    exact and_iff_right hs
  calc g'.orderedNames
    _ = plan.order.map g'.nameAt := hp'.orderedNames_eq
    _ = (plan.order.map (skip gap)).map g.nameAt := by
        rw [List.map_map]
        exact List.map_congr_left fun slot _ ↦ nameAt_of_eraseIdx hpasses slot
    _ = (wide.order.filter (· != gap)).map g.nameAt := by rw [h.moved]
    _ = (wide.order.map g.nameAt).filter (· ≠ u.name) := by
        rw [List.filter_map, List.filter_congr hslot]
        rfl
    _ = g.orderedNames.filter (· ≠ u.name) := by rw [hp.orderedNames_eq]

private theorem dependencies?_eraseIdx {name : String} (hname : name ≠ u.name) :
    g'.dependencies? name = g.dependencies? name := by
  have hindexed' := hp'.reachable.indexed
  rw [Indexed, hpasses] at hindexed'
  have hget := get?_skip hgap hp.reachable.indexed hindexed' hname
  cases hs : g'.index.get? name with
  | none =>
    rw [hs] at hget
    rw [dependencies?, dependencies?, hs, hget]
    rfl
  | some slot =>
    rw [hs] at hget
    obtain ⟨hslot', rfl⟩ := hp'.get?_eq_some_iff.mp hs
    obtain ⟨hslot, hname⟩ := hp.get?_eq_some_iff.mp hget
    rw [hp'.dependencies?_nameAt hslot', ← hname, hp.dependencies?_nameAt hslot, h.widened.links,
      List.map_map]
    congr 1
    exact List.map_congr_left fun next _ ↦ nameAt_of_eraseIdx hpasses next

end

/-- A pass that nothing concerns can be taken out unnoticed. The build ends as before, and when it
succeeds, the order is the old one without that pass and all others follow the same passes. -/
theorem build_remove (hg : g.Reachable) (hu : Isolated g.passes u) :
    ∃ g', g.remove u.name = .ok (u, g') ∧ g'.build.1 = g.build.1 ∧
      g'.build.2.orderedNames = g.build.2.orderedNames.filter (· ≠ u.name) ∧
        ∀ name ≠ u.name, g'.build.2.dependencies? name = g.build.2.dependencies? name := by
  obtain ⟨gap, hgap⟩ := List.mem_iff_getElem?.mp hu.mem
  have hindex : g.index.get? u.name = some gap := by
    rw [hg.indexed, List.getElem?_map, hgap]
    rfl
  have hremove := remove_eq_ok_iff.mpr ⟨gap, hindex, hgap, rfl⟩
  refine ⟨_, hremove, ?_⟩
  rcases (corresponds_planned hg hgap hu).exists_eq with
    ⟨plan, wide, hplan, hwide, h⟩ | ⟨e, _, he, he', rfl⟩
  · have hb := build_eq_ok_iff.mpr ⟨wide, hwide, rfl⟩
    have hb' : (g.without gap).unplanned.build = (.ok (), _) :=
      build_eq_ok_iff.mpr ⟨plan, hplan, rfl⟩
    have hp : Planned g.build.2 wide := .of_reachable hg.build (stores_build hwide)
    have hp' : Planned (g.without gap).unplanned.build.2 plan :=
      .of_reachable (hg.remove hremove).build (stores_build hplan)
    rw [← passes_build] at hgap
    have hpasses : (g.without gap).unplanned.build.2.passes = g.build.2.passes.eraseIdx gap := by
      rw [passes_build, passes_build]
      rfl
    refine ⟨by rw [hb, hb'], orderedNames_eraseIdx hp' hp hgap hpasses h, fun name hname ↦ ?_⟩
    exact dependencies?_eraseIdx hp' hp hgap hpasses h hname
  · have hb' : (g.without gap).unplanned.build = (.error e, _) :=
      build_eq_error_iff.mpr ⟨he, rfl⟩
    rw [build_eq_error_iff.mpr ⟨he', rfl⟩, hb']
    refine ⟨rfl, rfl, fun name _ ↦ ?_⟩
    rw [dependencies?_unplanned, dependencies?_unplanned]

/-- A pass that no other is concerned with. -/
def sound : Pass Unit :=
  { name := "Sound", reads := .ofList ["Clock"], writes := .ofList ["Mix"] }

/-- The painted passes with the sound among them. -/
def scored : List (Pass Unit) :=
  painted.take 1 ++ sound :: painted.drop 1

private theorem isolated_sound : Isolated scored sound where
  mem := by simp [scored]
  unshared q hq hne resource ht := by
    have hresource : resource = "Clock" ∨ resource = "Mix" := by
      have hreads : sound.reads.names = ["Clock"] := by decide
      have hwrites : sound.writes.names = ["Mix"] := by decide
      simpa [Pass.Touches, hreads, hwrites] using ht
    have hothers : ∀ q ∈ scored, q.name ≠ sound.name → ∀ resource ∈ ["Clock", "Mix"],
        resource ∉ q.reads.names ∧ resource ∉ q.writes.names := by decide
    exact not_or.mpr (hothers q hq hne resource (by simpa using hresource))
  after := rfl
  unnamed := by decide

theorem build_remove_scored :
    (ofPasses "Scored" scored).build.2.orderedNames = ["Clear", "Sound", "Draw", "Log", "Show"] ∧
      ∃ g', (ofPasses "Scored" scored).remove "Sound" = .ok (sound, g') ∧
        g'.build.2.orderedNames = ["Clear", "Draw", "Log", "Show"] ∧
          g'.build.2.dependencies? "Show" = some ["Draw", "Log"] := by
  have hg : (ofPasses "Scored" scored).Reachable := (reachable_ofPasses _ (by decide)).1
  have hu : Isolated (ofPasses "Scored" scored).passes sound := by
    rw [passes_ofPasses]
    exact isolated_sound
  obtain ⟨g', hremove, -, horder, hdeps⟩ := build_remove hg hu
  refine ⟨by decide +kernel, g', hremove, ?_, ?_⟩
  · rw [horder]
    decide +kernel
  · rw [hdeps "Show" (by decide)]
    decide +kernel

end PassGraph

end RenderKit
