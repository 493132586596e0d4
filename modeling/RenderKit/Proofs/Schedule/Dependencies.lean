import RenderKit.Proofs.Schedule.Schedulability
import RenderKit.Proofs.Schedule.Waves

/-!
# What a schedule reports

The reported dependencies are fewer than the pairs of passes that must keep their order: only the
latest earlier writer of a resource is among them. Along chains they say the same
(`dependencies_exact`), since every conflict is recovered from writer to writer and a graph that is
built has no feedback.
-/

namespace RenderKit.PassGraph

open Relation Schedule

variable {σ : Type} {g built : PassGraph σ}

/-- What a build that succeeds makes of a graph: the same passes, and the plan for them. -/
theorem exists_planned_of_build (hg : g.Reachable) (hb : g.build = (.ok (), built)) :
    ∃ plan, g.planned = .ok plan ∧ Planned built plan ∧ built.passes = g.passes ∧
      built.index = g.index := by
  have hbuilt : built.Reachable := by
    rw [← show g.build.2 = built from congrArg Prod.snd hb]
    exact hg.build
  obtain ⟨plan, hplan, rfl⟩ := build_eq_ok_iff.mp hb
  exact ⟨plan, hplan, .of_reachable hbuilt (g.stores_withPlan plan), rfl, rfl⟩

/-- A built graph reports exact dependencies. Chains of them lead from a pass to another just where
a chain of passes leads there from the other, each of which is declared before the next and in
conflict with it, or is named by the next. A pass is told each of its dependencies once, and never
itself. -/
theorem dependencies_exact (hg : g.Reachable) (hb : g.build = (.ok (), built)) :
    (∀ slot later p q, g.passes[slot]? = some p → g.passes[later]? = some q →
      (TransGen built.DependsOn q.name p.name ↔ TransGen (Before g.passes) slot later)) ∧
      ∀ p ∈ g.passes, ∃ names, built.dependencies? p.name = some names ∧ names.Nodup ∧
        p.name ∉ names := by
  obtain ⟨plan, hplan, h, hpasses, -⟩ := exists_planned_of_build hg hb
  have hunfed := (schedulable_of_planned hg.indexed hplan).unfed
  rw [← hpasses] at hunfed ⊢
  refine ⟨fun slot later p q hp hq ↦ ?_, fun p hp ↦ ?_⟩
  · have hslot : slot ∈ plan.order := h.mem_order.mpr (List.getElem?_eq_some_iff.mp hp).1
    have hlater : later ∈ plan.order := h.mem_order.mpr (List.getElem?_eq_some_iff.mp hq).1
    have hnames := h.reaches_nameAt_iff hlater hslot
    rw [nameAt, nameAt, hp, hq] at hnames
    exact hnames.trans (reaches_iff h.reachable.indexed h.table hunfed)
  · obtain ⟨names, hnames, hnodup⟩ := h.exists_dependencies? hp
    refine ⟨names, hnames, hnodup, fun hself ↦ ?_⟩
    exact (h.waveOf_lt ⟨names, hnames, hself⟩).false

/-- Two passes that paint one over the other, one that shows the result, and one that it follows by
name. -/
def painted : List (Pass Unit) :=
  [{ name := "Clear", writes := .ofList ["Color"] },
    { name := "Draw", reads := .ofList ["Depth"], writes := .ofList ["Color"] },
    { name := "Show", reads := .ofList ["Color"], after := ["Log"] },
    { name := "Log" }]

private theorem not_before_log (slot : Nat) : ¬ Before painted slot 3 := by
  rintro (⟨-, p, q, -, hq, resource, hc⟩ | ⟨p, q, hp, -, hn⟩)
  · cases hq
    rcases hc with ⟨-, hr | hw⟩ | ⟨-, hw⟩
    · cases hr
    · cases hw
    · cases hw
  · cases hp
    cases hn

theorem dependencies_exact_painted :
    (ofPasses "Painted" painted).build.2.dependencies? "Show" = some ["Draw", "Log"] ∧
      TransGen (ofPasses "Painted" painted).build.2.DependsOn "Show" "Clear" ∧
        ¬ TransGen (ofPasses "Painted" painted).build.2.DependsOn "Log" "Clear" := by
  have hg : (ofPasses "Painted" painted).Reachable := (reachable_ofPasses _ (by decide)).1
  have hb : (ofPasses "Painted" painted).build = (.ok (), (ofPasses "Painted" painted).build.2) :=
    Prod.ext (by decide +kernel) rfl
  obtain ⟨hexact, -⟩ := dependencies_exact hg hb
  rw [passes_ofPasses] at hexact
  have hshow : Before painted 0 2 :=
    .inl ⟨by decide, painted[0], painted[2], rfl, rfl, "Color",
      .inl ⟨by decide, .inl (by decide)⟩⟩
  refine ⟨by decide +kernel, (hexact 0 2 painted[0] painted[2] rfl rfl).mpr (.single hshow),
    fun hlog ↦ ?_⟩
  obtain ⟨slot, -, hlast⟩ :=
    TransGen.tail'_iff.mp ((hexact 0 3 painted[0] painted[3] rfl rfl).mp hlog)
  exact not_before_log slot hlast

end RenderKit.PassGraph
