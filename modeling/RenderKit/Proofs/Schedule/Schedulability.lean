import RenderKit.Proofs.Schedule.Precedence
import RenderKit.Proofs.Schedule.Reachable

/-!
# Which passes have a schedule

A build decides whether passes can be ordered: it succeeds exactly when they are `Schedulable`, with
an order that lists every pass once and keeps what comes before, and refuses other passes for a
reason that holds of them (`build_decides`).
-/

namespace RenderKit

variable {σ : Type}

namespace Schedule

open Relation

/-- The names that passes give to follow and that no pass has, in the order of declaration. -/
def missingNames (passes : List (Pass σ)) : List String :=
  (passes.flatMap (·.after)).filter fun name ↦ name ∉ passes.map (·.name)

/-- Passes follow only passes, none feeds an earlier one back, and none comes before itself. -/
structure Schedulable (passes : List (Pass σ)) : Prop where
  known : ∀ p ∈ passes, ∀ name ∈ p.after, ∃ q ∈ passes, q.name = name
  unfed : ∀ reader writer, ¬ FeedbackPair passes reader writer
  acyclic : ∀ slot, ¬ TransGen (Before passes) slot slot

/-- Names that list every pass once, each behind what comes before it. -/
structure LinearExtension (passes : List (Pass σ)) (names : List String) : Prop where
  perm : names.Perm (passes.map (·.name))
  nodup : names.Nodup
  keeps : ∀ slot later p q, passes[slot]? = some p → passes[later]? = some q →
    Before passes slot later → [p.name, q.name].Sublist names

/-- Why passes are refused: the first name that no pass has or, when there is none, a pass on a
cycle of the inferred dependencies. -/
def Refused (passes : List (Pass σ)) (index : Table Nat) (e : ScheduleError) : Prop :=
  match (missingNames passes).head? with
  | some name => e = .passNotFound name
  | none => ∃ slot p table, passes[slot]? = some p ∧ e = .cycle p.name ∧
      dependencies passes index = .ok table ∧ TransGen (Link table) slot slot

theorem missingNames_eq_nil_iff {passes : List (Pass σ)} :
    missingNames passes = [] ↔ ∀ p ∈ passes, ∀ name ∈ p.after, ∃ q ∈ passes, q.name = name := by
  simp only [missingNames, List.filter_eq_nil_iff, List.mem_flatMap, decide_not,
    Bool.not_eq_true', decide_eq_false_iff_not, not_not, List.mem_map]
  constructor
  · intro h p hp name hn
    exact h name ⟨p, hp, hn⟩
  · rintro h name ⟨p, hp, hn⟩
    exact h p hp name hn

variable {passes : List (Pass σ)} {index : Table Nat}

/-- A refusal is about a missing name exactly when there is one. -/
theorem kind_of_refused {e : ScheduleError} (h : Refused passes index e) :
    (missingNames passes ≠ [] ∧ ∃ name, e = .passNotFound name) ∨
      (missingNames passes = [] ∧ ∃ name, e = .cycle name) := by
  rw [Refused] at h
  cases hm : (missingNames passes).head? with
  | some name =>
    rw [hm] at h
    exact .inl ⟨fun hnil ↦ by simp [hnil] at hm, name, h⟩
  | none =>
    rw [hm] at h
    obtain ⟨slot, p, table, -, rfl, -⟩ := h
    exact .inr ⟨List.head?_eq_none_iff.mp hm, p.name, rfl⟩

private theorem firstMissing?_eq (hi : Indexes (passes.map (·.name)) index.get?) :
    firstMissing? passes index = (missingNames passes).head? := by
  rw [firstMissing?, missingNames, List.head?_filter]
  congr 1
  funext name
  rw [Table.contains, Bool.eq_iff_iff, decide_eq_true_iff, Bool.not_eq_true', ← hi.isSome_iff,
    Bool.not_eq_true]

end Schedule

namespace PassGraph

open Schedule Relation

/-- A table of dependencies is missing for the first name that no pass has. -/
private theorem planned_of_missing {g : PassGraph σ} (hi : g.Indexed) {name : String}
    (h : (missingNames g.passes).head? = some name) : g.planned = .error (.passNotFound name) := by
  rw [planned, dependencies_eq, firstMissing?_eq hi, h]
  rfl

/-- There is a table of dependencies when every name is known. -/
theorem exists_dependencies {g : PassGraph σ} (hi : g.Indexed)
    (h : missingNames g.passes = []) :
    ∃ table, Schedule.dependencies g.passes g.index = .ok table := by
  rw [dependencies_eq, firstMissing?_eq hi, h]
  exact ⟨_, rfl⟩

/-- A plan is found exactly for passes that can be ordered. -/
theorem schedulable_of_planned {g : PassGraph σ} (hi : g.Indexed) {plan : Plan}
    (h : g.planned = .ok plan) : Schedulable g.passes := by
  obtain ⟨ht, ho⟩ := planned_eq_ok_iff.mp h
  have hn := not_reaches_self_of_order (inRange_of_dependencies hi ht) ho
  obtain ⟨hf, hb⟩ := (acyclic_iff hi ht).mp hn
  refine ⟨missingNames_eq_nil_iff.mp ?_, hf, hb⟩
  cases hm : (missingNames g.passes).head? with
  | none => exact List.head?_eq_none_iff.mp hm
  | some name =>
    rw [planned_of_missing hi hm] at h
    cases h

theorem refused_of_planned {g : PassGraph σ} (hi : g.Indexed) {e : ScheduleError}
    (h : g.planned = .error e) : Refused g.passes g.index e ∧ ¬ Schedulable g.passes := by
  rw [Refused]
  cases hm : (missingNames g.passes).head? with
  | some name =>
    rw [planned_of_missing hi hm] at h
    cases h
    refine ⟨rfl, fun hs ↦ ?_⟩
    rw [missingNames_eq_nil_iff.mpr hs.known] at hm
    cases hm
  | none =>
    obtain ⟨table, ht⟩ := exists_dependencies hi (List.head?_eq_none_iff.mp hm)
    have hr := inRange_of_dependencies hi ht
    rcases planned_eq_error_iff.mp h with h | ⟨table', slot, ht', ho, rfl⟩
    · rw [ht] at h
      cases h
    · rw [ht] at ht'
      cases ht'
      have hc := cycle_of_order_error ho
      obtain ⟨next, -, hl⟩ := TransGen.tail'_iff.mp hc
      have hlt : slot < g.passes.length := length_of_dependencies ht ▸ hr _ _ hl
      have hp := List.getElem?_eq_getElem hlt
      refine ⟨⟨slot, _, table, hp, ?_, ht, hc⟩, fun hs ↦ ?_⟩
      · rw [nameAt, hp]
        rfl
      · exact (acyclic_iff hi ht).mpr ⟨hs.unfed, hs.acyclic⟩ slot hc

/-- Of which kind a failure is: a missing name comes before a cycle. -/
theorem kind_of_build {g : PassGraph σ} (hi : g.Indexed) :
    ((∃ name, g.build.1 = .error (.passNotFound name)) ↔ missingNames g.passes ≠ []) ∧
      ((∃ name, g.build.1 = .error (.cycle name)) ↔
        missingNames g.passes = [] ∧ ¬ Schedulable g.passes) := by
  cases h : g.planned with
  | ok plan =>
    have hs := schedulable_of_planned hi h
    rw [build_eq_ok_iff.mpr ⟨plan, h, rfl⟩]
    simp [missingNames_eq_nil_iff.mpr hs.known, hs]
  | error e =>
    obtain ⟨hr, hs⟩ := refused_of_planned hi h
    rw [build_eq_error_iff.mpr ⟨h, rfl⟩]
    rcases kind_of_refused hr with ⟨hm, name, rfl⟩ | ⟨hm, name, rfl⟩
    · simp [hm]
    · simp [hm, hs]

/-- A plan lists the names of all passes, each behind what comes before it. -/
private theorem linearExtension_of_planned {g : PassGraph σ} (hi : g.Indexed) {plan : Plan}
    (h : g.planned = .ok plan) : LinearExtension g.passes (plan.order.map g.nameAt) := by
  obtain ⟨ht, ho⟩ := planned_eq_ok_iff.mp h
  have hl := legal_of_order hi ht ho
  have hs := schedulable_of_planned hi h
  have hperm : (plan.order.map g.nameAt).Perm (g.passes.map (·.name)) := by
    rw [← map_nameAt_range]
    exact hl.perm.map g.nameAt
  refine ⟨hperm, hperm.nodup_iff.mpr hi.nodup, fun slot later p q hp hq hb ↦ ?_⟩
  have hne : slot ≠ later := by
    rintro rfl
    exact hs.acyclic slot (.single hb)
  have hlt := fun {slot p} (hp : g.passes[slot]? = some p) ↦ (List.getElem?_eq_some_iff.mp hp).1
  have hname := (hl.sublist hne (hlt hp) (hlt hq) hb).map g.nameAt
  rwa [List.map_cons, List.map_cons, List.map_nil, nameAt, hp, nameAt, hq] at hname

/-- A build decides whether passes have a schedule. It succeeds exactly when they are schedulable,
and then orders them by what comes before; otherwise it gives a reason, and shows no schedule. -/
theorem build_decides {g : PassGraph σ} (hg : g.Reachable) :
    (g.build.1 = .ok () ↔ Schedulable g.passes) ∧
      (Schedulable g.passes → LinearExtension g.passes g.build.2.orderedNames) ∧
        ∀ e, g.build.1 = .error e → Refused g.passes g.index e ∧ g.build.2.orderedNames = [] ∧
          g.build.2.levels = [] ∧ ∀ name, g.build.2.dependencies? name = none := by
  cases h : g.planned with
  | ok plan =>
    have hs := schedulable_of_planned hg.indexed h
    rw [build_eq_ok_iff.mpr ⟨plan, h, rfl⟩]
    refine ⟨by simp [hs], fun _ ↦ linearExtension_of_planned hg.indexed h, fun e he ↦ ?_⟩
    cases he
  | error e =>
    obtain ⟨hr, hs⟩ := refused_of_planned hg.indexed h
    rw [build_eq_error_iff.mpr ⟨h, rfl⟩]
    refine ⟨by simp [hs], fun hs' ↦ absurd hs' hs, fun e' he ↦ ?_⟩
    cases he
    exact ⟨hr, rfl, rfl, g.dependencies?_unplanned⟩

/-- Two passes that read what the other writes, and a third that neither concerns. -/
def interlocked : List (Pass Unit) :=
  [{ name := "Idle" },
    { name := "Blur", reads := .ofList ["Mask"], writes := .ofList ["Color"] },
    { name := "Cut", reads := .ofList ["Color"], writes := .ofList ["Mask"] }]

theorem build_decides_interlocked :
    (ofPasses "Interlocked" interlocked).build.1 = .error (.cycle "Blur") ∧
      ¬ Schedulable interlocked ∧
        (ofPasses "Interlocked" interlocked).build.2.levels = [] := by
  have hg : (ofPasses "Interlocked" interlocked).Reachable := (reachable_ofPasses _ (by decide)).1
  have hb : (ofPasses "Interlocked" interlocked).build.1 = .error (.cycle "Blur") := by
    decide +kernel
  obtain ⟨hd, -, hr⟩ := build_decides hg
  rw [passes_ofPasses, hb] at hd
  refine ⟨hb, fun hs ↦ ?_, (hr _ hb).2.2.1⟩
  cases hd.mpr hs

end PassGraph

end RenderKit
