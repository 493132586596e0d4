import RenderKit.Proofs.Refusal

/-!
# Checks in order

A check has requirements in a fixed order. What meets all of them is accepted, and anything else is
refused for the first one that it does not meet (`Checks`). Each requirement that is settled is
taken off the front.
-/

namespace RenderKit

variable {α β ε : Type}

/-- Something that must hold, and the errors that tell when it does not. -/
structure Requirement (ε : Type) where
  met : Prop
  tells : ε → Prop

/-- An error tells of the first requirement that is not met. -/
inductive FirstUnmet : List (Requirement ε) → ε → Prop where
  | here {q : Requirement ε} {rest : List (Requirement ε)} {e : ε} :
      ¬ q.met → q.tells e → FirstUnmet (q :: rest) e
  | later {q : Requirement ε} {rest : List (Requirement ε)} {e : ε} :
      q.met → FirstUnmet rest e → FirstUnmet (q :: rest) e

/-- There is a result exactly if all requirements are met, and an error exactly if it tells of the
first one that is not. -/
structure Checks (x : Except ε α) (requirements : List (Requirement ε)) : Prop where
  accepts : (∃ a, x = .ok a) ↔ ∀ q ∈ requirements, q.met
  refuses : ∀ e, x = .error e ↔ FirstUnmet requirements e

theorem firstUnmet_cons_of_met {q : Requirement ε} {rest : List (Requirement ε)} {e : ε}
    (h : q.met) : FirstUnmet (q :: rest) e ↔ FirstUnmet rest e := by
  constructor
  · rintro (⟨hn, -⟩ | ⟨-, hr⟩)
    · exact absurd h hn
    · exact hr
  · exact .later h

theorem firstUnmet_cons_of_not_met {q : Requirement ε} {rest : List (Requirement ε)} {e : ε}
    (h : ¬ q.met) : FirstUnmet (q :: rest) e ↔ q.tells e := by
  constructor
  · rintro (⟨-, ht⟩ | ⟨hm, -⟩)
    · exact ht
    · exact absurd hm h
  · exact .here h

theorem firstUnmet_singleton {q : Requirement ε} {e : ε} :
    FirstUnmet [q] e ↔ ¬ q.met ∧ q.tells e := by
  constructor
  · rintro (⟨hn, ht⟩ | ⟨-, ⟨⟩⟩)
    exact ⟨hn, ht⟩
  · rintro ⟨hn, ht⟩
    exact .here hn ht

namespace Checks

variable {q : Requirement ε} {rest : List (Requirement ε)} {x : Except ε α}

/-- Nothing is left to check of a result. -/
theorem nil (a : α) : Checks (ε := ε) (.ok a) [] where
  accepts := ⟨fun _ _ hq ↦ absurd hq List.not_mem_nil, fun _ ↦ ⟨a, rfl⟩⟩
  refuses := fun _ ↦ ⟨nofun, nofun⟩

/-- The rest counts where a requirement is met. -/
theorem met (h : q.met) (hx : Checks x rest) : Checks x (q :: rest) where
  accepts := by rw [List.forall_mem_cons, hx.accepts, and_iff_right h]
  refuses := fun e ↦ by rw [firstUnmet_cons_of_met h, hx.refuses]

/-- A requirement that is not met is told of. -/
theorem unmet {e : ε} (h : ¬ q.met) (ht : ∀ cause, q.tells cause ↔ cause = e) :
    Checks (α := α) (.error e) (q :: rest) where
  accepts := ⟨nofun, fun hall ↦ absurd (hall q List.mem_cons_self) h⟩
  refuses := fun cause ↦ by
    rw [firstUnmet_cons_of_not_met h, ht, Except.error.injEq, eq_comm]

/-- What one check gives may be checked further. -/
theorem andThen {x : Except ε β} {f : β → Except ε α} (hx : Checks x [q])
    (hf : ∀ b, x = .ok b → Checks (f b) rest) : Checks (x >>= f) (q :: rest) := by
  cases x with
  | ok b => exact met (hx.accepts.mp ⟨b, rfl⟩ q (by simp)) (hf b rfl)
  | error e =>
    obtain ⟨hn, ht⟩ := firstUnmet_singleton.mp ((hx.refuses e).mp rfl)
    refine unmet hn fun cause ↦ ⟨fun hcause ↦ ?_, fun he ↦ he ▸ ht⟩
    exact (Except.error.inj ((hx.refuses cause).mpr (.here hn hcause))).symm

/-- A result may be made of what was checked. -/
theorem map {x : Except ε β} (h : Checks x rest) (f : β → α) :
    Checks (x >>= fun b ↦ pure (f b)) rest where
  accepts := by
    rw [← h.accepts]
    cases x <;> simp [bind, Except.bind, pure, Except.pure]
  refuses := fun e ↦ by
    rw [← h.refuses]
    cases x <;> simp [bind, Except.bind, pure, Except.pure]

/-- A refusal may be told in other words. -/
theorem mapError {ε' : Type} {f : ε → ε'} {q' : Requirement ε'} (h : Checks x [q])
    (hmet : q'.met ↔ q.met) (htells : ∀ e', q'.tells e' ↔ ∃ e, q.tells e ∧ f e = e') :
    Checks (x.mapError f) [q'] where
  accepts := by
    simp only [mapError_eq_ok_iff, h.accepts, List.forall_mem_singleton, hmet]
  refuses := fun e' ↦ by
    simp only [mapError_eq_error_iff, h.refuses, firstUnmet_singleton, hmet, htells,
      ← exists_and_left, and_assoc]

/-- The elements of a list are checked one after the other, up to the first that is refused. -/
theorem mapM {f : β → Except ε α} {P : β → Prop} {refusal : β → ε}
    (h : ∀ b, Checks (f b) [⟨P b, (· = refusal b)⟩]) (bs : List β) :
    Checks (bs.mapM f) [⟨∀ b ∈ bs, P b, fun e ↦ ∃ before b after, bs = before ++ b :: after ∧
      (∀ earlier ∈ before, P earlier) ∧ ¬ P b ∧ e = refusal b⟩] where
  accepts := by
    simp only [exists_mapM_eq_ok_iff, (h _).accepts, List.forall_mem_singleton]
  refuses := fun e ↦ by
    simp only [mapM_eq_error_iff, (h _).accepts, (h _).refuses, firstUnmet_singleton,
      List.forall_mem_singleton]
    constructor
    · rintro ⟨before, b, after, rfl, hbefore, hb⟩
      exact ⟨fun hall ↦ hb.1 (hall b (by simp)), before, b, after, rfl, hbefore, hb⟩
    · exact And.right

end Checks

end RenderKit
