import RenderKit.Proofs.Refusal

/-!
# Results that correspond

Two runs that do the same under different names give values that stand for each other, or are
refused for reasons that stand for each other. Steps that correspond make runs that correspond.
-/

namespace RenderKit

variable {α α' β β' γ γ' ε ε' ζ ζ' : Type}

/-- Two values, or two refusals, that stand for each other. -/
inductive Corresponds (E : ε → ε' → Prop) (R : α → α' → Prop) : Except ε α → Except ε' α' → Prop
  | ok {a : α} {a' : α'} : R a a' → Corresponds E R (.ok a) (.ok a')
  | error {e : ε} {e' : ε'} : E e e' → Corresponds E R (.error e) (.error e')

namespace Corresponds

variable {E : ε → ε' → Prop} {R : α → α' → Prop} {S : β → β' → Prop} {T : γ → γ' → Prop}

theorem exists_eq {x : Except ε α} {x' : Except ε' α'} (h : Corresponds E R x x') :
    (∃ a a', x = .ok a ∧ x' = .ok a' ∧ R a a') ∨
      ∃ e e', x = .error e ∧ x' = .error e' ∧ E e e' := by
  cases h with
  | ok h => exact .inl ⟨_, _, rfl, rfl, h⟩
  | error h => exact .inr ⟨_, _, rfl, rfl, h⟩

theorem bind {x : Except ε α} {x' : Except ε' α'} {f : α → Except ε β} {f' : α' → Except ε' β'}
    (h : Corresponds E R x x') (hf : ∀ a a', R a a' → Corresponds E S (f a) (f' a')) :
    Corresponds E S (x >>= f) (x' >>= f') := by
  cases h with
  | ok h => exact hf _ _ h
  | error h => exact .error h

theorem mapError {E' : ζ → ζ' → Prop} {x : Except ε α} {x' : Except ε' α'} {f : ε → ζ}
    {f' : ε' → ζ'} (h : Corresponds E R x x') (hf : ∀ e e', E e e' → E' (f e) (f' e')) :
    Corresponds E' R (x.mapError f) (x'.mapError f') := by
  cases h with
  | ok h => exact .ok h
  | error h => exact .error (hf _ _ h)

/-- Steps that correspond make runs that correspond. -/
theorem foldlM {f : α → γ → Except ε α} {f' : α' → γ' → Except ε' α'} {xs : List γ}
    {xs' : List γ'} (hx : List.Forall₂ T xs xs')
    (step : ∀ x x', T x x' → ∀ a a', R a a' → Corresponds E R (f a x) (f' a' x'))
    {a : α} {a' : α'} (h : R a a') : Corresponds E R (xs.foldlM f a) (xs'.foldlM f' a') := by
  induction hx generalizing a a' with
  | nil => exact .ok h
  | cons hx _ ih =>
    rw [List.foldlM_cons, List.foldlM_cons]
    exact (step _ _ hx a a' h).bind fun b b' hb ↦ ih hb

/-- Parts that correspond make lists that correspond. -/
theorem mapM {f : γ → Except ε α} {f' : γ' → Except ε' α'} {xs : List γ} {xs' : List γ'}
    (hx : List.Forall₂ T xs xs') (step : ∀ x x', T x x' → Corresponds E R (f x) (f' x')) :
    Corresponds E (List.Forall₂ R) (xs.mapM f) (xs'.mapM f') := by
  induction hx with
  | nil => exact .ok .nil
  | cons hx _ ih =>
    rw [List.mapM_cons, List.mapM_cons]
    refine (step _ _ hx).bind fun a a' ha ↦ ih.bind fun as as' has ↦ ?_
    exact .ok (.cons ha has)

end Corresponds

end RenderKit
