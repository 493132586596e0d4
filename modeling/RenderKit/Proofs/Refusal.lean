import Mathlib.Data.List.Forall2

/-!
# Steps that may be refused

How a sequence of steps in `Except` succeeds and how it fails: the parts of a bind, and runs over
lists, where an invariant of the steps holds up to the end or up to the step that was refused.
-/

namespace RenderKit

variable {α β ε ε' : Type}

@[simp] theorem error_bind (e : ε) (f : α → Except ε β) : (Except.error e >>= f) = .error e :=
  rfl

theorem bind_eq_ok_iff {x : Except ε α} {f : α → Except ε β} {b : β} :
    (x >>= f) = .ok b ↔ ∃ a, x = .ok a ∧ f a = .ok b := by
  cases x with
  | error e => simp [bind, Except.bind]
  | ok a => simp [bind, Except.bind]

theorem bind_eq_error_iff {x : Except ε α} {f : α → Except ε β} {e : ε} :
    (x >>= f) = .error e ↔ x = .error e ∨ ∃ a, x = .ok a ∧ f a = .error e := by
  cases x with
  | error e => simp [bind, Except.bind]
  | ok a => simp [bind, Except.bind]

theorem map_eq_ok_iff {x : Except ε α} {f : α → β} {b : β} :
    x.map f = .ok b ↔ ∃ a, x = .ok a ∧ f a = b := by
  cases x <;> simp [Except.map]

theorem map_eq_error_iff {x : Except ε α} {f : α → β} {e : ε} :
    x.map f = .error e ↔ x = .error e := by
  cases x <;> simp [Except.map]

theorem mapError_eq_ok_iff {x : Except ε α} {f : ε → ε'} {a : α} :
    x.mapError f = .ok a ↔ x = .ok a := by
  cases x <;> simp [Except.mapError]

theorem mapError_eq_error_iff {x : Except ε α} {f : ε → ε'} {e : ε'} :
    x.mapError f = .error e ↔ ∃ cause, x = .error cause ∧ f cause = e := by
  cases x <;> simp [Except.mapError]

/-- What every step of a run keeps holds at its end. -/
theorem foldlM_invariant {f : β → α → Except ε β} {P : β → Prop} {xs : List α} {b b' : β}
    (h : xs.foldlM f b = .ok b') (start : P b)
    (step : ∀ x ∈ xs, ∀ b b', P b → f b x = .ok b' → P b') : P b' := by
  induction xs generalizing b with
  | nil => cases h; exact start
  | cons x xs ih =>
    rw [List.foldlM_cons, bind_eq_ok_iff] at h
    obtain ⟨c, hc, h⟩ := h
    exact ih h (step x (by simp) b c start hc)
      fun y hy ↦ step y (List.mem_cons_of_mem _ hy)

/-- A run that is refused goes on up to a step that refuses. -/
theorem exists_split_of_foldlM_error {f : β → α → Except ε β} {xs : List α} {b : β} {e : ε}
    (h : xs.foldlM f b = .error e) :
    ∃ before x after c, xs = before ++ x :: after ∧ before.foldlM f b = .ok c ∧
      f c x = .error e := by
  induction xs generalizing b with
  | nil => cases h
  | cons x xs ih =>
    rw [List.foldlM_cons, bind_eq_error_iff] at h
    rcases h with h | ⟨next, hnext, h⟩
    · exact ⟨[], x, xs, b, rfl, rfl, h⟩
    · obtain ⟨before, y, after, c, rfl, hc, hy⟩ := ih h
      refine ⟨x :: before, y, after, c, rfl, ?_, hy⟩
      rw [List.foldlM_cons, hnext]
      exact hc

/-- A run that comes to a step that refuses is refused. -/
theorem foldlM_eq_error {f : β → α → Except ε β} {before after : List α} {x : α} {b c : β} {e : ε}
    (h : before.foldlM f b = .ok c) (hx : f c x = .error e) :
    (before ++ x :: after).foldlM f b = .error e := by
  rw [List.foldlM_append]
  refine bind_eq_error_iff.mpr (.inr ⟨c, h, ?_⟩)
  exact bind_eq_error_iff.mpr (.inl hx)

/-- A run that is refused meets a step that refuses, in a state that the earlier steps kept. -/
theorem exists_of_foldlM_error {f : β → α → Except ε β} {P : β → Prop} {xs : List α} {b : β} {e : ε}
    (h : xs.foldlM f b = .error e) (start : P b)
    (step : ∀ x ∈ xs, ∀ b b', P b → f b x = .ok b' → P b') :
    ∃ x ∈ xs, ∃ b, P b ∧ f b x = .error e := by
  obtain ⟨before, x, after, c, rfl, hc, hx⟩ := exists_split_of_foldlM_error h
  exact ⟨x, by simp, c, foldlM_invariant hc start fun y hy ↦ step y (by simp [hy]), hx⟩

/-- Runs agree when their steps agree on the elements. -/
theorem foldlM_congr {f f' : β → α → Except ε β} {xs : List α} (b : β)
    (h : ∀ x ∈ xs, ∀ b, f b x = f' b x) : xs.foldlM f b = xs.foldlM f' b := by
  induction xs generalizing b with
  | nil => rfl
  | cons x xs ih =>
    rw [List.foldlM_cons, List.foldlM_cons, h x List.mem_cons_self]
    exact bind_congr fun b ↦ ih b fun y hy ↦ h y (List.mem_cons_of_mem _ hy)

/-- A run that succeeds ends alike with steps that do what its own steps did. -/
theorem foldlM_eq_ok_of_imp {f f' : β → α → Except ε β} {xs : List α} {b c : β}
    (h : xs.foldlM f b = .ok c) (hf : ∀ x ∈ xs, ∀ b c, f b x = .ok c → f' b x = .ok c) :
    xs.foldlM f' b = .ok c := by
  induction xs generalizing b with
  | nil => exact h
  | cons x xs ih =>
    rw [List.foldlM_cons, bind_eq_ok_iff] at h ⊢
    obtain ⟨next, hnext, h⟩ := h
    exact ⟨next, hf x List.mem_cons_self b next hnext,
      ih h fun y hy ↦ hf y (List.mem_cons_of_mem _ hy)⟩

/-- Steps that change nothing make a run that changes nothing. -/
theorem foldlM_eq_self {f : β → α → Except ε β} {xs : List α} {b : β}
    (h : ∀ x ∈ xs, f b x = .ok b) : xs.foldlM f b = .ok b := by
  induction xs with
  | nil => rfl
  | cons x xs ih =>
    rw [List.foldlM_cons, h x List.mem_cons_self]
    exact ih fun y hy ↦ h y (List.mem_cons_of_mem _ hy)

/-- What every element gives makes up what a list gives. -/
theorem mapM_eq_ok_iff {f : α → Except ε β} {xs : List α} {ys : List β} :
    xs.mapM f = .ok ys ↔ List.Forall₂ (fun x y ↦ f x = .ok y) xs ys := by
  induction xs generalizing ys with
  | nil => simp [List.forall₂_nil_left_iff, pure, Except.pure, eq_comm]
  | cons x xs ih =>
    rw [List.mapM_cons, bind_eq_ok_iff, List.forall₂_cons_left_iff]
    simp only [bind_eq_ok_iff, ih]
    constructor
    · rintro ⟨y, hy, ys', hys, h⟩
      cases h
      exact ⟨y, ys', hy, hys, rfl⟩
    · rintro ⟨y, ys', hy, hys, rfl⟩
      exact ⟨y, hy, ys', hys, rfl⟩

theorem exists_mapM_eq_ok_iff {f : α → Except ε β} {xs : List α} :
    (∃ ys, xs.mapM f = .ok ys) ↔ ∀ x ∈ xs, ∃ y, f x = .ok y := by
  induction xs with
  | nil => simp [pure, Except.pure]
  | cons x xs ih =>
    rw [List.forall_mem_cons, ← ih, List.mapM_cons]
    simp only [bind_eq_ok_iff, pure, Except.pure, Except.ok.injEq]
    constructor
    · rintro ⟨_, y, hy, ys, hys, -⟩
      exact ⟨⟨y, hy⟩, ys, hys⟩
    · rintro ⟨⟨y, hy⟩, ys, hys⟩
      exact ⟨y :: ys, y, hy, ys, hys, rfl⟩

/-- A list is refused where its first element is that is refused. -/
theorem mapM_eq_error_iff {f : α → Except ε β} {xs : List α} {e : ε} :
    xs.mapM f = .error e ↔
      ∃ before x after, xs = before ++ x :: after ∧ (∀ y ∈ before, ∃ b, f y = .ok b) ∧
        f x = .error e := by
  induction xs with
  | nil => simp [pure, Except.pure]
  | cons x xs ih =>
    simp only [List.mapM_cons, bind_eq_error_iff, ih, pure, Except.pure, reduceCtorEq, and_false,
      exists_false, or_false]
    constructor
    · rintro (hx | ⟨b, hb, before, y, after, rfl, hbefore, hy⟩)
      · exact ⟨[], x, xs, rfl, by simp, hx⟩
      · exact ⟨x :: before, y, after, rfl, List.forall_mem_cons.mpr ⟨⟨b, hb⟩, hbefore⟩, hy⟩
    · rintro ⟨before, y, after, hsplit, hbefore, hy⟩
      rcases List.cons_eq_append_iff.mp hsplit with ⟨rfl, hcons⟩ | ⟨before', rfl, rfl⟩
      · cases hcons
        exact .inl hy
      · obtain ⟨⟨b, hb⟩, hbefore⟩ := List.forall_mem_cons.mp hbefore
        exact .inr ⟨b, hb, before', y, after, rfl, hbefore, hy⟩

/-- A list gives nothing only when an element gives nothing. -/
theorem exists_of_mapM_error {f : α → Except ε β} {xs : List α} {e : ε}
    (h : xs.mapM f = .error e) : ∃ x ∈ xs, f x = .error e := by
  obtain ⟨before, x, after, rfl, -, hx⟩ := mapM_eq_error_iff.mp h
  exact ⟨x, by simp, hx⟩

theorem mapM_eq_some_iff {f : α → Option β} {xs : List α} {ys : List β} :
    xs.mapM f = some ys ↔ List.Forall₂ (fun x y ↦ f x = some y) xs ys := by
  induction xs generalizing ys with
  | nil => simp [List.forall₂_nil_left_iff, eq_comm]
  | cons x xs ih =>
    rw [List.mapM_cons, Option.bind_eq_bind, Option.bind_eq_some_iff, List.forall₂_cons_left_iff]
    simp only [Option.bind_eq_bind, Option.bind_eq_some_iff, ih]
    constructor
    · rintro ⟨y, hy, ys', hys, h⟩
      cases h
      exact ⟨y, ys', hy, hys, rfl⟩
    · rintro ⟨y, ys', hy, hys, rfl⟩
      exact ⟨y, hy, ys', hys, rfl⟩

/-- Two lists that give the same values, element by element. -/
theorem exists_mapM_eq_some {γ : Type} {f : α → Option γ} {r : β → Option γ} {xs : List α}
    {ys : List β} (h : List.Forall₂ (fun x y ↦ ∃ v, f x = some v ∧ r y = some v) xs ys) :
    ∃ vs, xs.mapM f = some vs ∧ List.Forall₂ (fun y v ↦ r y = some v) ys vs := by
  induction h with
  | nil => exact ⟨[], rfl, .nil⟩
  | cons hx _ ih =>
    obtain ⟨v, hv, hr⟩ := hx
    obtain ⟨vs, hvs, hrs⟩ := ih
    exact ⟨v :: vs, by rw [List.mapM_cons, hv, hvs]; rfl, .cons hr hrs⟩

end RenderKit
