import Mathlib.Data.List.Induction
import Mathlib.Data.List.Nodup

/-!
# Indices of lists

A look-up that tells where each key of a list stands. A list that has one has no key twice. A list
of which repetitions were taken away holds each element where it occurred first.
-/

namespace RenderKit

variable {κ : Type}

/-- A look-up finds every key of a list at its position, and no other key. -/
def Indexes (keys : List κ) (find? : κ → Option Nat) : Prop :=
  ∀ key slot, find? key = some slot ↔ keys[slot]? = some key

namespace Indexes

variable {keys : List κ} {find? : κ → Option Nat}

theorem nil (h : ∀ key, find? key = none) : Indexes [] find? := by
  intro key slot
  simp [h]

theorem nodup (h : Indexes keys find?) : keys.Nodup := by
  rw [List.nodup_iff_getElem?_ne_getElem?]
  intro i j hij hj he
  have hi := (h keys[j] i).mpr (by rw [he, List.getElem?_eq_getElem hj])
  have hj := (h keys[j] j).mpr (List.getElem?_eq_getElem hj)
  rw [hi] at hj
  exact Nat.ne_of_lt hij (Option.some.inj hj)

theorem isSome_iff (h : Indexes keys find?) {key : κ} : (find? key).isSome ↔ key ∈ keys := by
  rw [Option.isSome_iff_exists, List.mem_iff_getElem?]
  exact exists_congr fun slot ↦ h key slot

/-- A new key behind the others is found at the end. -/
theorem concat [DecidableEq κ] (h : Indexes keys find?) {key : κ} (hk : key ∉ keys)
    {insert? : κ → Option Nat}
    (hi : ∀ other, insert? other = if other = key then some keys.length else find? other) :
    Indexes (keys ++ [key]) insert? := by
  intro other slot
  rw [hi, List.getElem?_append]
  split
  · next he =>
    subst he
    have hn : ∀ i, keys[i]? ≠ some other := fun i hs ↦ hk (List.mem_of_getElem? hs)
    by_cases hs : slot < keys.length
    · simp only [hs, if_true, hn, iff_false]
      intro heq
      exact Nat.ne_of_lt hs (Option.some.inj heq).symm
    · rw [if_neg hs]
      constructor
      · intro heq
        cases heq
        simp
      · intro heq
        have : slot - keys.length = 0 := by
          by_contra hz
          rw [List.getElem?_eq_none (by simp only [List.length_singleton]; omega)] at heq
          cases heq
        congr 1
        omega
  · next hne =>
    rw [h]
    by_cases hs : slot < keys.length
    · rw [if_pos hs]
    · rw [if_neg hs, List.getElem?_eq_none (Nat.le_of_not_lt hs)]
      constructor
      · intro heq
        cases heq
      · intro heq
        have := List.mem_of_getElem? heq
        exact absurd (List.mem_singleton.mp this) hne

end Indexes

/-- The elements of a list without repetitions, in the order in which each occurs first. -/
structure FirstOccurrences [BEq κ] (keys distinct : List κ) : Prop where
  mem_iff : ∀ key, key ∈ distinct ↔ key ∈ keys
  ordered : distinct.Pairwise (keys.idxOf · < keys.idxOf ·)

namespace FirstOccurrences

variable [BEq κ] {keys distinct : List κ}

theorem nodup (h : FirstOccurrences keys distinct) : distinct.Nodup := by
  refine List.Pairwise.imp (fun {a b} hlt ↦ ?_) h.ordered
  rintro rfl
  exact Nat.lt_irrefl _ hlt

/-- No other list holds the elements in this order. -/
theorem unique {other : List κ} (h : FirstOccurrences keys distinct)
    (h' : FirstOccurrences keys other) : distinct = other := by
  have hperm : distinct.Perm other :=
    (List.perm_ext_iff_of_nodup h.nodup h'.nodup).mpr fun key ↦
      (h.mem_iff key).trans (h'.mem_iff key).symm
  refine hperm.eq_of_pairwise (fun a b _ _ hab hba ↦ ?_) h.ordered h'.ordered
  exact absurd hab (Nat.lt_asymm hba)

theorem eraseDups [LawfulBEq κ] (keys : List κ) : FirstOccurrences keys keys.eraseDups where
  mem_iff := fun _ ↦ List.mem_eraseDups
  ordered := by
    induction keys using List.reverseRecOn with
    | nil => exact .nil
    | append_singleton keys last ih =>
      have hkept : keys.eraseDups.Pairwise
          ((keys ++ [last]).idxOf · < (keys ++ [last]).idxOf ·) := by
        refine ih.imp_of_mem fun {a b} ha hb hlt ↦ ?_
        rwa [List.idxOf_append_of_mem (List.mem_eraseDups.mp ha),
          List.idxOf_append_of_mem (List.mem_eraseDups.mp hb)]
      rw [List.eraseDups_append]
      by_cases hlast : last ∈ keys
      · simpa [List.removeAll, hlast] using hkept
      · -- a new element occurs behind all others
        have hnew : ([last].removeAll keys).eraseDups = [last] := by
          simp [List.removeAll, hlast, List.eraseDups_cons]
        rw [hnew, List.pairwise_append]
        refine ⟨hkept, List.pairwise_singleton _ _, fun a ha b hb ↦ ?_⟩
        obtain rfl := List.mem_singleton.mp hb
        have ha := List.mem_eraseDups.mp ha
        rw [List.idxOf_append_of_mem ha, List.idxOf_append_of_notMem hlast]
        exact Nat.lt_of_lt_of_le (List.idxOf_lt_length_of_mem ha) (Nat.le_add_right _ _)

end FirstOccurrences

end RenderKit
