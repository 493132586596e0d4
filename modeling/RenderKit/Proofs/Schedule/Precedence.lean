import RenderKit.Proofs.Schedule.Inference
import RenderKit.Proofs.Schedule.Order

/-!
# What must come first

A pass comes before another when it is declared earlier and the two conflict, or when the other
names it (`Before`). The table of dependencies holds fewer links, but its chains recover every such
pair (`reaches_of_before`), and apart from feedback it holds nothing else; so it has a cycle exactly
when `Before` has one or two passes feed each other (`acyclic_iff`), and what orders the table is
a linear extension of `Before` (`legal_of_order`).
-/

namespace RenderKit

variable {σ : Type}

/-- Two passes share a resource that at least one of them writes. -/
def Pass.Conflict (p q : Pass σ) : Prop :=
  ∃ resource, (resource ∈ p.writes.names ∧
      (resource ∈ q.reads.names ∨ resource ∈ q.writes.names)) ∨
    (resource ∈ p.reads.names ∧ resource ∈ q.writes.names)

theorem Pass.Conflict.symm {p q : Pass σ} (h : p.Conflict q) : q.Conflict p := by
  obtain ⟨resource, ⟨hw, hr | hw'⟩ | ⟨hr, hw⟩⟩ := h
  · exact ⟨resource, .inr ⟨hr, hw⟩⟩
  · exact ⟨resource, .inl ⟨hw', .inr hw⟩⟩
  · exact ⟨resource, .inl ⟨hw, .inl hr⟩⟩

namespace Schedule

open Relation

variable {passes : List (Pass σ)}

/-- A pass is declared earlier than another that it conflicts with, or the other names it. -/
def Before (passes : List (Pass σ)) (slot other : Nat) : Prop :=
  (slot < other ∧
    ∃ p q, passes[slot]? = some p ∧ passes[other]? = some q ∧ p.Conflict q) ∨
    Names passes other slot

/-- A pass depends on another by what it reads and writes. -/
def Uses (passes : List (Pass σ)) (slot other : Nat) : Prop :=
  Consumes passes slot other ∨ Awaits passes slot other

theorem before_of_uses {slot other : Nat} (h : Uses passes slot other) :
    Before passes other slot := by
  rcases h with ⟨resource, ⟨p, hp, hr⟩, hlt, ⟨q, hq, hw⟩, -⟩ |
    ⟨resource, ⟨p, hp, hw⟩, ⟨hlt, ⟨q, hq, hw'⟩, -⟩ | ⟨hlt, q, hq, hr⟩⟩
  · exact .inl ⟨hlt, q, p, hq, hp, resource, .inl ⟨hw, .inl hr⟩⟩
  · exact .inl ⟨hlt, q, p, hq, hp, resource, .inl ⟨hw', .inr hw⟩⟩
  · exact .inl ⟨hlt, q, p, hq, hp, resource, .inr ⟨hr, hw⟩⟩

/-- Writers of a resource depend on all earlier ones, from one latest writer to the next. -/
private theorem reaches_writer {resource : String} {slot other : Nat}
    (hs : Writes passes slot resource) (ho : Writes passes other resource) (h : other ≤ slot) :
    ReflTransGen (Uses passes) slot other := by
  -- Only the latest writer is a link, so the chain goes down from writer to writer.
  induction slot using Nat.strongRecOn with
  | ind slot ih =>
    rcases Nat.eq_or_lt_of_le h with rfl | hlt
    · exact .refl
    · obtain ⟨writer, hle, hw⟩ := exists_latestWriter hlt ho
      exact .head (.inr ⟨resource, hs, .inl hw⟩) (ih writer hw.1 hw.2.1 hle)

/-- Of two conflicting passes the later one depends on the earlier one. -/
theorem reaches_of_conflict {slot other : Nat} {p q : Pass σ} (hlt : slot < other)
    (hp : passes[slot]? = some p) (hq : passes[other]? = some q) (hc : p.Conflict q) :
    TransGen (Uses passes) other slot := by
  obtain ⟨resource, ⟨hw, hr | hw'⟩ | ⟨hr, hw⟩⟩ := hc
  · obtain ⟨writer, hle, hl⟩ := exists_latestWriter hlt ⟨p, hp, hw⟩
    exact .head' (.inl ⟨resource, ⟨q, hq, hr⟩, hl⟩) (reaches_writer hl.2.1 ⟨p, hp, hw⟩ hle)
  · obtain ⟨writer, hle, hl⟩ := exists_latestWriter hlt ⟨p, hp, hw⟩
    exact .head' (.inr ⟨resource, ⟨q, hq, hw'⟩, .inl hl⟩)
      (reaches_writer hl.2.1 ⟨p, hp, hw⟩ hle)
  · exact .single (.inr ⟨resource, ⟨q, hq, hw⟩, .inr ⟨hlt, p, hp, hr⟩⟩)

variable {index : Table Nat} {table : List (List Nat)}

section

variable (hi : Indexes (passes.map (·.name)) index.get?)
  (h : dependencies passes index = .ok table)

include hi h

private theorem link_of_uses {slot other : Nat} (hu : Uses passes slot other) :
    Link table slot other := by
  rw [link_iff hi h]
  rcases hu with hu | hu
  · exact .inl hu
  · exact .inr (.inl hu)

/-- What comes before a pass is found along its dependencies. -/
theorem reaches_of_before {slot other : Nat} (hb : Before passes slot other) :
    TransGen (Link table) other slot := by
  rcases hb with ⟨hlt, p, q, hp, hq, hc⟩ | hn
  · exact TransGen.mono (fun _ _ ↦ link_of_uses hi h) _ _ (reaches_of_conflict hlt hp hq hc)
  · exact .single ((link_iff hi h).mpr (.inr (.inr (.inl hn))))

private theorem reaches_of_chain {slot other : Nat} (hb : TransGen (Before passes) slot other) :
    TransGen (Link table) other slot := by
  induction hb with
  | single hs => exact reaches_of_before hi h hs
  | tail _ hs ih => exact (reaches_of_before hi h hs).trans ih

private theorem before_of_link {slot other : Nat} (hl : Link table slot other) :
    Before passes other slot ∨ FeedbackPair passes slot other := by
  rcases (link_iff hi h).mp hl with hl | hl | hl | hl
  · exact .inl (before_of_uses (.inl hl))
  · exact .inl (before_of_uses (.inr hl))
  · exact .inl (.inr hl)
  · exact .inr hl

/-- Dependencies stay among the passes. -/
theorem inRange_of_dependencies : InRange table := by
  intro slot next hl
  rw [length_of_dependencies h]
  have hm : ∃ p, passes[next]? = some p := by
    rcases before_of_link hi h hl with (⟨-, p, -, hp, -⟩ | ⟨-, p, -, hp, -⟩) |
      ⟨-, ⟨-, -, ⟨p, hp, -⟩, -⟩, -⟩ <;> exact ⟨p, hp⟩
  obtain ⟨p, hp⟩ := hm
  exact (List.getElem?_eq_some_iff.mp hp).1

/-- Two passes that feed each other wait for each other. -/
theorem cycle_of_feedbackPair {reader writer : Nat} (hf : FeedbackPair passes reader writer) :
    TransGen (Link table) reader reader := by
  have hc : TransGen (Link table) writer reader :=
    TransGen.mono (fun _ _ hu ↦ link_of_uses hi h (.inl hu)) _ _ hf.2.2
  exact .head ((link_iff hi h).mpr (.inr (.inr (.inr hf)))) hc

/-- Where no two passes feed each other, chains of dependencies are chains of passes that come
before, read the other way. -/
theorem reaches_iff (hf : ∀ reader writer, ¬ FeedbackPair passes reader writer)
    {slot other : Nat} :
    TransGen (Link table) other slot ↔ TransGen (Before passes) slot other := by
  refine ⟨fun hc ↦ transGen_swap.mp (TransGen.mono (fun reader writer hl ↦ ?_) _ _ hc),
    reaches_of_chain hi h⟩
  exact (before_of_link hi h hl).resolve_right (hf reader writer)

/-- The dependencies have no cycle exactly when no two passes feed each other and no pass comes
before itself. -/
theorem acyclic_iff :
    (∀ slot, ¬ TransGen (Link table) slot slot) ↔
      (∀ reader writer, ¬ FeedbackPair passes reader writer) ∧
        ∀ slot, ¬ TransGen (Before passes) slot slot := by
  constructor
  · intro ha
    exact ⟨fun reader writer hf ↦ ha reader (cycle_of_feedbackPair hi h hf),
      fun slot hb ↦ ha slot (reaches_of_chain hi h hb)⟩
  · rintro ⟨hf, hb⟩ slot hc
    exact hb slot ((reaches_iff hi h hf).mp hc)

end

/-- Slots in an order that lists every pass once and keeps what comes before. -/
structure Legal (passes : List (Pass σ)) (order : List Nat) : Prop where
  perm : order.Perm (List.range passes.length)
  pairwise : order.Pairwise fun slot later ↦ ¬ Before passes later slot

/-- Every order of the dependencies is legal. -/
theorem legal_of_order (hi : Indexes (passes.map (·.name)) index.get?)
    (h : dependencies passes index = .ok table) {slots : List Nat}
    (ho : order table = .ok slots) : Legal passes slots := by
  refine ⟨?_, (topological_of_order ho).pairwise.imp fun hn hb ↦ hn (reaches_of_before hi h hb)⟩
  rw [← length_of_dependencies h]
  exact perm_of_order (inRange_of_dependencies hi h) ho

/-- Of two passes that must not change places, the former stands before the other. -/
theorem Legal.sublist {slots : List Nat} (h : Legal passes slots) {slot later : Nat}
    (hne : slot ≠ later) (hs : slot < passes.length) (hl : later < passes.length)
    (hb : Before passes slot later) : [slot, later].Sublist slots := by
  have hmem : ∀ {s}, s < passes.length → s ∈ slots := fun hlt ↦
    h.perm.mem_iff.mpr (List.mem_range.mpr hlt)
  obtain ⟨front, back, rfl⟩ := List.append_of_mem (hmem hs)
  rcases List.mem_append.mp (hmem hl) with hm | hm
  · have hn := (List.pairwise_append.mp h.pairwise).2.2 later hm slot (by simp)
    exact absurd hb hn
  · have hm := (List.mem_cons.mp hm).resolve_left hne.symm
    exact ((List.singleton_sublist.mpr hm).cons_cons slot).trans (List.sublist_append_right _ _)

end Schedule

end RenderKit
