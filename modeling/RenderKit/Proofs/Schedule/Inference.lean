import RenderKit.Proofs.Indexing
import RenderKit.Proofs.Refusal
import RenderKit.Proofs.Schedule.Search
import RenderKit.Schedule.Inference

/-!
# What passes follow

The inferred table of dependencies, told by relations between slots instead of by lists: a pass
consumes the output of the latest earlier writer (`Consumes`), waits before it writes (`Awaits`),
names passes (`Names`), and feeds back with later writers (`FeedbackPair`). Main statements:
`dependencies_eq` tells when there is a table, `link_iff` what stands in it.
-/

namespace RenderKit.Schedule

open Relation

variable {σ : Type} {passes : List (Pass σ)}

/-- The pass in a slot reads a resource. -/
def Reads (passes : List (Pass σ)) (slot : Nat) (resource : String) : Prop :=
  ∃ p, passes[slot]? = some p ∧ resource ∈ p.reads.names

/-- The pass in a slot writes a resource. -/
def Writes (passes : List (Pass σ)) (slot : Nat) (resource : String) : Prop :=
  ∃ p, passes[slot]? = some p ∧ resource ∈ p.writes.names

/-- A slot is the latest before another that writes a resource. -/
def LatestWriter (passes : List (Pass σ)) (slot : Nat) (resource : String) (writer : Nat) : Prop :=
  writer < slot ∧ Writes passes writer resource ∧
    ∀ other < slot, Writes passes other resource → other ≤ writer

/-- A pass reads a resource whose latest earlier writer is another pass. -/
def Consumes (passes : List (Pass σ)) (slot writer : Nat) : Prop :=
  ∃ resource, Reads passes slot resource ∧ LatestWriter passes slot resource writer

/-- A pass writes a resource whose latest earlier writer another pass is, or that it reads
earlier. -/
def Awaits (passes : List (Pass σ)) (slot other : Nat) : Prop :=
  ∃ resource, Writes passes slot resource ∧
    (LatestWriter passes slot resource other ∨ other < slot ∧ Reads passes other resource)

/-- A pass names another among those that it follows. -/
def Names (passes : List (Pass σ)) (slot other : Nat) : Prop :=
  ∃ p q, passes[slot]? = some p ∧ passes[other]? = some q ∧ q.name ∈ p.after

/-- A later pass writes what an earlier one reads and nobody before that one writes, and consumes
the output of the earlier one through a chain of passes. -/
def FeedbackPair (passes : List (Pass σ)) (reader writer : Nat) : Prop :=
  reader < writer ∧
    (∃ resource, Reads passes reader resource ∧ Writes passes writer resource ∧
      ∀ other < reader, ¬ Writes passes other resource) ∧
    TransGen (Consumes passes) writer reader

/-! ### Writers and readers -/

theorem mem_slotsWhere {p : Pass σ → Bool} {slot : Nat} :
    slot ∈ slotsWhere passes p ↔ ∃ pass, passes[slot]? = some pass ∧ p pass = true := by
  simp only [slotsWhere, List.mem_map, List.mem_filter, List.mem_zipIdx_iff_getElem?]
  constructor
  · rintro ⟨⟨pass, slot⟩, ⟨hs, hp⟩, rfl⟩
    exact ⟨pass, hs, hp⟩
  · rintro ⟨pass, hs, hp⟩
    exact ⟨(pass, slot), ⟨hs, hp⟩, rfl⟩

theorem pairwise_slotsWhere (p : Pass σ → Bool) :
    (slotsWhere passes p).Pairwise (· < ·) := by
  have hs : (slotsWhere passes p).Sublist (passes.zipIdx.map (·.2)) :=
    List.filter_sublist.map _
  refine List.Pairwise.sublist hs ?_
  rw [List.zipIdx_map_snd]
  exact List.pairwise_lt_range'

private theorem pairwise_writers (resource : String) :
    (writers passes resource).Pairwise (· < ·) :=
  pairwise_slotsWhere _

private theorem mem_writers {slot : Nat} {resource : String} :
    slot ∈ writers passes resource ↔ Writes passes slot resource := by
  simp only [writers, mem_slotsWhere, Table.contains_iff, Writes]

theorem getElem?_take_eq_some {slot other : Nat} {p : Pass σ} :
    (passes.take slot)[other]? = some p ↔ other < slot ∧ passes[other]? = some p := by
  rw [List.getElem?_take]
  split
  · next h => simp [h]
  · next h => simp [h]

private theorem mem_readers_take {slot other : Nat} {resource : String} :
    other ∈ readers (passes.take slot) resource ↔ other < slot ∧ Reads passes other resource := by
  simp only [readers, mem_slotsWhere, Table.contains_iff, Reads, getElem?_take_eq_some]
  tauto

private theorem writes_take {slot other : Nat} {resource : String} :
    Writes (passes.take slot) other resource ↔ other < slot ∧ Writes passes other resource := by
  simp only [Writes, getElem?_take_eq_some]
  tauto

/-- The last of ascending numbers is the greatest. -/
private theorem getLast?_eq_some_of_pairwise {xs : List Nat} (h : xs.Pairwise (· < ·)) {x : Nat} :
    xs.getLast? = some x ↔ x ∈ xs ∧ ∀ y ∈ xs, y ≤ x := by
  rw [List.getLast?_eq_some_iff]
  constructor
  · rintro ⟨front, rfl⟩
    refine ⟨by simp, fun y hy ↦ ?_⟩
    rcases List.mem_append.mp hy with hy | hy
    · exact Nat.le_of_lt ((List.pairwise_append.mp h).2.2 y hy x (by simp))
    · exact Nat.le_of_eq (List.mem_singleton.mp hy)
  · rintro ⟨hx, hmax⟩
    rcases List.eq_nil_or_concat xs with rfl | ⟨front, last, rfl⟩
    · simp at hx
    · rw [List.concat_eq_append] at *
      have hle := hmax last (by simp)
      rcases List.mem_append.mp hx with hx | hx
      · have := (List.pairwise_append.mp h).2.2 x hx last (by simp)
        omega
      · exact ⟨front, by rw [List.mem_singleton.mp hx]⟩

theorem latestWriter?_eq_some_iff {slot writer : Nat} {resource : String} :
    latestWriter? passes slot resource = some writer ↔
      LatestWriter passes slot resource writer := by
  rw [latestWriter?, getLast?_eq_some_of_pairwise (pairwise_writers _)]
  simp only [mem_writers, writes_take, LatestWriter, and_assoc, and_imp]

/-- A resource that an earlier pass writes has a latest writer, which is no earlier than that. -/
theorem exists_latestWriter {slot other : Nat} {resource : String} (hlt : other < slot)
    (hw : Writes passes other resource) :
    ∃ writer, other ≤ writer ∧ LatestWriter passes slot resource writer := by
  have hm : other ∈ writers (passes.take slot) resource :=
    mem_writers.mpr (writes_take.mpr ⟨hlt, hw⟩)
  cases hl : latestWriter? passes slot resource with
  | none => simp [List.getLast?_eq_none_iff.mp hl] at hm
  | some writer =>
    have h := latestWriter?_eq_some_iff.mp hl
    exact ⟨writer, h.2.2 other hlt hw, h⟩

/-! ### The table of dependencies -/

/-- What stands in the row of a slot, if a table is made pass by pass. -/
theorem linksOf_map_zipIdx (f : Pass σ × Nat → List Nat) (slot : Nat) :
    linksOf (passes.zipIdx.map f) slot = (passes[slot]?.map fun p ↦ f (p, slot)).getD [] := by
  rw [linksOf, List.getElem?_map, List.getElem?_zipIdx]
  cases passes[slot]? <;> simp

private theorem link_map_zipIdx {f : Pass σ × Nat → List Nat} {slot other : Nat} :
    Link (passes.zipIdx.map f) slot other ↔
      ∃ p, passes[slot]? = some p ∧ other ∈ f (p, slot) := by
  rw [Link, linksOf_map_zipIdx]
  cases passes[slot]? <;> simp

/-- The consumption table holds the latest earlier writers of what is read. -/
theorem link_consumption_iff {slot writer : Nat} :
    Link (consumption passes) slot writer ↔ Consumes passes slot writer := by
  rw [consumption, link_map_zipIdx]
  simp only [consumed, List.mem_eraseDups, List.mem_filterMap, latestWriter?_eq_some_iff]
  constructor
  · rintro ⟨p, hp, resource, hr, hw⟩
    exact ⟨resource, ⟨p, hp, hr⟩, hw⟩
  · rintro ⟨resource, ⟨p, hp, hr⟩, hw⟩
    exact ⟨p, hp, resource, hr, hw⟩

private theorem link_consumption : Link (consumption passes) = Consumes passes := by
  funext slot writer
  exact propext link_consumption_iff

private theorem mem_feedback {p : Pass σ} {slot writer : Nat} (hp : passes[slot]? = some p) :
    writer ∈ feedback passes (consumption passes) (p, slot) ↔ FeedbackPair passes slot writer := by
  simp only [feedback, List.mem_flatMap]
  constructor
  · rintro ⟨resource, hr, hm⟩
    split at hm
    · simp at hm
    · next hfirst =>
      simp only [List.mem_filter, mem_writers, Bool.and_eq_true, bne_iff_ne, leadsTo_iff,
        link_consumption] at hm
      obtain ⟨hw, hne, hl⟩ := hm
      have hn : ∀ other < slot, ¬ Writes passes other resource := fun other hlt ho ↦
        hfirst (List.any_eq_true.mpr ⟨other, mem_writers.mpr ho, by simpa using hlt⟩)
      have hlt : slot < writer := by
        rcases Nat.lt_trichotomy slot writer with h | h | h
        · exact h
        · exact absurd h.symm hne
        · exact absurd hw (hn writer h)
      refine ⟨hlt, ⟨resource, ⟨p, hp, hr⟩, hw, hn⟩, ?_⟩
      exact (reflTransGen_iff_eq_or_transGen.mp hl).resolve_left (Ne.symm hne)
  · rintro ⟨hlt, ⟨resource, ⟨q, hq, hr⟩, hw, hn⟩, hl⟩
    rw [hp] at hq
    cases hq
    refine ⟨resource, hr, ?_⟩
    split
    · next hfirst =>
      obtain ⟨other, ho, hlt⟩ := List.any_eq_true.mp hfirst
      exact absurd (mem_writers.mp ho) (hn other (by simpa using hlt))
    · simp only [List.mem_filter, mem_writers, Bool.and_eq_true, bne_iff_ne, leadsTo_iff,
        link_consumption]
      exact ⟨hw, (Nat.ne_of_lt hlt).symm, hl.to_reflTransGen⟩

/-- A pass that no later one feeds has no feedback to wait for. -/
theorem feedback_eq_nil {p : Pass σ} {slot : Nat} (hp : passes[slot]? = some p)
    (h : ∀ writer, ¬ FeedbackPair passes slot writer) :
    feedback passes (consumption passes) (p, slot) = [] :=
  List.eq_nil_iff_forall_not_mem.mpr fun writer hm ↦ h writer ((mem_feedback hp).mp hm)

private theorem mem_beforeWriting {slot other : Nat} {resource : String} :
    other ∈ beforeWriting passes slot resource ↔
      LatestWriter passes slot resource other ∨ other < slot ∧ Reads passes other resource := by
  rw [beforeWriting, List.mem_append, Option.mem_toList, latestWriter?_eq_some_iff,
    mem_readers_take]

/-- The first name that passes give to follow, in the order of declaration, and that no pass
has. -/
def firstMissing? (passes : List (Pass σ)) (index : Table Nat) : Option String :=
  (passes.flatMap (·.after)).find? fun name ↦ !index.contains name

/-- The slots that a pass follows, if all names that it gives are known. -/
def followed (passes : List (Pass σ)) (index : Table Nat) (entry : Pass σ × Nat) : List Nat :=
  (consumed passes entry ++ entry.1.writes.names.flatMap (beforeWriting passes entry.2)
    ++ entry.1.after.filterMap index.get? ++ feedback passes (consumption passes) entry).eraseDups

private theorem named_eq (index : Table Nat) (p : Pass σ) :
    named index p =
      match p.after.find? fun name ↦ !index.contains name with
      | some name => .error (.passNotFound name)
      | none => .ok (p.after.filterMap index.get?) := by
  rw [named]
  induction p.after with
  | nil => rfl
  | cons name rest ih =>
    rw [List.mapM_cons, ih, List.find?_cons, List.filterMap_cons]
    cases hn : index.get? name with
    | none => simp [Table.contains, hn, bind, Except.bind]
    | some slot =>
      simp only [Table.contains, hn, Option.isSome_some, Bool.not_true]
      cases rest.find? fun name ↦ !(index.get? name).isSome <;> rfl

private theorem mapM_dependenciesOf (index : Table Nat) (entries : List (Pass σ × Nat)) :
    entries.mapM (dependenciesOf passes index (consumption passes)) =
      match (entries.flatMap (·.1.after)).find? fun name ↦ !index.contains name with
      | some name => .error (.passNotFound name)
      | none => .ok (entries.map (followed passes index)) := by
  induction entries with
  | nil => rfl
  | cons entry rest ih =>
    rw [List.mapM_cons, ih, List.flatMap_cons, List.find?_append, dependenciesOf, named_eq]
    cases entry.1.after.find? fun name ↦ !index.contains name with
    | some name => rfl
    | none =>
      cases (rest.flatMap (·.1.after)).find? fun name ↦ !index.contains name <;> rfl

/-- There is a table of dependencies exactly when every name is known; the first unknown one is
the error. -/
theorem dependencies_eq (passes : List (Pass σ)) (index : Table Nat) :
    dependencies passes index =
      match firstMissing? passes index with
      | some name => .error (.passNotFound name)
      | none => .ok (passes.zipIdx.map (followed passes index)) := by
  have hz : passes.zipIdx.flatMap (·.1.after) = passes.flatMap (·.after) := by
    rw [← List.flatMap_map Prod.fst, List.zipIdx_map_fst]
  rw [dependencies, mapM_dependenciesOf, hz, firstMissing?]

/-- What a table of dependencies is made of. -/
theorem eq_of_dependencies {index : Table Nat} {table : List (List Nat)}
    (h : dependencies passes index = .ok table) :
    table = passes.zipIdx.map (followed passes index) := by
  rw [dependencies_eq] at h
  split at h <;> cases h
  rfl

private theorem mem_named {index : Table Nat} (hi : Indexes (passes.map (·.name)) index.get?)
    {p : Pass σ} {slot other : Nat} (hp : passes[slot]? = some p) :
    other ∈ p.after.filterMap index.get? ↔ Names passes slot other := by
  simp only [List.mem_filterMap, hi _ _, List.getElem?_map, Option.map_eq_some_iff]
  constructor
  · rintro ⟨name, hn, q, hq, rfl⟩
    exact ⟨p, q, hp, hq, hn⟩
  · rintro ⟨p', q, hp', hq, hn⟩
    rw [hp] at hp'
    cases hp'
    exact ⟨q.name, hn, q, hq, rfl⟩

/-- What a table of dependencies says of two slots. -/
theorem link_iff {index : Table Nat} (hi : Indexes (passes.map (·.name)) index.get?)
    {table : List (List Nat)} (h : dependencies passes index = .ok table) {slot other : Nat} :
    Link table slot other ↔
      Consumes passes slot other ∨ Awaits passes slot other ∨ Names passes slot other ∨
        FeedbackPair passes slot other := by
  rw [eq_of_dependencies h, link_map_zipIdx, ← link_consumption_iff, consumption, link_map_zipIdx]
  constructor
  · rintro ⟨p, hp, hm⟩
    simp only [followed, List.mem_eraseDups, List.mem_append, List.mem_flatMap, mem_beforeWriting,
      mem_named hi hp, mem_feedback hp] at hm
    rcases hm with ((hm | ⟨resource, hr, hm⟩) | hm) | hm
    · exact .inl ⟨p, hp, hm⟩
    · exact .inr (.inl ⟨resource, ⟨p, hp, hr⟩, hm⟩)
    · exact .inr (.inr (.inl hm))
    · exact .inr (.inr (.inr hm))
  · intro hm
    have hp : ∃ p, passes[slot]? = some p := by
      rcases hm with ⟨p, hp, -⟩ | ⟨-, ⟨p, hp, -⟩, -⟩ | ⟨p, -, hp, -⟩ | ⟨-, ⟨-, ⟨p, hp, -⟩, -⟩, -⟩
        <;> exact ⟨p, hp⟩
    obtain ⟨p, hp⟩ := hp
    refine ⟨p, hp, ?_⟩
    simp only [followed, List.mem_eraseDups, List.mem_append, List.mem_flatMap, mem_beforeWriting,
      mem_named hi hp, mem_feedback hp]
    rcases hm with ⟨q, hq, hm⟩ | ⟨resource, ⟨q, hq, hr⟩, hm⟩ | hm | hm
    · rw [hp] at hq
      cases hq
      exact .inl (.inl (.inl hm))
    · rw [hp] at hq
      cases hq
      exact .inl (.inl (.inr ⟨resource, hr, hm⟩))
    · exact .inl (.inr hm)
    · exact .inr hm

/-- A pass follows another once. -/
theorem nodup_linksOf {index : Table Nat} {table : List (List Nat)}
    (h : dependencies passes index = .ok table) (slot : Nat) : (linksOf table slot).Nodup := by
  rw [eq_of_dependencies h, linksOf, List.getElem?_map]
  cases passes.zipIdx[slot]? with
  | none => exact List.nodup_nil
  | some entry => exact (FirstOccurrences.eraseDups _).nodup

theorem length_of_dependencies {index : Table Nat} {table : List (List Nat)}
    (h : dependencies passes index = .ok table) : table.length = passes.length := by
  rw [eq_of_dependencies h, List.length_map, List.length_zipIdx]

end RenderKit.Schedule
