/-!
# Tables

Values under names, each name once and the names in ascending order. The list of rows is the view
that every operation is described by; `get?_insert` and `get?_erase` say what a look-up finds
afterwards.
-/

namespace RenderKit

/-- Values under names in ascending order. -/
structure Table (α : Type) where
  rows : List (String × α) := []
  ordered : rows.Pairwise (fun a b => a.1 < b.1) := by exact List.Pairwise.nil

namespace Table

variable {α : Type}

/-- No names. -/
def empty : Table α := {}

/-- The names in ascending order. -/
def names (t : Table α) : List String :=
  t.rows.map (·.1)

/-- The number of names. -/
def size (t : Table α) : Nat :=
  t.rows.length

/-- The value under a name. -/
def get? (t : Table α) (name : String) : Option α :=
  t.rows.lookup name

/-- Whether there is a value under a name. -/
def contains (t : Table α) (name : String) : Bool :=
  (t.get? name).isSome

/-- Rows with one more, in its place; a row of the same name gives way. -/
def insertRow (name : String) (a : α) : List (String × α) → List (String × α)
  | [] => [(name, a)]
  | row :: rest =>
    if name < row.1 then (name, a) :: row :: rest
    else if name = row.1 then (name, a) :: rest
    else row :: insertRow name a rest

theorem mem_insertRow {name : String} {a : α} {rows : List (String × α)} {row : String × α}
    (h : row ∈ insertRow name a rows) : row = (name, a) ∨ row ∈ rows := by
  fun_induction insertRow name a rows with
  | case1 => simpa using h
  | case2 => simpa using h
  | case3 r rest _ _ =>
    rcases List.mem_cons.1 h with h | h
    · exact .inl h
    · exact .inr (List.mem_cons_of_mem _ h)
  | case4 r rest _ _ ih =>
    rcases List.mem_cons.1 h with h | h
    · exact .inr (h ▸ List.mem_cons_self)
    · exact (ih h).imp_right (List.mem_cons_of_mem _)

theorem pairwise_insertRow {name : String} {a : α} {rows : List (String × α)}
    (h : rows.Pairwise (fun a b => a.1 < b.1)) :
    (insertRow name a rows).Pairwise (fun a b => a.1 < b.1) := by
  fun_induction insertRow name a rows with
  | case1 => simp
  | case2 r rest hlt =>
    refine List.pairwise_cons.2 ⟨fun b hb => ?_, h⟩
    rcases List.mem_cons.1 hb with rfl | hb
    · exact hlt
    · exact String.lt_trans hlt ((List.pairwise_cons.1 h).1 b hb)
  | case3 r rest _ heq =>
    refine List.pairwise_cons.2 ⟨fun b hb => ?_, (List.pairwise_cons.1 h).2⟩
    exact heq ▸ (List.pairwise_cons.1 h).1 b hb
  | case4 r rest hlt hne ih =>
    refine List.pairwise_cons.2 ⟨fun b hb => ?_, ih (List.pairwise_cons.1 h).2⟩
    rcases mem_insertRow hb with rfl | hb
    · exact Decidable.byContradiction fun hn =>
        hne (String.le_antisymm (String.not_lt.1 hn) (String.not_lt.1 hlt))
    · exact (List.pairwise_cons.1 h).1 b hb

/-- Puts a value under a name, in place of the one that was there. -/
def insert (t : Table α) (name : String) (a : α) : Table α :=
  ⟨insertRow name a t.rows, pairwise_insertRow t.ordered⟩

/-- Removes a name. -/
def erase (t : Table α) (name : String) : Table α :=
  ⟨t.rows.filter (·.1 != name), t.ordered.filter _⟩

private theorem lookup_row (name : String) (row : String × α) (rows : List (String × α)) :
    List.lookup name (row :: rows) = if name = row.1 then some row.2 else rows.lookup name := by
  obtain ⟨key, a⟩ := row
  by_cases h : name = key
  · simp only [List.lookup_cons, h, beq_self_eq_true, if_pos]
  · have hne : (name == key) = false := by simp [h]
    simp only [List.lookup_cons, hne, if_neg h]

theorem get?_insert (t : Table α) (name other : String) (a : α) :
    (t.insert name a).get? other = if other = name then some a else t.get? other := by
  obtain ⟨rows, ordered⟩ := t
  simp only [get?, insert]
  clear ordered
  fun_induction insertRow name a rows with
  | case1 => simp [lookup_row]
  | case2 => rw [lookup_row]
  | case3 r rest _ heq =>
    subst heq
    simp only [lookup_row]
    split <;> rfl
  | case4 r rest _ hne ih =>
    simp only [lookup_row, ih]
    by_cases h : other = r.1
    · simp [h, Ne.symm hne]
    · simp [h]

theorem get?_erase (t : Table α) (name other : String) :
    (t.erase name).get? other = if other = name then none else t.get? other := by
  obtain ⟨rows, ordered⟩ := t
  simp only [get?, erase]
  clear ordered
  induction rows with
  | nil => simp
  | cons r rest ih =>
    by_cases hr : r.1 = name
    · rw [List.filter_cons_of_neg (by simp [hr]), ih, lookup_row]
      by_cases ho : other = name <;> simp [ho, hr]
    · rw [List.filter_cons_of_pos (by simp [hr]), lookup_row, lookup_row, ih]
      by_cases ho : other = r.1
      · simp [ho, hr]
      · simp [ho]

/-- A name has a value exactly when it is among the names. -/
theorem contains_iff (t : Table α) (name : String) : t.contains name = true ↔ name ∈ t.names := by
  simp only [contains, get?, names, List.lookup_isSome_iff, List.mem_map]
  constructor
  · rintro ⟨row, hrow, h⟩
    exact ⟨row, hrow, (beq_iff_eq.1 h).symm⟩
  · rintro ⟨row, hrow, rfl⟩
    exact ⟨row, hrow, by simp⟩

/-- A row is what is found under its name. -/
theorem get?_eq_some_iff (t : Table α) {name : String} {a : α} :
    t.get? name = some a ↔ (name, a) ∈ t.rows := by
  obtain ⟨rows, ordered⟩ := t
  simp only [get?]
  induction rows with
  | nil => simp
  | cons row rest ih =>
    obtain ⟨hlt, hrest⟩ := List.pairwise_cons.1 ordered
    rw [lookup_row, List.mem_cons]
    by_cases h : name = row.1
    · rw [if_pos h, Option.some.injEq]
      constructor
      · rintro rfl
        exact .inl (Prod.ext h rfl)
      · rintro (he | hm)
        · exact (congrArg Prod.snd he).symm
        · exact absurd (h ▸ hlt _ hm) (String.lt_irrefl _)
    · rw [if_neg h, ih hrest]
      exact ⟨.inr, fun hm => hm.resolve_left fun he => h (congrArg Prod.fst he)⟩

/-- Putting a value in place of another changes no name. -/
theorem names_insert (t : Table α) {name : String} (a : α) (h : name ∈ t.names) :
    (t.insert name a).names = t.names := by
  obtain ⟨rows, ordered⟩ := t
  simp only [names, insert] at h ⊢
  fun_induction insertRow name a rows with
  | case1 => simp at h
  | case2 row rest hlt =>
    rcases List.mem_cons.1 h with rfl | hm
    · exact absurd hlt (String.lt_irrefl _)
    · obtain ⟨other, ho, rfl⟩ := List.mem_map.1 hm
      exact absurd (String.lt_trans hlt ((List.pairwise_cons.1 ordered).1 other ho))
        (String.lt_irrefl _)
  | case3 row rest _ heq => rw [List.map_cons, List.map_cons, heq]
  | case4 row rest _ hne ih =>
    rw [List.map_cons, List.map_cons, ih (List.pairwise_cons.1 ordered).2
      ((List.mem_cons.1 h).resolve_left hne)]

/-- Putting a value under a new name makes a table longer by one. -/
theorem size_insert (t : Table α) {name : String} (a : α) (h : t.get? name = none) :
    (t.insert name a).size = t.size + 1 := by
  obtain ⟨rows, ordered⟩ := t
  simp only [get?, size, insert] at h ⊢
  clear ordered
  fun_induction insertRow name a rows with
  | case1 => rfl
  | case2 => rfl
  | case3 row rest _ heq =>
    rw [lookup_row, if_pos heq] at h
    cases h
  | case4 row rest _ hne ih =>
    rw [lookup_row, if_neg hne] at h
    rw [List.length_cons, List.length_cons, ih h]

end Table

end RenderKit
