import RenderKit.Proofs.Schedule.Order
import Mathlib.Tactic.IntervalCases

/-!
# Rounds of a search

The search of a table as a process, without a bound on its steps and whatever pending slot it takes
next. Every round spends one pending slot or one link (`Round.work_add_one`), so all runs end; what
the seen slots keep (`Explored`) makes every answer the right one. Main statement: a search of a
table always ends, and tells whether the goal can be reached (`leadsTo_decides`).
-/

namespace RenderKit.Schedule

open Relation

/-- What a search keeps between its rounds. -/
structure Agenda where
  /-- The slots it has looked at. -/
  seen : List Nat
  /-- The slots it has still to look at, some of them more than once. -/
  pending : List Nat

/-- A search begins with a slot to look at. -/
def Agenda.start (slot : Nat) : Agenda := ⟨[], [slot]⟩

/-- A round of a search takes a pending slot that is not the goal. One seen before is dropped; any
other is seen now and hands over its links, which the table must have. -/
inductive Round (table : List (List Nat)) (goal : Nat) : Agenda → Agenda → Prop
  | skip {seen pending rest : List Nat} {slot : Nat} (htaken : pending.Perm (slot :: rest))
      (hgoal : slot ≠ goal) (hseen : slot ∈ seen) : Round table goal ⟨seen, pending⟩ ⟨seen, rest⟩
  | expand {seen pending rest next : List Nat} {slot : Nat} (htaken : pending.Perm (slot :: rest))
      (hgoal : slot ≠ goal) (hseen : slot ∉ seen) (hslot : slot < table.length)
      (hnext : next.Perm (table[slot] ++ rest)) :
      Round table goal ⟨seen, pending⟩ ⟨slot :: seen, next⟩

/-- One agenda comes from another in a number of rounds. -/
inductive Rounds (table : List (List Nat)) (goal : Nat) : Nat → Agenda → Agenda → Prop
  | none (agenda : Agenda) : Rounds table goal 0 agenda agenda
  | cons {count : Nat} {agenda next last : Agenda} (hround : Round table goal agenda next)
      (hrounds : Rounds table goal count next last) : Rounds table goal (count + 1) agenda last

/-- The answer of a search: the goal is the next slot to look at, or nothing is left to look at. -/
inductive Answers (goal : Nat) : Agenda → Bool → Prop
  | found {seen pending : List Nat} (hgoal : goal ∈ pending) : Answers goal ⟨seen, pending⟩ true
  | exhausted (seen : List Nat) : Answers goal ⟨seen, []⟩ false

variable {table : List (List Nat)} {goal slot : Nat} {agenda next last : Agenda}

theorem linksOf_of_lt (h : slot < table.length) : linksOf table slot = table[slot] := by
  rw [linksOf, List.getElem?_eq_getElem h]
  rfl

/-! ### All runs end -/

/-- The rounds that an agenda can still take. -/
def Agenda.work (table : List (List Nat)) (agenda : Agenda) : Nat :=
  agenda.pending.length + unseen table agenda.seen

/-- A round takes one pending slot away; one not seen yet trades its links, which count as work so
far. -/
theorem Round.work_add_one (h : Round table goal agenda next) :
    next.work table + 1 = agenda.work table := by
  cases h with
  | skip htaken =>
    simp only [Agenda.work, htaken.length_eq, List.length_cons]
    omega
  | expand htaken hgoal hseen hslot hnext =>
    have hlinks : unseen table _ + _ = _ := unseen_cons hseen
    rw [linksOf_of_lt hslot] at hlinks
    simp only [Agenda.work, htaken.length_eq, hnext.length_eq, List.length_cons, List.length_append]
    omega

theorem Rounds.work_add {count : Nat} (h : Rounds table goal count agenda last) :
    last.work table + count = agenda.work table := by
  induction h with
  | none => rfl
  | cons hround hrounds ih =>
    have hstep := hround.work_add_one
    omega

theorem work_start : (Agenda.start slot).work table = table.flatten.length + 1 := by
  rw [Agenda.work, Agenda.start, unseen_nil, List.length_singleton, Nat.add_comm]

/-! ### What rounds keep -/

/-- What the rounds of a search from a slot keep: the slot is seen or pending, none of the seen ones
is the goal and their links are seen or pending, and all that is pending can be reached. -/
structure Explored (table : List (List Nat)) (goal slot : Nat) (agenda : Agenda) : Prop where
  start_mem : slot ∈ agenda.seen ∨ slot ∈ agenda.pending
  searched : Searched table goal agenda.seen agenda.pending
  reached : ∀ s ∈ agenda.pending, ReflTransGen (Link table) slot s
  inRange : ∀ s ∈ agenda.pending, s < table.length

theorem Searched.perm {seen pending others : List Nat} (h : Searched table goal seen pending)
    (hperm : pending.Perm others) : Searched table goal seen others :=
  ⟨h.1, fun s hs t ht ↦ (h.2 s hs t ht).imp_right hperm.mem_iff.mp⟩

theorem explored_start (hslot : slot < table.length) :
    Explored table goal slot (Agenda.start slot) where
  start_mem := .inr (List.mem_singleton_self slot)
  searched := ⟨List.not_mem_nil, fun s hs ↦ absurd hs List.not_mem_nil⟩
  reached s hs := by
    rw [List.mem_singleton.mp hs]
  inRange s hs := by
    rw [List.mem_singleton.mp hs]
    exact hslot

theorem Round.explored (htable : InRange table) (h : Round table goal agenda next)
    (hagenda : Explored table goal slot agenda) : Explored table goal slot next := by
  cases h with
  | @skip seen pending rest taken htaken hgoal hseen =>
    have hrest : ∀ s ∈ rest, s ∈ pending := fun s hs ↦
      htaken.mem_iff.mpr (List.mem_cons_of_mem _ hs)
    refine ⟨?_, (hagenda.searched.perm htaken).skip hseen,
      fun s hs ↦ hagenda.reached s (hrest s hs), fun s hs ↦ hagenda.inRange s (hrest s hs)⟩
    rcases hagenda.start_mem with hs | hs
    · exact .inl hs
    · rcases List.mem_cons.mp (htaken.mem_iff.mp hs) with rfl | hs
      · exact .inl hseen
      · exact .inr hs
  | @expand seen pending rest next taken htaken hgoal hseen hlt hnext =>
    have hrest : ∀ s ∈ rest, s ∈ pending := fun s hs ↦
      htaken.mem_iff.mpr (List.mem_cons_of_mem _ hs)
    have hmem : ∀ s ∈ next, Link table taken s ∨ s ∈ rest := by
      intro s hs
      rw [Link, linksOf_of_lt hlt]
      exact List.mem_append.mp (hnext.mem_iff.mp hs)
    refine ⟨?_, ?_, fun s hs ↦ ?_, fun s hs ↦ ?_⟩
    · rcases hagenda.start_mem with hs | hs
      · exact .inl (List.mem_cons_of_mem _ hs)
      · rcases List.mem_cons.mp (htaken.mem_iff.mp hs) with rfl | hs
        · exact .inl List.mem_cons_self
        · exact .inr (hnext.mem_iff.mpr (List.mem_append_right _ hs))
    · have hexpanded := (hagenda.searched.perm htaken).expand hgoal
      rw [linksOf_of_lt hlt] at hexpanded
      exact hexpanded.perm hnext.symm
    · rcases hmem s hs with hl | hs
      · have htaken' : taken ∈ pending := htaken.mem_iff.mpr List.mem_cons_self
        exact (hagenda.reached taken htaken').tail hl
      · exact hagenda.reached s (hrest s hs)
    · rcases hmem s hs with hl | hs
      · exact htable taken s hl
      · exact hagenda.inRange s (hrest s hs)

theorem Rounds.explored {count : Nat} (htable : InRange table)
    (h : Rounds table goal count agenda last) (hagenda : Explored table goal slot agenda) :
    Explored table goal slot last := by
  induction h with
  | none => exact hagenda
  | cons hround hrounds ih => exact ih (hround.explored htable hagenda)

/-! ### What a search answers -/

/-- An answer tells whether the goal can be reached. -/
theorem Explored.answer_iff {answer : Bool} (hagenda : Explored table goal slot agenda)
    (h : Answers goal agenda answer) : answer = true ↔ ReflTransGen (Link table) slot goal := by
  cases h with
  | found hgoal => exact iff_of_true rfl (hagenda.reached goal hgoal)
  | exhausted seen =>
    have hclosed : Closed table goal seen :=
      ⟨hagenda.searched.1, fun s hs t ht ↦ by simpa using hagenda.searched.2 s hs t ht⟩
    have hslot : slot ∈ seen := by simpa using hagenda.start_mem
    exact iff_of_false Bool.false_ne_true fun hreaches ↦
      hclosed.1 (hclosed.mem_of_reaches hslot hreaches)

/-- While there is no answer there is a next round. -/
theorem Explored.exists_answer_or_round (hagenda : Explored table goal slot agenda) :
    (∃ answer, Answers goal agenda answer) ∨ ∃ next, Round table goal agenda next := by
  obtain ⟨seen, pending⟩ := agenda
  cases pending with
  | nil => exact .inl ⟨false, .exhausted seen⟩
  | cons taken rest =>
    by_cases hgoal : taken = goal
    · exact .inl ⟨true, .found (hgoal ▸ List.mem_cons_self)⟩
    · by_cases hseen : taken ∈ seen
      · exact .inr ⟨_, .skip (.refl _) hgoal hseen⟩
      · have hlt : taken < table.length := hagenda.inRange taken List.mem_cons_self
        exact .inr ⟨_, .expand (.refl _) hgoal hseen hlt (.refl _)⟩

/-- Some run of a search ends with an answer. -/
theorem Explored.exists_answer (htable : InRange table)
    (hagenda : Explored table goal slot agenda) :
    ∃ count last answer, Rounds table goal count agenda last ∧ Answers goal last answer := by
  -- The induction is on the work that is left, which every round makes less.
  induction hwork : agenda.work table generalizing agenda with
  | zero =>
    rcases hagenda.exists_answer_or_round with ⟨answer, ha⟩ | ⟨next, hround⟩
    · exact ⟨0, agenda, answer, .none agenda, ha⟩
    · have hless := hround.work_add_one
      omega
  | succ work ih =>
    rcases hagenda.exists_answer_or_round with ⟨answer, ha⟩ | ⟨next, hround⟩
    · exact ⟨0, agenda, answer, .none agenda, ha⟩
    · have hless := hround.work_add_one
      obtain ⟨count, last, answer, hrounds, ha⟩ := ih (hround.explored htable hagenda) (by omega)
      exact ⟨count + 1, last, answer, .cons hround hrounds, ha⟩

/-- A search of a table whose links stay in the table ends, whatever it takes first: no run has more
rounds than there are links and one, none stops short of an answer, and all have the same. The
answer tells whether the goal is the slot itself or can be reached from it along links. -/
theorem leadsTo_decides (htable : InRange table) (hslot : slot < table.length) :
    (∀ count agenda, Rounds table goal count (.start slot) agenda →
      count ≤ table.flatten.length + 1 ∧
        ((∃ answer, Answers goal agenda answer) ∨ ∃ next, Round table goal agenda next) ∧
          ∀ answer, Answers goal agenda answer → answer = leadsTo table slot goal) ∧
      (∃ count agenda, Rounds table goal count (.start slot) agenda ∧
        Answers goal agenda (leadsTo table slot goal)) ∧
      (∀ fuel, table.flatten.length < fuel →
        search table goal fuel [] [slot] = leadsTo table slot goal) ∧
      (leadsTo table slot goal = true ↔ goal = slot ∨ TransGen (Link table) slot goal) := by
  have hstart : Explored table goal slot (.start slot) := explored_start hslot
  have hanswer : ∀ agenda answer, Explored table goal slot agenda → Answers goal agenda answer →
      answer = leadsTo table slot goal := by
    intro agenda answer hagenda ha
    rw [Bool.eq_iff_iff, hagenda.answer_iff ha, leadsTo_iff]
  refine ⟨fun count agenda h ↦ ?_, ?_, fun fuel hfuel ↦ ?_, ?_⟩
  · have hwork := h.work_add
    have hagenda := h.explored htable hstart
    rw [work_start] at hwork
    exact ⟨by omega, hagenda.exists_answer_or_round, fun answer ↦ hanswer agenda answer hagenda⟩
  · obtain ⟨count, agenda, answer, hrounds, ha⟩ := hstart.exists_answer htable
    rw [← hanswer agenda answer (hrounds.explored htable hstart) ha]
    exact ⟨count, agenda, hrounds, ha⟩
  · rw [Bool.eq_iff_iff, search_iff hfuel, leadsTo_iff]
  · rw [leadsTo_iff, reflTransGen_iff_eq_or_transGen]

/-- A table with a slot that leads to itself, links that stand twice and a cycle. -/
def tangled : List (List Nat) := [[0, 1, 1], [2, 2], [0], [1]]

theorem leadsTo_decides_tangled :
    InRange tangled ∧ TransGen (Link tangled) 0 2 ∧ ¬ (3 = 0 ∨ TransGen (Link tangled) 0 3) ∧
      ∀ count agenda, Rounds tangled 3 count (.start 0) agenda → count ≤ 8 := by
  have htable : InRange tangled := by
    intro slot next hl
    have hslot : slot < 4 := lt_of_link hl
    rw [Link] at hl
    revert next
    interval_cases slot <;> decide
  obtain ⟨-, -, -, hreached⟩ := @leadsTo_decides tangled 2 0 htable (by decide)
  obtain ⟨hruns, -, -, hmissed⟩ := @leadsTo_decides tangled 3 0 htable (by decide)
  have hfound : 2 = 0 ∨ TransGen (Link tangled) 0 2 := hreached.mp (by decide)
  refine ⟨htable, hfound.resolve_left (by decide), fun h ↦ ?_, fun count agenda h ↦ ?_⟩
  · exact absurd (hmissed.mpr h) (by decide)
  · exact (hruns count agenda h).1

end RenderKit.Schedule
