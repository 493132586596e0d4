import RenderKit.Proofs.Schedule.Dependencies

/-!
# Declaring one more pass

A pass that is declared behind the others changes nothing for them: what they depend on is told by
earlier passes, and a depth-first visit of them never comes to the new one. So a built graph is built
again with the new pass at the end of the order, unless that pass names one that does not exist,
names itself, or feeds an earlier pass that it consumes the output of (`build_add`).
-/

namespace RenderKit

variable {σ : Type}

namespace Schedule

open Relation

/-! ### One more row of links -/

section

variable {table : List (List Nat)}

private theorem linksOf_append_of_lt (rows : List (List Nat)) {slot : Nat}
    (h : slot < table.length) : linksOf (table ++ rows) slot = linksOf table slot := by
  rw [linksOf, linksOf, List.getElem?_append_left h]

private theorem linksOf_append_self (row : List Nat) :
    linksOf (table ++ [row]) table.length = row := by
  rw [linksOf, List.getElem?_append_right (Nat.le_refl _), Nat.sub_self]
  rfl

/-- More rows do not change a visit, since its links do not lead there. -/
private theorem visit_append (rows : List (List Nat)) (hr : InRange table) {way done : List Nat}
    {slot : Nat} (hs : slot < table.length) :
    visit (table ++ rows) way done slot = visit table way done slot := by
  induction way using visit_induction table generalizing done slot with
  | step way ih =>
    rw [visit_eq, visit_eq, linksOf_append_of_lt rows hs]
    by_cases hw : slot ∈ way
    · simp only [if_pos hw]
    · have hlinks : (linksOf table slot).foldlM (visit (table ++ rows) (slot :: way)) done =
          (linksOf table slot).foldlM (visit table (slot :: way)) done :=
        foldlM_congr done fun next hn done ↦ ih slot next hw hn (hr slot next hn)
      rw [hlinks]

/-- A row whose links lead to the rows before it comes last in the order, and those keep theirs. -/
theorem order_append {row slots : List Nat} (hr : InRange table) (h : order table = .ok slots)
    (hrow : ∀ next ∈ row, next < table.length) :
    order (table ++ [row]) = .ok (slots ++ [table.length]) := by
  have hperm := perm_of_order hr h
  have hnew : table.length ∉ slots := by
    rw [hperm.mem_iff, List.mem_range]
    exact Nat.lt_irrefl _
  have hlast : visit (table ++ [row]) [] slots table.length = .ok (slots ++ [table.length]) := by
    rw [visit_eq, if_neg hnew, if_neg List.not_mem_nil, linksOf_append_self]
    refine bind_eq_ok_iff.mpr ⟨slots, foldlM_eq_self fun next hn ↦ ?_, rfl⟩
    exact visit_of_mem _ _ (hperm.mem_iff.mpr (List.mem_range.mpr (hrow next hn)))
  have hfront : (List.range table.length).foldlM (visit (table ++ [row]) []) [] = .ok slots :=
    (foldlM_congr [] fun slot hs done ↦ visit_append [row] hr (List.mem_range.mp hs)).trans h
  rw [order, List.length_append, List.length_singleton, List.range_succ, List.foldlM_append,
    hfront]
  exact bind_eq_ok_iff.mpr ⟨slots, rfl, bind_eq_ok_iff.mpr ⟨_, hlast, rfl⟩⟩

end

/-! ### What passes see of later ones -/

section

variable {passes : List (Pass σ)} (more : List (Pass σ)) {slot other : Nat} {resource : String}

private theorem take_append {slot : Nat} (hs : slot ≤ passes.length) :
    (passes ++ more).take slot = passes.take slot :=
  List.take_append_of_le_length hs

private theorem reads_append_iff (hs : slot < passes.length) :
    Reads (passes ++ more) slot resource ↔ Reads passes slot resource := by
  rw [Reads, Reads, List.getElem?_append_left hs]

private theorem writes_append_iff (hs : slot < passes.length) :
    Writes (passes ++ more) slot resource ↔ Writes passes slot resource := by
  rw [Writes, Writes, List.getElem?_append_left hs]

private theorem latestWriter?_append (hs : slot ≤ passes.length) :
    latestWriter? (passes ++ more) slot = latestWriter? passes slot := by
  funext resource
  rw [latestWriter?, latestWriter?, take_append more hs]

private theorem consumes_append_iff (hs : slot < passes.length) :
    Consumes (passes ++ more) slot other ↔ Consumes passes slot other := by
  simp only [Consumes, reads_append_iff more hs, ← latestWriter?_eq_some_iff,
    latestWriter?_append more (Nat.le_of_lt hs)]

/-- What a pass consumes stands before it. -/
private theorem lt_of_consumes (h : Consumes passes slot other) : other < slot := by
  obtain ⟨_, -, hl⟩ := h
  exact hl.1

/-- Among the earlier passes no chain of consumption leads through a later one. -/
private theorem reaches_of_append {reader : Nat}
    (h : TransGen (Consumes (passes ++ more)) slot reader) (hs : slot < passes.length) :
    TransGen (Consumes passes) slot reader := by
  induction h using TransGen.head_induction_on with
  | single hc => exact .single ((consumes_append_iff more hs).mp hc)
  | head hc _ ih =>
    exact .head ((consumes_append_iff more hs).mp hc) (ih ((lt_of_consumes hc).trans hs))

private theorem feedbackPair_of_append {reader writer : Nat}
    (h : FeedbackPair (passes ++ more) reader writer) (hw : writer < passes.length) :
    FeedbackPair passes reader writer := by
  obtain ⟨hlt, ⟨resource, hreads, hwrites, hnone⟩, hchain⟩ := h
  have hreader := hlt.trans hw
  refine ⟨hlt, ⟨resource, (reads_append_iff more hreader).mp hreads,
    (writes_append_iff more hw).mp hwrites, fun earlier he ↦ ?_⟩, reaches_of_append more hchain hw⟩
  exact fun hearlier ↦
    hnone earlier he ((writes_append_iff more (he.trans hreader)).mpr hearlier)

/-- Earlier passes follow the same slots as before, unless a later one feeds them. -/
private theorem followed_append {index index' : Table Nat} {q : Pass σ}
    (hq : passes[slot]? = some q) (hi : ∀ name ∈ q.after, index'.get? name = index.get? name)
    (hf : ∀ writer, ¬ FeedbackPair passes slot writer)
    (hf' : ∀ writer, ¬ FeedbackPair (passes ++ more) slot writer) :
    followed (passes ++ more) index' (q, slot) = followed passes index (q, slot) := by
  have hs : slot < passes.length := (List.getElem?_eq_some_iff.mp hq).1
  have hq' : (passes ++ more)[slot]? = some q := by rw [List.getElem?_append_left hs, hq]
  have hwait : beforeWriting (passes ++ more) slot = beforeWriting passes slot := by
    funext resource
    rw [beforeWriting, beforeWriting, latestWriter?_append more (Nat.le_of_lt hs),
      take_append more (Nat.le_of_lt hs)]
  have hnamed : q.after.filterMap index'.get? = q.after.filterMap index.get? :=
    List.filterMap_congr hi
  rw [followed, followed, feedback_eq_nil hq hf, feedback_eq_nil hq' hf', hnamed, hwait, consumed,
    consumed, latestWriter?_append more (Nat.le_of_lt hs)]

end

/-! ### The new pass -/

/-- A pass names one that is neither among others nor the pass itself. -/
def NamesUnknown (passes : List (Pass σ)) (p : Pass σ) : Prop :=
  ∃ name ∈ p.after, name ∉ passes.map (·.name) ∧ name ≠ p.name

instance (passes : List (Pass σ)) (p : Pass σ) : Decidable (NamesUnknown passes p) :=
  inferInstanceAs (Decidable (∃ name ∈ p.after, name ∉ passes.map (·.name) ∧ name ≠ p.name))

/-- A pass behind others names itself, or writes what one of them reads and none before that one
writes, and consumes the output of that one. -/
def ClosesLoop (passes : List (Pass σ)) (p : Pass σ) : Prop :=
  p.name ∈ p.after ∨ ∃ reader, FeedbackPair (passes ++ [p]) reader passes.length

/-- No pass feeds an earlier one after the new one came, unless the new one does. -/
private theorem unfed_append {passes : List (Pass σ)} {p : Pass σ}
    (hf : ∀ reader writer, ¬ FeedbackPair passes reader writer) (hl : ¬ ClosesLoop passes p)
    (reader writer : Nat) : ¬ FeedbackPair (passes ++ [p]) reader writer := by
  intro h
  have ⟨_, ⟨_, _, ⟨_, hq, _⟩, _⟩, _⟩ := h
  have hlt := (List.getElem?_eq_some_iff.mp hq).1
  rw [List.length_append, List.length_singleton] at hlt
  rcases Nat.lt_succ_iff_lt_or_eq.mp hlt with hw | rfl
  · exact hf reader writer (feedbackPair_of_append [p] h hw)
  · exact hl (.inr ⟨reader, h⟩)

end Schedule

namespace PassGraph

open Relation Schedule

variable {g built : PassGraph σ} {p : Pass σ}

private theorem nameAt_push_of_lt {slot : Nat} (hs : slot < g.passes.length) :
    (g.push p).nameAt slot = g.nameAt slot := by
  rw [nameAt, nameAt, push, List.getElem?_append_left hs]

private theorem nameAt_push_self : (g.push p).nameAt g.passes.length = p.name := by
  rw [nameAt, push, List.getElem?_concat_length]
  rfl

private theorem get?_push_of_ne {name : String} (h : name ≠ p.name) :
    (g.push p).index.get? name = g.index.get? name :=
  (Table.get?_insert _ _ _ _).trans (if_neg h)

/-- A new pass leaves no name unknown unless it gives one itself. -/
private theorem missingNames_push (hk : missingNames g.passes = []) :
    missingNames (g.push p).passes = [] ↔ ¬ NamesUnknown g.passes p := by
  rw [missingNames_eq_nil_iff] at hk ⊢
  simp only [push, List.mem_append, List.mem_singleton, NamesUnknown, List.mem_map]
  constructor
  · rintro h ⟨name, hn, hold, hself⟩
    obtain ⟨q, hq | rfl, rfl⟩ := h p (.inr rfl) name hn
    · exact hold ⟨q, hq, rfl⟩
    · exact hself rfl
  · rintro h q (hq | rfl) name hn
    · obtain ⟨r, hr, hname⟩ := hk q hq name hn
      exact ⟨r, .inl hr, hname⟩
    · by_contra hnone
      refine h ⟨name, hn, ?_, fun he ↦ hnone ⟨q, .inr rfl, he.symm⟩⟩
      rintro ⟨r, hr, hname⟩
      exact hnone ⟨r, .inl hr, hname⟩

/-- A new pass that closes no loop follows only the passes before it. -/
private theorem lt_of_link_push (hi : (g.push p).Indexed) {table : List (List Nat)}
    (ht : Schedule.dependencies (g.push p).passes (g.push p).index = .ok table)
    (hf : ∀ reader writer, ¬ FeedbackPair (g.push p).passes reader writer)
    (hl : ¬ ClosesLoop g.passes p) {next : Nat} (hn : Link table g.passes.length next) :
    next < g.passes.length := by
  rcases (link_iff hi ht).mp hn with hc | ⟨_, -, ha | ha⟩ | ⟨q, r, hq, hr, hm⟩ | hfed
  · exact lt_of_consumes hc
  · exact ha.1
  · exact ha.1
  · rw [push, List.getElem?_concat_length] at hq
    cases hq
    have hlt := (List.getElem?_eq_some_iff.mp hr).1
    rw [push, List.length_append, List.length_singleton] at hlt
    refine (Nat.lt_succ_iff_lt_or_eq.mp hlt).resolve_right fun he ↦ ?_
    rw [he, push, List.getElem?_concat_length] at hr
    cases hr
    exact hl (.inl hm)
  · exact absurd hfed (hf _ _)

/-- The plan of a graph with a new pass is the old one with the pass behind it. -/
private theorem planned_push (hi : g.Indexed) {plan : Plan} (hplan : g.planned = .ok plan)
    (hp : p.name ∉ g.passes.map (·.name)) (hn : ¬ NamesUnknown g.passes p)
    (hl : ¬ ClosesLoop g.passes p) :
    ∃ row, (g.push p).planned =
      .ok ⟨plan.dependencies ++ [row], plan.order ++ [g.passes.length]⟩ := by
  have hs := schedulable_of_planned hi hplan
  obtain ⟨ht, ho⟩ := planned_eq_ok_iff.mp hplan
  have hi' := hi.push hp
  have hf : ∀ reader writer, ¬ FeedbackPair (g.push p).passes reader writer :=
    unfed_append hs.unfed hl
  obtain ⟨table, ht'⟩ := exists_dependencies hi'
    ((missingNames_push (missingNames_eq_nil_iff.mpr hs.known)).mpr hn)
  -- The rows of the old passes are the old rows.
  obtain ⟨row, rfl⟩ : ∃ row, table = plan.dependencies ++ [row] := by
    have hzip : (g.push p).passes.zipIdx = g.passes.zipIdx ++ [(p, g.passes.length)] := by
      rw [push, List.zipIdx_append, Nat.zero_add]
      rfl
    rw [eq_of_dependencies ht', eq_of_dependencies ht, hzip, List.map_append]
    refine ⟨_, congrArg (· ++ _) ?_⟩
    refine List.map_congr_left fun entry hq ↦ ?_
    obtain ⟨q, slot⟩ := entry
    have hslot : g.passes[slot]? = some q := List.mem_zipIdx_iff_getElem?.mp hq
    refine followed_append [p] hslot (fun name hname ↦ get?_push_of_ne ?_) (hs.unfed slot) (hf slot)
    rintro rfl
    obtain ⟨r, hr, he⟩ := hs.known q (List.mem_of_getElem? hslot) _ hname
    exact hp (List.mem_map.mpr ⟨r, hr, he⟩)
  have hlen := length_of_dependencies ht
  refine ⟨row, planned_eq_ok_iff.mpr ⟨ht', ?_⟩⟩
  rw [← hlen]
  refine order_append (inRange_of_dependencies hi ht) ho fun next hnext ↦ ?_
  have hlink : Link (plan.dependencies ++ [row]) g.passes.length next := by
    rw [Link, ← hlen, linksOf_append_self]
    exact hnext
  exact hlen ▸ lt_of_link_push hi' ht' hf hl hlink

/-- A loop through the new pass leaves no schedule. -/
private theorem not_schedulable_push (hl : ClosesLoop g.passes p) :
    ¬ Schedulable (g.push p).passes := by
  intro hs
  rcases hl with hself | ⟨reader, hf⟩
  · have hp : (g.push p).passes[g.passes.length]? = some p := List.getElem?_concat_length
    exact hs.acyclic _ (.single (.inr ⟨p, p, hp, hp, hself⟩))
  · exact hs.unfed _ _ hf

/-- Two schedules, the second with one more pass behind the others: it has the order of the first
with that pass behind it, and tells the same of the old passes. -/
private theorem schedule_push {g' : PassGraph σ} {plan : Plan} {row : List Nat}
    (h : Planned g plan) (hpasses : g'.passes = g.passes ++ [p])
    (h' : Planned g' ⟨plan.dependencies ++ [row], plan.order ++ [g.passes.length]⟩) :
    g'.orderedNames = g.orderedNames ++ [p.name] ∧
      ∀ q ∈ g.passes, g'.dependencies? q.name = g.dependencies? q.name := by
  have hname : g'.nameAt = (g.push p).nameAt := by
    funext slot
    rw [nameAt, nameAt, hpasses, push]
  have hold : ∀ slot < g.passes.length, g'.nameAt slot = g.nameAt slot := fun slot hs ↦
    hname ▸ nameAt_push_of_lt hs
  have hlen := length_of_dependencies h.table
  constructor
  · rw [h.orderedNames_eq, h'.orderedNames_eq, List.map_append, List.map_singleton, hname,
      nameAt_push_self, ← hname]
    congr 1
    exact List.map_congr_left fun slot hs ↦ hold slot (h.mem_order.mp hs)
  · intro q hq
    obtain ⟨slot, hs, -, hslot⟩ := h.exists_slot hq
    have hlt := h.mem_order.mp hs
    rw [← hslot, h.dependencies?_nameAt hs, ← hold slot hlt,
      h'.dependencies?_nameAt (List.mem_append_left _ hs), linksOf_append_of_lt _ (hlen ▸ hlt)]
    congr 1
    refine List.map_congr_left fun next hn ↦ hold next (hlen ▸ ?_)
    exact inRange_of_dependencies h.reachable.indexed h.table slot next hn

/-- A pass of a new name is declared behind the others, built or not, and does not reorder them.
The next build misses a name exactly when the new pass gives one that nobody has. Otherwise it finds
a cycle exactly when the new pass closes a loop. Otherwise it orders the passes as before with the
new one behind them, and tells the same dependencies of the old ones. -/
theorem build_add (hg : g.Reachable) (hb : g.build = (.ok (), built))
    (hp : p.name ∉ g.passes.map (·.name)) :
    ∃ g', g.add p = .ok g' ∧ built.add p = .ok g' ∧
      ((∃ name, g'.build.1 = .error (.passNotFound name)) ↔ NamesUnknown g.passes p) ∧
        (¬ NamesUnknown g.passes p →
          ((∃ name, g'.build.1 = .error (.cycle name)) ↔ ClosesLoop g.passes p) ∧
            (¬ ClosesLoop g.passes p → g'.build.1 = .ok () ∧
              g'.build.2.orderedNames = built.orderedNames ++ [p.name] ∧
                ∀ q ∈ g.passes, g'.build.2.dependencies? q.name = built.dependencies? q.name)) := by
  obtain ⟨plan, hplan, hplanned, hpasses, hindex⟩ := exists_planned_of_build hg hb
  have hi := hg.indexed
  have hfree := (contains_eq_false_iff hi).mpr hp
  have hadd : g.add p = .ok (g.push p).unplanned := add_eq_ok_iff.mpr ⟨hfree, rfl⟩
  have hg' : (g.push p).unplanned.Reachable := hg.add p hadd
  have hadd' : built.add p = .ok (g.push p).unplanned := by
    obtain ⟨-, -, rfl⟩ := build_eq_ok_iff.mp hb
    exact hadd
  have hk := missingNames_eq_nil_iff.mpr (schedulable_of_planned hi hplan).known
  obtain ⟨hmissing, hcycle⟩ := kind_of_build hg'.indexed
  refine ⟨_, hadd, hadd', hmissing.trans (not_iff_comm.mp (missingNames_push hk).symm),
    fun hn ↦ ⟨hcycle.trans ⟨fun hc ↦ ?_, fun hl ↦ ?_⟩, fun hl ↦ ?_⟩⟩
  · by_contra hl
    obtain ⟨row, hrow⟩ := planned_push hi hplan hp hn hl
    exact hc.2 (schedulable_of_planned (hi.push hp) hrow)
  · exact ⟨(missingNames_push hk).mpr hn, not_schedulable_push hl⟩
  · obtain ⟨row, hrow⟩ := planned_push hi hplan hp hn hl
    have hbuild := build_eq_ok_iff.mpr ⟨_, (hrow : (g.push p).unplanned.planned = _), rfl⟩
    have hnew := Planned.of_reachable hg'.build (stores_build hrow)
    rw [← hpasses] at hnew ⊢
    have hsame : (g.push p).unplanned.build.2.passes = built.passes ++ [p] := by
      rw [passes_build, hpasses]
      rfl
    exact ⟨congrArg Prod.fst hbuild, schedule_push hplanned hsame hnew⟩

/-- A pass that grades what was painted. -/
def grade : Pass Unit :=
  { name := "Grade", reads := .ofList ["Color"], writes := .ofList ["Image"], after := ["Show"] }

/-- A pass that makes of what was painted the depth that it was painted with. -/
def mirror : Pass Unit :=
  { name := "Mirror", reads := .ofList ["Color"], writes := .ofList ["Depth"] }

private theorem not_closesLoop_grade : ¬ ClosesLoop painted grade := by
  rintro (hself | ⟨reader, hlt, ⟨resource, ⟨q, hq, hr⟩, ⟨_, hw, hm⟩, -⟩, -⟩)
  · revert hself
    decide
  · cases hw
    obtain rfl : resource = "Image" := List.mem_singleton.mp hm
    have hnone : ∀ q ∈ painted ++ [grade], "Image" ∉ q.reads.names := by decide
    exact hnone q (List.mem_of_getElem? hq) hr

private theorem closesLoop_mirror : ClosesLoop painted mirror := by
  have hreads : Reads (painted ++ [mirror]) 4 "Color" := ⟨mirror, rfl, by decide⟩
  have hwrites : LatestWriter (painted ++ [mirror]) 4 "Color" 1 :=
    latestWriter?_eq_some_iff.mp (by decide)
  refine .inr ⟨1, by decide, ⟨"Depth", ⟨painted[1], rfl, by decide⟩, ⟨mirror, rfl, by decide⟩, ?_⟩,
    .single ⟨"Color", hreads, hwrites⟩⟩
  rintro other hlt ⟨q, hq, hm⟩
  obtain rfl : other = 0 := Nat.lt_one_iff.mp hlt
  cases hq
  revert hm
  decide

theorem build_add_painted :
    (∃ g', (ofPasses "Painted" painted).build.2.add grade = .ok g' ∧
      g'.build.2.orderedNames = ["Clear", "Draw", "Log", "Show", "Grade"]) ∧
        ∃ g', (ofPasses "Painted" painted).build.2.add mirror = .ok g' ∧
          ∃ name, g'.build.1 = .error (.cycle name) := by
  have hg : (ofPasses "Painted" painted).Reachable := (reachable_ofPasses _ (by decide)).1
  have hb : (ofPasses "Painted" painted).build = (.ok (), (ofPasses "Painted" painted).build.2) :=
    Prod.ext (by decide +kernel) rfl
  constructor
  · obtain ⟨g', -, hadd, -, hbuild⟩ := build_add (p := grade) hg hb (by decide)
    rw [passes_ofPasses] at hbuild
    obtain ⟨-, hdone⟩ := hbuild (by decide)
    refine ⟨g', hadd, (hdone not_closesLoop_grade).2.1.trans (by decide +kernel)⟩
  · obtain ⟨g', -, hadd, -, hbuild⟩ := build_add (p := mirror) hg hb (by decide)
    rw [passes_ofPasses] at hbuild
    obtain ⟨hcycle, -⟩ := hbuild (by decide)
    exact ⟨g', hadd, hcycle.mpr closesLoop_mirror⟩

end PassGraph

end RenderKit
