import RenderKit.Proofs.Refusal
import RenderKit.Registry

/-!
# Reachable registries

The registries that operations lead to, with the supply of handles beside them and any files at
every step. Every entry stands under the name of its own definition, which is not blank, and its
handle was given out before (`Reachable.sound`); each operation keeps this, also where a changed
file takes the place of an entry.
-/

namespace RenderKit

/-- An entry stands under a name: it is its definition's, it is not blank, and the handle was given
out. -/
structure Registered.Stands (entry : Registered) (name : String) (supply : Supply) : Prop where
  titled : Text.allBlank name = false
  named : entry.shared.name = name
  known : entry.shared.handle < supply.nextHandle

namespace Registry

variable {r r' : Registry} {supply supply' : Supply}

/-! ### When operations succeed -/

theorem insert_eq_ok_iff {name : String} {entry : Registered} :
    r.insert name entry = .ok r' ↔
      Text.allBlank name = false ∧ r.contains name = false ∧
        { r with entries := r.entries.insert name entry } = r' := by
  rw [insert]
  cases Text.allBlank name with
  | true => simp
  | false => cases r.contains name <;> simp

theorem registerTemplate_eq_ok_iff {d : TemplateDefinition} :
    r.registerTemplate d supply = .ok (r', supply') ↔
      r.insert d.descriptor.name (.followed supply.nextHandle d) = .ok r' ∧
        { supply with nextHandle := supply.nextHandle + 1 } = supply' := by
  rw [registerTemplate, map_eq_ok_iff]
  simp [Supply.share]

theorem unregister_eq_ok_iff {name : String} {d : SharedDefinition} :
    r.unregister name = .ok (d, r') ↔
      r.get? name = some d ∧ { r with entries := r.entries.erase name } = r' := by
  rw [unregister]
  cases r.get? name <;> simp

/-! ### Reachable registries -/

/-- The registries that operations lead to, and the supply at hand. Other parts of a program may
take handles at any time, and a definition that is registered as it is came into use before. -/
inductive Reachable : Registry → Supply → Prop where
  | empty (supply : Supply) : Reachable .empty supply
  | elsewhere {r : Registry} {supply supply' : Supply} :
      Reachable r supply → supply.nextHandle ≤ supply'.nextHandle → Reachable r supply'
  | setHotReload {r : Registry} {supply : Supply} (on : Bool) :
      Reachable r supply → Reachable (r.setHotReload on) supply
  | register {r r' : Registry} {supply : Supply} {d : SharedDefinition} :
      Reachable r supply → d.handle < supply.nextHandle → r.register d = .ok r' →
        Reachable r' supply
  | registerTemplate {r r' : Registry} {supply supply' : Supply} {d : TemplateDefinition} :
      Reachable r supply → r.registerTemplate d supply = .ok (r', supply') → Reachable r' supply'
  | unregister {r r' : Registry} {supply : Supply} {name : String} {d : SharedDefinition} :
      Reachable r supply → r.unregister name = .ok (d, r') → Reachable r' supply
  | loadFolder {r r' : Registry} {supply supply' : Supply} {files : FileTree} {path : String}
      {recursive : Bool} {count : Nat} :
      Reachable r supply → r.loadFolder files path recursive supply = .ok (r', supply', count) →
        Reachable r' supply'
  | applySettings {r r' : Registry} {supply supply' : Supply} {settings : Settings}
      {files : FileTree} {count : Nat} :
      Reachable r supply → r.applySettings settings files supply = (r', supply', count) →
        Reachable r' supply'
  | checkForChanges {r r' : Registry} {supply supply' : Supply} {files : FileTree} {count : Nat} :
      Reachable r supply → r.checkForChanges files supply = (r', supply', count) →
        Reachable r' supply'

/-- All entries stand under their names. -/
def Sound (r : Registry) (supply : Supply) : Prop :=
  ∀ name entry, r.entries.get? name = some entry → entry.Stands name supply

/-- A registered definition is found under its own name. -/
theorem Sound.name_eq (h : r.Sound supply) {name : String} {d : SharedDefinition}
    (hd : r.get? name = some d) : d.name = name := by
  obtain ⟨entry, hentry, rfl⟩ := Option.map_eq_some_iff.mp hd
  exact (h name entry hentry).named

theorem Sound.later (h : r.Sound supply) (hs : supply.nextHandle ≤ supply'.nextHandle) :
    r.Sound supply' := fun name entry he ↦
  ⟨(h name entry he).titled, (h name entry he).named, Nat.lt_of_lt_of_le (h name entry he).known hs⟩

theorem Sound.share (h : r.Sound supply) (d : Definition) : r.Sound (supply.share d).2 :=
  h.later (Nat.le_succ _)

/-- An entry may come under its name, also in the place of another. -/
theorem Sound.put (h : r.Sound supply) {name : String} {entry : Registered}
    (he : entry.Stands name supply) :
    ({ r with entries := r.entries.insert name entry } : Registry).Sound supply := by
  intro other entry' hget
  rw [Table.get?_insert] at hget
  split at hget
  · next hname =>
    cases hget
    exact hname ▸ he
  · exact h other entry' hget

theorem Sound.insert (h : r.Sound supply) (entry : Registered)
    (hk : entry.shared.handle < supply.nextHandle)
    (hr : r.insert entry.shared.name entry = .ok r') : r'.Sound supply := by
  obtain ⟨ht, -, rfl⟩ := insert_eq_ok_iff.mp hr
  exact h.put ⟨ht, rfl, hk⟩

theorem Sound.unregister (h : r.Sound supply) {name : String} {d : SharedDefinition}
    (hr : r.unregister name = .ok (d, r')) : r'.Sound supply := by
  obtain ⟨-, rfl⟩ := unregister_eq_ok_iff.mp hr
  intro other entry hget
  rw [Table.get?_erase] at hget
  split at hget
  · cases hget
  · exact h other entry hget

theorem Sound.registerTemplate (h : r.Sound supply) {d : TemplateDefinition}
    (hr : r.registerTemplate d supply = .ok (r', supply')) : r'.Sound supply' := by
  obtain ⟨hinsert, rfl⟩ := registerTemplate_eq_ok_iff.mp hr
  exact (h.share (.template d)).insert (.followed supply.nextHandle d) (Nat.lt_succ_self _) hinsert

/-! ### Folders -/

private theorem Sound.loadFile {files : FileTree} {state : Registry × Supply × Nat}
    (h : state.1.Sound state.2.1) (path : String) :
    (loadFile files state path).1.Sound (loadFile files state path).2.1 := by
  obtain ⟨r, supply, count⟩ := state
  simp only [Registry.loadFile]
  split
  · exact h
  · split
    · exact h
    · next hr => exact Sound.registerTemplate h hr

private theorem Sound.loadFolder (h : r.Sound supply) {files : FileTree} {path : String}
    {recursive : Bool} {count : Nat}
    (hr : r.loadFolder files path recursive supply = .ok (r', supply', count)) :
    r'.Sound supply' := by
  rw [Registry.loadFolder] at hr
  split at hr
  · have hfold := List.foldlRecOn (definitionFiles files path recursive)
      (motive := fun state : Registry × Supply × Nat ↦ state.1.Sound state.2.1)
      (Registry.loadFile files) (b := (r, supply, 0)) h fun _ hs path _ ↦ hs.loadFile path
    rwa [Except.ok.inj hr] at hfold
  · cases hr

private theorem Sound.applyFolder {files : FileTree} {recursive : Bool}
    {state : Registry × Supply × Nat} (h : state.1.Sound state.2.1) (path : String) :
    (applyFolder files recursive state path).1.Sound
      (applyFolder files recursive state path).2.1 := by
  obtain ⟨r, supply, count⟩ := state
  simp only [Registry.applyFolder]
  split
  · exact h
  · next hr => exact Sound.loadFolder h hr

theorem Sound.applySettings (h : r.Sound supply) {settings : Settings} {files : FileTree}
    {count : Nat} (hr : r.applySettings settings files supply = (r', supply', count)) :
    r'.Sound supply' := by
  have hfold := List.foldlRecOn settings.folders
    (motive := fun state : Registry × Supply × Nat ↦ state.1.Sound state.2.1)
    (Registry.applyFolder files settings.recursive)
    (b := (r.setHotReload settings.hotReload, supply, 0)) h fun _ hs path _ ↦ hs.applyFolder path
  rw [Registry.applySettings] at hr
  rwa [hr] at hfold

/-! ### Changed files -/

/-- An entry is to be replaced when its file changed and still holds a definition of its name. -/
theorem replacement?_eq_some_iff {files : FileTree} {name : String} {entry : Registered}
    {fresh : TemplateDefinition} :
    replacement? files name entry = some fresh ↔
      ∃ handle d, entry = .followed handle d ∧ d.hasChanged files = true ∧
        d.reloaded files = .ok fresh ∧ fresh.descriptor.name = name := by
  cases entry with
  | fixed d => simp [replacement?]
  | followed handle d =>
    simp only [replacement?, Registered.followed.injEq, and_assoc, exists_and_left, exists_eq_left']
    cases d.hasChanged files with
    | false => simp
    | true =>
      cases d.reloaded files with
      | error e => simp
      | ok found =>
        by_cases hn : found.descriptor.name = name
        · simp only [if_true, hn, Option.some.injEq, Except.ok.injEq, true_and]
          exact ⟨fun he ↦ ⟨he, he ▸ hn⟩, And.left⟩
        · simp only [if_true, hn, if_false, reduceCtorEq, Except.ok.injEq, true_and, false_iff]
          rintro ⟨rfl, hname⟩
          exact hn hname

theorem mem_replacements {files : FileTree} {name : String} {fresh : TemplateDefinition} :
    (name, fresh) ∈ r.replacements files ↔
      ∃ entry, r.entries.get? name = some entry ∧ replacement? files name entry = some fresh := by
  simp only [replacements, List.mem_filterMap, Option.map_eq_some_iff, Prod.exists, Prod.mk.injEq,
    ← Table.get?_eq_some_iff]
  constructor
  · rintro ⟨_, entry, hget, _, hr, rfl, rfl⟩
    exact ⟨entry, hget, hr⟩
  · rintro ⟨entry, hget, hr⟩
    exact ⟨name, entry, hget, fresh, hr, rfl, rfl⟩

private theorem Sound.replace {state : Registry × Supply} (h : state.1.Sound state.2)
    {change : String × TemplateDefinition} (ht : Text.allBlank change.1 = false)
    (hn : change.2.descriptor.name = change.1) :
    (replace state change).1.Sound (replace state change).2 := by
  obtain ⟨r, supply⟩ := state
  exact (h.share (.template change.2)).put ⟨ht, hn, Nat.lt_succ_self _⟩

theorem Sound.checkForChanges (h : r.Sound supply) {files : FileTree} {count : Nat}
    (hr : r.checkForChanges files supply = (r', supply', count)) : r'.Sound supply' := by
  rw [Registry.checkForChanges] at hr
  split at hr
  · have hfold := List.foldlRecOn (r.replacements files)
      (motive := fun state : Registry × Supply ↦ state.1.Sound state.2)
      Registry.replace (b := (r, supply)) h fun _ hs change hm ↦ by
        obtain ⟨entry, hget, hrep⟩ := mem_replacements.mp hm
        obtain ⟨-, -, -, -, -, hname⟩ := replacement?_eq_some_iff.mp hrep
        exact hs.replace (h _ entry hget).titled hname
    cases hr
    exact hfold
  · cases hr
    exact h

/-- In a reachable registry every entry stands under its name. -/
theorem Reachable.sound (h : r.Reachable supply) : r.Sound supply := by
  induction h with
  | empty supply =>
    intro name entry hget
    cases hget
  | elsewhere _ hs ih => exact ih.later hs
  | setHotReload on _ ih => exact ih
  | @register _ _ _ d _ hk hr ih => exact ih.insert (.fixed d) hk hr
  | registerTemplate _ hr ih => exact ih.registerTemplate hr
  | unregister _ hr ih => exact ih.unregister hr
  | loadFolder _ hr ih => exact ih.loadFolder hr
  | applySettings _ hr ih => exact ih.applySettings hr
  | checkForChanges _ hr ih => exact ih.checkForChanges hr

end Registry

end RenderKit
