import RenderKit.Proofs.Document.Decoding
import RenderKit.Proofs.Registry.Reloading
import RenderKit.Document.Loading
import RenderKit.Shader.Graph.Refresh

/-!
# Registered names

A name leads to the same entry on all ways. Registering refuses just the blank names and those that
are taken, by whatever kind of entry, so no way of registering touches the entries that are there
(`Extends`). A node that is made under a name is saved under it, and goes by the entry of that name
when it is loaded or refreshed (`Node.GoesBy`), since in a reachable registry definitions stand
under their own names.
-/

namespace RenderKit

/-- A node goes by a name: it is saved under it, and read as such, and with any registry it is loaded
or refreshed as what that holds under the name then. -/
structure Node.GoesBy (node : Node) (name : String) : Prop where
  saved : (NodeRecord.ofNode node).kind = .custom name
  read : KindRecord.ofMembers? (NodeRecord.ofNode node).kind.members = some (.custom name)
  loaded : ∀ later : Registry, ∀ d, later.get? name = some d →
    (NodeRecord.ofNode node).kind.toKind later = .ok (.custom d)
  refreshed : ∀ later : Registry, ∀ d, later.get? name = some d →
    ∃ held, (node.refreshed later).kind = .custom held ∧ d.same held = true
  missing : ∀ later : Registry, later.get? name = none →
    (NodeRecord.ofNode node).kind.toKind later = .error (.unknownCustomNode name) ∧
      node.refreshed later = node

/-- A node of a definition goes by the name of the definition. -/
theorem Node.goesBy_name {node : Node} {held : SharedDefinition} (h : node.kind = .custom held) :
    node.GoesBy held.name := by
  have hkind : (NodeRecord.ofNode node).kind = .custom held.name := by
    rw [NodeRecord.ofNode, h]
    rfl
  have hreplacement : ∀ later : Registry,
      node.replacement? later = (later.get? held.name).filter fun d ↦ !d.same held := by
    intro later
    rw [replacement?, h]
  refine ⟨hkind, ?_, fun later d hd ↦ ?_, fun later d hd ↦ ?_, fun later hd ↦ ⟨?_, ?_⟩⟩
  · rw [KindRecord.ofMembers?_members, hkind]
  · rw [hkind, KindRecord.toKind, hd]
  · by_cases hsame : d.same held = true
    · refine ⟨held, ?_, hsame⟩
      rw [Node.refreshed, hreplacement, hd, Option.filter_some, if_neg (by simp [hsame])]
      exact h
    · refine ⟨d, ?_, beq_self_eq_true d.handle⟩
      rw [Node.refreshed, hreplacement, hd, Option.filter_some, if_pos (by simp [hsame])]
      rfl
  · rw [hkind, KindRecord.toKind, hd]
  · rw [Node.refreshed, hreplacement, hd]
    rfl

namespace Registry

variable {r r' : Registry} {supply supply' : Supply} {files : FileTree}

/-- What registering an entry comes to: it is refused exactly if its name is blank or taken, and
else the entry stands under its name and all others are as they were. -/
structure Registers (r : Registry) (entry : Registered) (result : Except RegistryError Registry) :
    Prop where
  refused_iff : (∃ e, result = .error e) ↔
    Text.allBlank entry.shared.name = true ∨ ∃ other, r.entries.get? entry.shared.name = some other
  blank : Text.allBlank entry.shared.name = true → result = .error (.definition .emptyName)
  taken : Text.allBlank entry.shared.name = false → ∀ other,
    r.entries.get? entry.shared.name = some other →
      result = .error (.duplicateDefinition entry.shared.name)
  added : ∀ r', result = .ok r' → r'.hotReload = r.hotReload ∧
    ∀ name, r'.entries.get? name =
      if name = entry.shared.name then some entry else r.entries.get? name

theorem contains_eq_false_iff {name : String} :
    r.contains name = false ↔ r.entries.get? name = none := by
  rw [contains, Table.contains, Option.isSome_eq_false_iff, Option.isNone_iff_eq_none]

theorem registers_insert (r : Registry) (entry : Registered) :
    r.Registers entry (r.insert entry.shared.name entry) := by
  have hblank : Text.allBlank entry.shared.name = true →
      r.insert entry.shared.name entry = .error (.definition .emptyName) := by
    intro hb
    rw [insert, if_pos hb]
  have htaken : Text.allBlank entry.shared.name = false → ∀ other,
      r.entries.get? entry.shared.name = some other →
        r.insert entry.shared.name entry = .error (.duplicateDefinition entry.shared.name) := by
    intro hb other ho
    have hc : r.contains entry.shared.name = true := by
      rw [contains, Table.contains, ho]
      rfl
    rw [insert, if_neg (by simp [hb]), if_pos hc]
  have hadded : ∀ r', r.insert entry.shared.name entry = .ok r' ↔
      Text.allBlank entry.shared.name = false ∧ r.entries.get? entry.shared.name = none ∧
        { r with entries := r.entries.insert entry.shared.name entry } = r' := by
    intro r'
    rw [insert_eq_ok_iff, contains_eq_false_iff]
  refine ⟨⟨?_, ?_⟩, hblank, htaken, fun r' hr ↦ ?_⟩
  · rintro ⟨e, he⟩
    by_contra hfree
    rw [not_or, Bool.not_eq_true, not_exists] at hfree
    have hok := (hadded _).mpr ⟨hfree.1, Option.eq_none_iff_forall_ne_some.mpr hfree.2, rfl⟩
    cases he.symm.trans hok
  · rintro (hb | ⟨other, ho⟩)
    · exact ⟨_, hblank hb⟩
    · cases hb : Text.allBlank entry.shared.name with
      | true => exact ⟨_, hblank hb⟩
      | false => exact ⟨_, htaken hb other ho⟩
  · obtain ⟨-, -, rfl⟩ := (hadded r').mp hr
    exact ⟨rfl, fun name ↦ Table.get?_insert _ _ _ _⟩

/-- A definition that is registered from its document is registered as one that follows its
file. -/
theorem map_registerTemplate (r : Registry) (d : TemplateDefinition) (supply : Supply) :
    (r.registerTemplate d supply).map Prod.fst =
      r.insert d.descriptor.name (.followed supply.nextHandle d) := by
  show ((r.insert d.descriptor.name (.followed supply.nextHandle d)).map fun r ↦ (r, _)).map _ = _
  cases r.insert d.descriptor.name (.followed supply.nextHandle d) <;> rfl

/-! ### Folders -/

/-- All entries are still there. -/
def Extends (r r' : Registry) : Prop :=
  ∀ name entry, r.entries.get? name = some entry → r'.entries.get? name = some entry

theorem Extends.refl (r : Registry) : r.Extends r :=
  fun _ _ he ↦ he

theorem Extends.trans {r'' : Registry} (h : r.Extends r') (h' : r'.Extends r'') : r.Extends r'' :=
  fun name entry he ↦ h' name entry (h name entry he)

/-- What is registered takes no other's place. -/
theorem extends_of_insert {name : String} {entry : Registered}
    (h : r.insert name entry = .ok r') : r.Extends r' := by
  obtain ⟨-, hfree, rfl⟩ := insert_eq_ok_iff.mp h
  rw [contains_eq_false_iff] at hfree
  intro other entry' ho
  have hne : other ≠ name := by
    rintro rfl
    cases hfree.symm.trans ho
  rw [Table.get?_insert, if_neg hne]
  exact ho

theorem extends_loadFile (files : FileTree) (state : Registry × Supply × Nat) (path : String) :
    state.1.Extends (loadFile files state path).1 := by
  obtain ⟨r, supply, count⟩ := state
  simp only [loadFile]
  split
  · exact .refl r
  · split
    · exact .refl r
    · next hr => exact extends_of_insert (registerTemplate_eq_ok_iff.mp hr).1

/-- A file whose definition is refused changes nothing. -/
theorem loadFile_of_refused {path : String} {d : TemplateDefinition} {e : RegistryError}
    (hd : TemplateDefinition.ofFile files path = .ok d) (he : r.registerTemplate d supply = .error e)
    (count : Nat) : loadFile files (r, supply, count) path = (r, supply, count) := by
  simp only [loadFile, hd, he]

/-- No file of a folder touches the entries that are there. -/
theorem extends_loadFolder {path : String} {recursive : Bool} {count : Nat}
    (h : r.loadFolder files path recursive supply = .ok (r', supply', count)) : r.Extends r' := by
  rw [loadFolder] at h
  split at h
  · have hfold := List.foldlRecOn (definitionFiles files path recursive)
      (motive := fun state : Registry × Supply × Nat ↦ r.Extends state.1) (loadFile files)
      (b := (r, supply, 0)) (.refl r) fun state hs path _ ↦
        hs.trans (extends_loadFile files state path)
    rwa [Except.ok.inj h] at hfold
  · cases h

theorem extends_applyFolder (files : FileTree) (recursive : Bool)
    (state : Registry × Supply × Nat) (path : String) :
    state.1.Extends (applyFolder files recursive state path).1 := by
  obtain ⟨r, supply, count⟩ := state
  simp only [applyFolder]
  split
  · exact .refl r
  · next h => exact extends_loadFolder h

/-- No folder of the settings touches the entries that are there. -/
theorem extends_applySettings {settings : Settings} {count : Nat}
    (h : r.applySettings settings files supply = (r', supply', count)) : r.Extends r' := by
  have hfold := List.foldlRecOn settings.folders
    (motive := fun state : Registry × Supply × Nat ↦ r.Extends state.1)
    (applyFolder files settings.recursive) (b := (r.setHotReload settings.hotReload, supply, 0))
    (.refl r) fun state hs path _ ↦ hs.trans (extends_applyFolder files _ state path)
  rw [applySettings] at h
  rwa [h] at hfold

/-! ### Nodes -/

/-- A node of a registered definition is made, and goes by the name. -/
theorem Sound.exists_createNode (h : r.Sound supply) {name : String} {entry : Registered}
    (he : r.entries.get? name = some entry) (now : Supply) :
    ∃ node, r.createNode name now = .ok (node, now.afterNode) ∧ node.kind = .custom entry.shared ∧
      node.GoesBy name := by
  have hget : r.get? name = some entry.shared := by
    rw [get?, he]
    rfl
  refine ⟨.ofKind now.nextNode (.custom entry.shared), ?_, rfl, ?_⟩
  · simp only [createNode, hget]
    rfl
  · have hname := (h name entry he).named
    exact hname ▸ Node.goesBy_name rfl

/-- In a reachable registry every entry stands under a name that is not blank and is its own
definition's. Registering, as it is or from a document, is refused for blank names and for taken
ones only, and neither it nor a search of folders touches the entries that are there. A node that is
made under a name goes by that name. -/
theorem Reachable.names_agree (h : r.Reachable supply) :
    (∀ name entry, r.entries.get? name = some entry →
        Text.allBlank name = false ∧ entry.shared.descriptor.name = name) ∧
      (∀ d, r.Registers (.fixed d) (r.register d)) ∧
      (∀ d now, r.Registers (.followed now.nextHandle d)
        ((r.registerTemplate d now).map Prod.fst)) ∧
      (∀ files path d e now count, TemplateDefinition.ofFile files path = .ok d →
        r.registerTemplate d now = .error e →
          loadFile files (r, now, count) path = (r, now, count)) ∧
      (∀ files path recursive now r' later count,
        r.loadFolder files path recursive now = .ok (r', later, count) → r.Extends r') ∧
      (∀ settings files now r' later count,
        r.applySettings settings files now = (r', later, count) → r.Extends r') ∧
      ∀ name entry, r.entries.get? name = some entry → ∀ now, ∃ node,
        r.createNode name now = .ok (node, now.afterNode) ∧ node.kind = .custom entry.shared ∧
          node.GoesBy name := by
  refine ⟨fun name entry he ↦ ?_, fun d ↦ registers_insert r (.fixed d), fun d now ↦ ?_, ?_, ?_, ?_,
    fun name entry he now ↦ h.sound.exists_createNode he now⟩
  · obtain ⟨htitled, hnamed, -⟩ := h.sound name entry he
    exact ⟨htitled, hnamed⟩
  · rw [map_registerTemplate]
    exact registers_insert r (.followed now.nextHandle d)
  · exact fun _ _ _ _ _ count hd he ↦ loadFile_of_refused hd he count
  · exact fun _ _ _ _ _ _ _ hr ↦ extends_loadFolder hr
  · exact fun _ _ _ _ _ _ hr ↦ extends_applySettings hr

theorem names_agree_following :
    following.register ⟨1, .template (plain "Glow" [] none)⟩ = .error (.duplicateDefinition "Glow") ∧
      following.register ⟨1, .template (plain " " [] none)⟩ = .error (.definition .emptyName) ∧
      ∃ node, following.createNode "Glow" { nextNode := 7 } = .ok (node, { nextNode := 8 }) ∧
        node.GoesBy "Glow" := by
  obtain ⟨-, hregister, -, -, -, -, hcreate⟩ := reachable_following.names_agree
  obtain ⟨node, hnode, -, hgoes⟩ := hcreate "Glow" _ rfl { nextNode := 7 }
  exact ⟨(hregister ⟨1, .template (plain "Glow" [] none)⟩).taken (by decide) _ rfl,
    (hregister ⟨1, .template (plain " " [] none)⟩).blank (by decide), node, hnode, hgoes⟩

end Registry

end RenderKit
