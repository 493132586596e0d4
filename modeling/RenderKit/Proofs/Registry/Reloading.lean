import RenderKit.Proofs.Definition.Reading
import RenderKit.Proofs.Registry.Reachable

/-!
# What a check for changes takes up

While files are followed, a check replaces an entry exactly when its file changed and still holds a
definition of its name (`TakesUp`), by just that definition with the time of the file; every other
entry stays the object that it was. A second check finds nothing to do, also where a changed file
cannot be used and is looked at again each time.
-/

namespace RenderKit

namespace Registry

variable {r r' : Registry} {supply supply' : Supply} {files : FileTree}

/-- The file of an entry changed, and holds another definition of the entry's name. -/
def TakesUp (files : FileTree) (name : String) (entry : Registered) (fresh : TemplateDefinition) :
    Prop :=
  ∃ handle d backing file text read,
    entry = .followed handle d ∧ d.backing = some backing ∧
      files.file backing.path = .ok file ∧ file.modified ≠ backing.modified ∧
        file.text = some text ∧ TemplateDefinition.ofString text = .ok read ∧
          read.descriptor.name = name ∧
            { read with backing := some ⟨backing.path, file.modified⟩ } = fresh

/-! ### One entry -/

/-- A file that is there has changed when its time is another one. -/
theorem hasChanged_of_file {path : String} {file : File} (h : files.file path = .ok file)
    (recorded : Int) : files.hasChanged path recorded = (file.modified != recorded) := by
  rw [FileTree.file] at h
  obtain ⟨entry, hat, he⟩ := bind_eq_ok_iff.mp h
  cases entry with
  | file f =>
    cases he
    rw [FileTree.hasChanged, hat]
  | folder => cases he
  | missing => cases he

theorem takesUp_iff {name : String} {entry : Registered} {fresh : TemplateDefinition} :
    TakesUp files name entry fresh ↔ replacement? files name entry = some fresh := by
  rw [replacement?_eq_some_iff]
  constructor
  · rintro ⟨handle, d, backing, file, text, read, rfl, hb, hfile, hne, htext, hread, hname, rfl⟩
    refine ⟨handle, d, rfl, ?_, ?_, hname⟩
    · rw [TemplateDefinition.hasChanged, hb]
      simp [hasChanged_of_file hfile, hne]
    · rw [TemplateDefinition.reloaded, hb]
      exact TemplateDefinition.ofFile_eq_ok_iff.mpr ⟨file, text, read, hfile, htext, hread, rfl⟩
  · rintro ⟨handle, d, rfl, hchanged, hreloaded, hname⟩
    cases hb : d.backing with
    | none => simp [TemplateDefinition.hasChanged, hb] at hchanged
    | some backing =>
      rw [TemplateDefinition.reloaded, hb] at hreloaded
      obtain ⟨file, text, read, hfile, htext, hread, rfl⟩ :=
        TemplateDefinition.ofFile_eq_ok_iff.mp hreloaded
      rw [TemplateDefinition.hasChanged, hb] at hchanged
      simp only [hasChanged_of_file hfile, bne_iff_ne] at hchanged
      exact ⟨handle, d, backing, file, text, read, rfl, hb, hfile, hchanged, htext, hread, hname,
        rfl⟩

/-- A definition that was taken up is up to date. -/
theorem TakesUp.not_again {name : String} {entry : Registered} {fresh : TemplateDefinition}
    (h : TakesUp files name entry fresh) (handle : Nat) (other : TemplateDefinition) :
    ¬ TakesUp files name (.followed handle fresh) other := by
  obtain ⟨_, _, backing, file, _, _, -, -, hfile, -, -, -, -, rfl⟩ := h
  rintro ⟨_, _, backing', file', _, _, he, hb, hfile', hne, -⟩
  cases he
  cases hb
  rw [hfile] at hfile'
  cases hfile'
  exact hne rfl

/-! ### All entries -/

/-- Definitions took the places of entries; the other entries are as they were. -/
structure Replaced (changes : List (String × TemplateDefinition)) (r : Registry) (supply : Supply)
    (r' : Registry) : Prop where
  taken : ∀ name fresh, (name, fresh) ∈ changes →
    ∃ handle, supply.nextHandle ≤ handle ∧ r'.entries.get? name = some (.followed handle fresh)
  kept : ∀ name, name ∉ changes.map (·.1) → r'.entries.get? name = r.entries.get? name
  hotReload : r'.hotReload = r.hotReload
  names : r'.names = r.names

/-- Definitions of different names, all of them registered, are taken up one by one. -/
theorem replaced_foldl {changes : List (String × TemplateDefinition)}
    (hn : (changes.map (·.1)).Nodup) (hm : ∀ name ∈ changes.map (·.1), name ∈ r.names) :
    Replaced changes r supply (changes.foldl replace (r, supply)).1 := by
  induction changes generalizing r supply with
  | nil => exact ⟨by simp, fun _ _ ↦ rfl, rfl, rfl⟩
  | cons change changes ih =>
    obtain ⟨name, fresh⟩ := change
    simp only [List.map_cons, List.nodup_cons] at hn
    simp only [List.map_cons, List.forall_mem_cons] at hm
    have hnames : (replace (r, supply) (name, fresh)).1.names = r.names :=
      Table.names_insert r.entries _ hm.1
    -- The later changes concern other names, so what came under this one stays.
    have hrest : Replaced changes (replace (r, supply) (name, fresh)).1
        (replace (r, supply) (name, fresh)).2
        (((name, fresh) :: changes).foldl replace (r, supply)).1 :=
      ih hn.2 fun other ho ↦ hnames ▸ hm.2 other ho
    have hget : ∀ other, (replace (r, supply) (name, fresh)).1.entries.get? other =
        if other = name then some (.followed supply.nextHandle fresh)
        else r.entries.get? other := fun other ↦ Table.get?_insert ..
    refine ⟨fun other read ho ↦ ?_, fun other ho ↦ ?_, hrest.hotReload, hrest.names.trans hnames⟩
    · rcases List.mem_cons.mp ho with he | ho
      · cases he
        refine ⟨supply.nextHandle, Nat.le_refl _, ?_⟩
        rw [hrest.kept name hn.1, hget, if_pos rfl]
      · obtain ⟨handle, hle, hentry⟩ := hrest.taken other read ho
        exact ⟨handle, Nat.le_of_succ_le hle, hentry⟩
    · rw [List.map_cons, List.mem_cons, not_or] at ho
      rw [hrest.kept other ho.2, hget, if_neg ho.1]

/-- What a check for changes leaves of a registry whose files are followed: the entries whose files
changed are taken up as new objects, and counted, and the others are as they were. -/
structure Reloaded (files : FileTree) (r : Registry) (supply : Supply) (r' : Registry)
    (count : Nat) : Prop where
  taken : ∀ name entry fresh, r.entries.get? name = some entry → TakesUp files name entry fresh →
    ∃ handle, entry.shared.handle < supply.nextHandle ∧ supply.nextHandle ≤ handle ∧
      r'.entries.get? name = some (.followed handle fresh)
  kept : ∀ name, (∀ entry fresh, r.entries.get? name = some entry →
    ¬ TakesUp files name entry fresh) → r'.entries.get? name = r.entries.get? name
  counted : ∃ due : List String, due.Nodup ∧ due.length = count ∧
    ∀ name, name ∈ due ↔
      ∃ entry fresh, r.entries.get? name = some entry ∧ TakesUp files name entry fresh

theorem mem_map_replacements {name : String} :
    name ∈ (r.replacements files).map (·.1) ↔
      ∃ entry fresh, r.entries.get? name = some entry ∧ TakesUp files name entry fresh := by
  simp only [List.mem_map, Prod.exists, exists_and_right, exists_eq_right, mem_replacements,
    takesUp_iff]
  exact exists_comm

theorem nodup_map_replacements (r : Registry) (files : FileTree) :
    ((r.replacements files).map (·.1)).Nodup := by
  rw [List.Nodup, List.pairwise_map]
  refine r.entries.ordered.filterMap _ fun a b hlt change hc other ho he ↦ ?_
  obtain ⟨_, -, rfl⟩ := Option.map_eq_some_iff.mp hc
  obtain ⟨_, -, rfl⟩ := Option.map_eq_some_iff.mp ho
  exact String.lt_irrefl _ (he ▸ hlt)

theorem replaced_replacements (r : Registry) (supply : Supply) (files : FileTree) :
    Replaced (r.replacements files) r supply
      ((r.replacements files).foldl replace (r, supply)).1 := by
  refine replaced_foldl (nodup_map_replacements r files) fun name hm ↦ ?_
  obtain ⟨entry, -, hget, -⟩ := mem_map_replacements.mp hm
  rw [names, ← Table.contains_iff, Table.contains, hget]
  rfl

/-- What is taken up is what changed, each name once. -/
theorem Sound.reloaded (h : r.Sound supply) (hr : Replaced (r.replacements files) r supply r') :
    Reloaded files r supply r' (r.replacements files).length where
  taken := by
    intro name entry fresh hget ht
    obtain ⟨handle, hle, hentry⟩ :=
      hr.taken name fresh (mem_replacements.mpr ⟨entry, hget, takesUp_iff.mp ht⟩)
    exact ⟨handle, (h name entry hget).known, hle, hentry⟩
  kept := by
    intro name hnone
    refine hr.kept name fun hm ↦ ?_
    obtain ⟨entry, fresh, hget, ht⟩ := mem_map_replacements.mp hm
    exact hnone entry fresh hget ht
  counted := ⟨(r.replacements files).map (·.1), nodup_map_replacements r files, List.length_map _,
    fun _ ↦ mem_map_replacements⟩

/-- Behind a check nothing is left to take up. -/
theorem replacements_eq_nil (hr : Replaced (r.replacements files) r supply r') :
    r'.replacements files = [] := by
  rw [List.eq_nil_iff_forall_not_mem]
  rintro ⟨name, other⟩ hm
  obtain ⟨entry', hget', hrep'⟩ := mem_replacements.mp hm
  have ht' := takesUp_iff.mpr hrep'
  -- A replaced entry has the time of its file; any other entry was due before as well.
  by_cases hdue : name ∈ (r.replacements files).map (·.1)
  · obtain ⟨⟨_, fresh⟩, hfresh, rfl⟩ := List.mem_map.mp hdue
    obtain ⟨entry, hget, hrep⟩ := mem_replacements.mp hfresh
    obtain ⟨handle, -, hentry⟩ := hr.taken _ fresh hfresh
    rw [hget'] at hentry
    cases hentry
    exact (takesUp_iff.mpr hrep).not_again handle other ht'
  · rw [hr.kept name hdue] at hget'
    exact hdue (mem_map_replacements.mpr ⟨entry', other, hget', ht'⟩)

/-- A check takes up, as new objects, the entries whose files changed and still define their names,
and counts them; it keeps all other entries and all names, and a second check of the same files
finds nothing to do. While files are not followed a check does nothing. -/
theorem Reachable.checkForChanges_settles (h : r.Reachable supply) {count : Nat}
    (hc : r.checkForChanges files supply = (r', supply', count)) :
    (r.hotReload = false → r' = r ∧ supply' = supply ∧ count = 0) ∧
      (r.hotReload = true → Reloaded files r supply r' count) ∧
        r'.names = r.names ∧ r'.hotReload = r.hotReload ∧
          ∀ later, r'.checkForChanges files later = (r', later, 0) := by
  rw [Registry.checkForChanges] at hc
  cases hon : r.hotReload with
  | false =>
    rw [hon, if_neg Bool.false_ne_true] at hc
    cases hc
    refine ⟨fun _ ↦ ⟨rfl, rfl, rfl⟩, fun h ↦ absurd h Bool.false_ne_true, rfl, hon, fun later ↦ ?_⟩
    rw [Registry.checkForChanges, hon, if_neg Bool.false_ne_true]
  | true =>
    have hr := replaced_replacements r supply files
    rw [hon, if_pos rfl] at hc
    cases hc
    refine ⟨fun h ↦ absurd h.symm Bool.false_ne_true, fun _ ↦ h.sound.reloaded hr, hr.names,
      hr.hotReload.trans hon, fun later ↦ ?_⟩
    rw [Registry.checkForChanges, hr.hotReload, hon, if_pos rfl, replacements_eq_nil hr]
    rfl

/-- A definition without pins. -/
def plain (name : String) (segments : List Segment) (backing : Option Backing) :
    TemplateDefinition :=
  { descriptor := ⟨name, "Custom", "", [], []⟩, segments := segments, backing := backing }

/-- A registry that follows a file of time 1. -/
def following : Registry where
  entries := Table.empty.insert "Glow" (.followed 0 (plain "Glow" [] (some ⟨"glow.json", 1⟩)))
  hotReload := true

/-- A registry that follows two files of time 1. -/
def followingBoth : Registry where
  entries := following.entries.insert "Wave"
    (.followed 1 (plain "Wave" [] (some ⟨"wave.json", 1⟩)))
  hotReload := true

/-- Both files at time 2; one of them holds another name. -/
def oneRenamed : FileTree where
  files :=
    [(["glow.json"], ⟨some "\x7b\"name\":\"Gleam\",\"code\":\"a\"\x7d", 2⟩),
      (["wave.json"], ⟨some "\x7b\"name\":\"Wave\",\"code\":\"a\"\x7d", 2⟩)]
  distinct := by decide

theorem reachable_following : following.Reachable { nextHandle := 1 } := by
  refine .registerTemplate (d := plain "Glow" [] (some ⟨"glow.json", 1⟩))
    (.setHotReload true (.empty {})) ?_
  exact registerTemplate_eq_ok_iff.mpr ⟨insert_eq_ok_iff.mpr ⟨by decide, by decide, rfl⟩, rfl⟩

private theorem reachable_followingBoth : followingBoth.Reachable { nextHandle := 2 } := by
  refine .registerTemplate (d := plain "Wave" [] (some ⟨"wave.json", 1⟩)) reachable_following ?_
  exact registerTemplate_eq_ok_iff.mpr ⟨insert_eq_ok_iff.mpr ⟨by decide, by decide, rfl⟩, rfl⟩

/-- A definition without pins and with one letter of code is read as it is written. -/
theorem ofString_eq_plain {text name : String} (ht : Text.allBlank name = false)
    (h : (Json.Value.ofString? text >>= DefinitionRecord.ofJson?) =
      some ⟨name, "Custom", "", [], [], "a"⟩) :
    TemplateDefinition.ofString text = .ok (plain name [.text "a"] none) := by
  have hparse : Template.parse [] [] "a".toList = .ok [.text "a"] :=
    Template.parse_of_cut?_eq_none (by decide)
  rw [TemplateDefinition.ofString, h]
  exact TemplateDefinition.ofRecord_eq_ok_iff.mpr
    ⟨ht, Nat.zero_lt_succ _, rfl, rfl, [.text "a"], hparse, rfl⟩

private theorem takesUp_wave :
    TakesUp oneRenamed "Wave" (.followed 1 (plain "Wave" [] (some ⟨"wave.json", 1⟩)))
      (plain "Wave" [.text "a"] (some ⟨"wave.json", 2⟩)) :=
  ⟨1, _, _, ⟨_, 2⟩, _, plain "Wave" [.text "a"] none, rfl, rfl, rfl, by decide, rfl,
    ofString_eq_plain (by decide) (by decide), rfl, rfl⟩

private theorem not_takesUp_glow (fresh : TemplateDefinition) :
    ¬ TakesUp oneRenamed "Glow" (.followed 0 (plain "Glow" [] (some ⟨"glow.json", 1⟩))) fresh := by
  rintro ⟨_, _, _, file, text, read, he, hb, hfile, -, htext, hread, hname, -⟩
  cases he
  cases hb
  have hglow : oneRenamed.file "glow.json" =
      .ok ⟨some "\x7b\"name\":\"Gleam\",\"code\":\"a\"\x7d", 2⟩ := rfl
  rw [hglow] at hfile
  cases hfile
  cases htext
  have hgleam : TemplateDefinition.ofString "\x7b\"name\":\"Gleam\",\"code\":\"a\"\x7d" =
      .ok (plain "Gleam" [.text "a"] none) := ofString_eq_plain (by decide) (by decide)
  rw [hgleam] at hread
  cases hread
  exact absurd hname (by decide)

private theorem takesUp_oneRenamed_iff (name : String) :
    (∃ entry fresh, followingBoth.entries.get? name = some entry ∧
      TakesUp oneRenamed name entry fresh) ↔ name = "Wave" := by
  constructor
  · rintro ⟨entry, fresh, hget, ht⟩
    rw [followingBoth, Table.get?_insert] at hget
    split at hget
    · assumption
    · rw [following, Table.get?_insert] at hget
      split at hget
      · next hglow =>
        cases hget
        subst hglow
        exact absurd ht (not_takesUp_glow fresh)
      · cases hget
  · rintro rfl
    exact ⟨_, _, rfl, takesUp_wave⟩

theorem checkForChanges_settles_oneRenamed :
    ∃ reloaded supply handle, 2 ≤ handle ∧
      followingBoth.checkForChanges oneRenamed { nextHandle := 2 } = (reloaded, supply, 1) ∧
        reloaded.entries.get? "Wave" = some (.followed handle
          (plain "Wave" [.text "a"] (some ⟨"wave.json", 2⟩))) ∧
          reloaded.entries.get? "Glow" = followingBoth.entries.get? "Glow" ∧
            reloaded.names = ["Glow", "Wave"] ∧
              ∀ later, reloaded.checkForChanges oneRenamed later = (reloaded, later, 0) := by
  cases hc : followingBoth.checkForChanges oneRenamed { nextHandle := 2 } with
  | mk reloaded rest =>
    obtain ⟨supply, count⟩ := rest
    obtain ⟨-, hreloaded, hnames, -, hagain⟩ := reachable_followingBoth.checkForChanges_settles hc
    obtain ⟨htaken, hkept, due, hnodup, hlength, hdue⟩ := hreloaded rfl
    obtain ⟨handle, -, hle, hget⟩ := htaken "Wave" _ _ rfl takesUp_wave
    simp only [takesUp_oneRenamed_iff] at hdue
    obtain rfl : count = 1 := by
      have hperm : due.Perm ["Wave"] :=
        (List.perm_ext_iff_of_nodup hnodup (by decide)).mpr (by simpa using hdue)
      rw [← hlength, hperm.length_eq]
      rfl
    refine ⟨reloaded, supply, handle, hle, rfl, hget, hkept "Glow" ?_, hnames, hagain⟩
    intro entry fresh hentry
    cases hentry
    exact not_takesUp_glow fresh

end Registry

end RenderKit
