import RenderKit.CommandLine
import RenderKit.Proofs.Registry.Candidates
import RenderKit.Proofs.Registry.Registration
import Mathlib.Data.List.Induction

/-!
# What a search of folders finds

The folders of the settings are searched one after the other, and each file registers its definition
if the name is free (`loadFile_of_free`), so a name goes to the first file that defines it
(`loaded_foldl`). That file is described without the run: it is in the first folder that holds a
definition of the name at all, and there it is the least one in the order of places (`Finds`).
Files that cannot be used take no part in the description, and neither does the order in which a
tree lists what it has.
-/

namespace RenderKit

namespace Registry

variable {r : Registry} {supply : Supply} {files : FileTree} {recursive : Bool}
  {dir name path : String} {d : TemplateDefinition} {state : Registry × Supply × Nat}

/-- A name stands for a definition that follows its file. -/
def Follows (r : Registry) (name : String) (d : TemplateDefinition) : Prop :=
  ∃ handle, r.entries.get? name = some (.followed handle d)

/-! ### One file -/

/-- The definition of a name that a file holds. -/
def definitionOf? (files : FileTree) (name path : String) : Option TemplateDefinition :=
  match TemplateDefinition.ofFile files path with
  | .error _ => none
  | .ok d => if d.descriptor.name = name then some d else none

theorem definitionOf?_eq_some_iff :
    definitionOf? files name path = some d ↔
      TemplateDefinition.ofFile files path = .ok d ∧ d.descriptor.name = name := by
  rw [definitionOf?]
  cases TemplateDefinition.ofFile files path with
  | error e => simp
  | ok read =>
    by_cases hn : read.descriptor.name = name
    · simp only [if_pos hn, Option.some.injEq, Except.ok.injEq]
      exact ⟨fun he ↦ ⟨he, he ▸ hn⟩, And.left⟩
    · simp only [if_neg hn, reduceCtorEq, Except.ok.injEq, false_iff]
      rintro ⟨rfl, hname⟩
      exact hn hname

theorem loadFile_of_error {e : DefinitionError}
    (h : TemplateDefinition.ofFile files path = .error e) : loadFile files state path = state := by
  simp only [loadFile, h]

/-- A definition whose name is taken is left out. -/
theorem loadFile_of_taken {entry : Registered} (h : TemplateDefinition.ofFile files path = .ok d)
    (ht : state.1.entries.get? d.descriptor.name = some entry) :
    loadFile files state path = state := by
  have hinsert := (registers_insert state.1 (.followed state.2.1.nextHandle d)).taken
    (TemplateDefinition.allBlank_of_ofFile h) entry ht
  have hregister : state.1.registerTemplate d state.2.1 =
      .error (.duplicateDefinition d.descriptor.name) := map_eq_error_iff.mpr hinsert
  exact loadFile_of_refused h hregister state.2.2

/-- A definition whose name is free is registered. -/
theorem loadFile_of_free (h : TemplateDefinition.ofFile files path = .ok d)
    (hfree : state.1.entries.get? d.descriptor.name = none) :
    loadFile files state path =
      ({ state.1 with
          entries := state.1.entries.insert d.descriptor.name
            (.followed state.2.1.nextHandle d) },
        { state.2.1 with nextHandle := state.2.1.nextHandle + 1 }, state.2.2 + 1) := by
  have hinsert : state.1.insert d.descriptor.name (.followed state.2.1.nextHandle d) = .ok _ :=
    insert_eq_ok_iff.mpr
      ⟨TemplateDefinition.allBlank_of_ofFile h, contains_eq_false_iff.mpr hfree, rfl⟩
  have hregister := registerTemplate_eq_ok_iff.mpr ⟨hinsert, rfl⟩
  simp only [loadFile, h, hregister]

/-- A file binds a free name just if it holds a definition of that name. -/
theorem get?_loadFile (h : state.1.entries.get? name = none) :
    (loadFile files state path).1.entries.get? name =
      (definitionOf? files name path).map (.followed state.2.1.nextHandle) := by
  cases hread : TemplateDefinition.ofFile files path with
  | error e => rw [loadFile_of_error hread, definitionOf?, hread, h, Option.map_none]
  | ok d =>
    simp only [definitionOf?, hread]
    by_cases hname : d.descriptor.name = name
    · subst hname
      rw [loadFile_of_free hread h, Table.get?_insert, if_pos rfl, if_pos rfl, Option.map_some]
    · rw [if_neg hname, Option.map_none]
      cases ht : state.1.entries.get? d.descriptor.name with
      | some entry => rw [loadFile_of_taken hread ht, h]
      | none =>
        rw [loadFile_of_free hread ht, Table.get?_insert, if_neg (Ne.symm hname), h]

/-! ### A run over files -/

/-- What a run over files leads to: the entries that were there are kept, as many are new as are
counted, and a name that was free goes to the first file that holds a definition of it. -/
structure Loaded (files : FileTree) (r : Registry) (paths : List String)
    (state : Registry × Supply × Nat) : Prop where
  kept : r.Extends state.1
  hotReload : state.1.hotReload = r.hotReload
  counted : state.1.entries.size = r.entries.size + state.2.2
  bound : ∀ name d, r.entries.get? name = none →
    paths.findSome? (definitionOf? files name) = some d → state.1.Follows name d
  free : ∀ name, r.entries.get? name = none →
    paths.findSome? (definitionOf? files name) = none → state.1.entries.get? name = none

theorem loaded_nil : Loaded files r [] (r, supply, 0) :=
  ⟨.refl r, rfl, rfl, fun _ _ _ h ↦ (nomatch h), fun _ h _ ↦ h⟩

/-- One more file. -/
theorem Loaded.snoc {paths : List String} (h : Loaded files r paths state) (path : String) :
    Loaded files r (paths ++ [path]) (loadFile files state path) := by
  have hextends := extends_loadFile files state path
  have hone : (loadFile files state path).1.hotReload = state.1.hotReload ∧
      (loadFile files state path).1.entries.size + state.2.2 =
        state.1.entries.size + (loadFile files state path).2.2 := by
    cases hread : TemplateDefinition.ofFile files path with
    | error e =>
      rw [loadFile_of_error hread]
      exact ⟨rfl, rfl⟩
    | ok d =>
      cases ht : state.1.entries.get? d.descriptor.name with
      | some entry =>
        rw [loadFile_of_taken hread ht]
        exact ⟨rfl, rfl⟩
      | none =>
        rw [loadFile_of_free hread ht]
        refine ⟨rfl, ?_⟩
        have hsize := Table.size_insert state.1.entries (.followed state.2.1.nextHandle d) ht
        simp only [hsize]
        omega
  refine ⟨h.kept.trans hextends, hone.1.trans h.hotReload, ?_, fun name d hfree hfirst ↦ ?_,
    fun name hfree hnone ↦ ?_⟩
  · have hcounted := h.counted
    omega
  · rw [List.findSome?_append] at hfirst
    cases hbefore : paths.findSome? (definitionOf? files name) with
    | some first =>
      rw [hbefore] at hfirst
      obtain ⟨handle, hentry⟩ := h.bound name first hfree hbefore
      cases hfirst
      exact ⟨handle, hextends _ _ hentry⟩
    | none =>
      rw [hbefore] at hfirst
      refine ⟨state.2.1.nextHandle, ?_⟩
      have hlast : definitionOf? files name path = some d := by simpa using hfirst
      rw [get?_loadFile (h.free name hfree hbefore), hlast]
      rfl
  · rw [List.findSome?_append, Option.or_eq_none_iff] at hnone
    have hlast : definitionOf? files name path = none := by simpa using hnone.2
    rw [get?_loadFile (h.free name hfree hnone.1), hlast]
    rfl

theorem loaded_foldl (files : FileTree) (r : Registry) (supply : Supply) (paths : List String) :
    Loaded files r paths (paths.foldl (loadFile files) (r, supply, 0)) := by
  induction paths using List.reverseRecOn with
  | nil => exact loaded_nil
  | append_singleton paths path ih =>
    rw [List.foldl_append]
    exact ih.snoc path

/-- The name of every definition that was come across is taken. -/
theorem Loaded.taken {paths : List String} (h : Loaded files r paths state) (hm : path ∈ paths)
    (hd : TemplateDefinition.ofFile files path = .ok d) :
    ∃ entry, state.1.entries.get? d.descriptor.name = some entry := by
  cases hentry : r.entries.get? d.descriptor.name with
  | some entry => exact ⟨entry, h.kept _ _ hentry⟩
  | none =>
    have hfirst : (paths.findSome? (definitionOf? files d.descriptor.name)).isSome :=
      List.findSome?_isSome_iff.mpr
        ⟨path, hm, by rw [definitionOf?_eq_some_iff.mpr ⟨hd, rfl⟩]; rfl⟩
    obtain ⟨first, hfirst⟩ := Option.isSome_iff_exists.mp hfirst
    obtain ⟨handle, hbound⟩ := h.bound _ first hentry hfirst
    exact ⟨_, hbound⟩

/-- A run over files whose definitions' names are taken changes nothing. -/
theorem foldl_loadFile_of_taken {paths : List String}
    (h : ∀ path ∈ paths, ∀ d, TemplateDefinition.ofFile files path = .ok d →
      ∃ entry, state.1.entries.get? d.descriptor.name = some entry) :
    paths.foldl (loadFile files) state = state := by
  refine List.foldlRecOn paths (motive := (· = state)) (loadFile files) rfl ?_
  rintro _ rfl path hm
  cases hread : TemplateDefinition.ofFile files path with
  | error e => exact loadFile_of_error hread
  | ok d =>
    obtain ⟨entry, ht⟩ := h path hm d hread
    exact loadFile_of_taken hread ht

/-! ### Folders -/

/-- The paths of the files that a search of a folder visits, one after the other. -/
def searched (files : FileTree) (recursive : Bool) (dir : String) : List String :=
  (filesBelow files recursive dir).map (FileTree.join dir)

theorem searched_eq (files : FileTree) (recursive : Bool) (dir : String) :
    searched files recursive dir =
      if files.isFolder dir then definitionFiles files dir recursive else [] := by
  rw [searched, filesBelow, definitionFiles, FileTree.isFolder, FileTree.at?]
  cases files.place dir with
  | error e => rfl
  | ok folder =>
    obtain ⟨entry, hentry⟩ : ∃ entry, files.entry folder = entry := ⟨_, rfl⟩
    simp only [Except.map, hentry]
    cases entry with
    | folder => exact List.map_map
    | file f => rfl
    | missing => rfl

/-- A count that was begun before goes on. -/
private theorem foldl_loadFile_count (paths : List String) (count : Nat) :
    paths.foldl (loadFile files) (r, supply, count) =
      let (r', later, more) := paths.foldl (loadFile files) (r, supply, 0)
      (r', later, count + more) := by
  refine @List.foldl_hom (Registry × Supply × Nat) _ _
    (fun state ↦ (state.1, state.2.1, count + state.2.2)) _ _ paths (r, supply, 0)
      fun state path ↦ ?_
  simp only [loadFile]
  cases TemplateDefinition.ofFile files path with
  | error e => rfl
  | ok d =>
    cases hr : state.1.registerTemplate d state.2.1 with
    | error e => simp only [hr]
    | ok next => simp only [hr, Nat.add_assoc]

theorem applyFolder_eq (files : FileTree) (recursive : Bool) (state : Registry × Supply × Nat)
    (dir : String) :
    applyFolder files recursive state dir =
      (searched files recursive dir).foldl (loadFile files) state := by
  obtain ⟨r, supply, count⟩ := state
  rw [searched_eq]
  simp only [applyFolder, loadFolder]
  by_cases hfolder : files.isFolder dir = true
  · rw [if_pos hfolder, if_pos hfolder, foldl_loadFile_count _ count]
  · rw [if_neg hfolder, if_neg hfolder]
    rfl

/-- The folders of the settings are searched like one list of files. -/
theorem applySettings_eq (r : Registry) (settings : Settings) (files : FileTree)
    (supply : Supply) :
    r.applySettings settings files supply =
      (settings.folders.flatMap (searched files settings.recursive)).foldl (loadFile files)
        (r.setHotReload settings.hotReload, supply, 0) := by
  rw [List.foldl_flatMap, applySettings]
  congr 1
  funext state dir
  exact applyFolder_eq files settings.recursive state dir

/-- A file in a folder, or with `recursive` below it, holds a definition of a name. -/
structure Holds (files : FileTree) (recursive : Bool) (dir name : String) (below : Place)
    (d : TemplateDefinition) : Prop where
  candidate : Candidate files recursive dir below
  read : TemplateDefinition.ofFile files (FileTree.join dir below) = .ok d
  named : d.descriptor.name = name

/-- Of the files of a folder that hold definitions of a name, the least holds this one. -/
def Leads (files : FileTree) (recursive : Bool) (dir name : String) (d : TemplateDefinition) :
    Prop :=
  ∃ below, Holds files recursive dir name below d ∧
    ∀ other d', Holds files recursive dir name other d' → below.le other = true

/-- Of the folders of the settings that hold definitions of a name, the first leads to this one. -/
def Finds (files : FileTree) (settings : Settings) (name : String) (d : TemplateDefinition) :
    Prop :=
  ∃ before dir after, settings.folders = before ++ dir :: after ∧
    Leads files settings.recursive dir name d ∧
      ∀ earlier ∈ before, ∀ below d', ¬ Holds files settings.recursive earlier name below d'

theorem holds_iff {below : Place} :
    Holds files recursive dir name below d ↔ below ∈ filesBelow files recursive dir ∧
      definitionOf? files name (FileTree.join dir below) = some d := by
  rw [mem_filesBelow, definitionOf?_eq_some_iff]
  exact ⟨fun h ↦ ⟨h.candidate, h.read, h.named⟩, fun h ↦ ⟨h.1, h.2.1, h.2.2⟩⟩

/-- The first success along places in order is the one at the least place. -/
private theorem findSome?_eq_some_iff_of_pairwise {places : List Place} {α : Type}
    {f : Place → Option α} {a : α} (h : places.Pairwise fun p q ↦ p.le q = true) :
    places.findSome? f = some a ↔
      ∃ p ∈ places, f p = some a ∧ ∀ q ∈ places, ∀ b, f q = some b → p.le q = true := by
  have hleast : ∀ {b}, places.findSome? f = some b →
      ∃ p ∈ places, f p = some b ∧ ∀ q ∈ places, ∀ c, f q = some c → p.le q = true := by
    intro b hb
    obtain ⟨before, p, after, rfl, hp, hbefore⟩ := List.findSome?_eq_some_iff.mp hb
    refine ⟨p, by simp, hp, fun q hq c hc ↦ ?_⟩
    rcases List.mem_append.mp hq with hq | hq
    · cases (hbefore q hq).symm.trans hc
    · rcases List.mem_cons.mp hq with rfl | hq
      · exact Place.le_refl q
      · exact (List.pairwise_cons.mp (List.pairwise_append.mp h).2.1).1 q hq
  refine ⟨hleast, ?_⟩
  rintro ⟨p, hp, hpa, hmin⟩
  have hsome : (places.findSome? f).isSome :=
    List.findSome?_isSome_iff.mpr ⟨p, hp, by rw [hpa]; rfl⟩
  obtain ⟨b, hb⟩ := Option.isSome_iff_exists.mp hsome
  obtain ⟨q, hq, hqb, hqmin⟩ := hleast hb
  have heq : p = q := Place.le_antisymm (hmin q hq b hqb) (hqmin p hp a hpa)
  rw [hb, ← hqb, ← heq, hpa]

theorem findSome?_searched_eq_some_iff :
    (searched files recursive dir).findSome? (definitionOf? files name) = some d ↔
      Leads files recursive dir name d := by
  rw [searched, List.findSome?_map,
    findSome?_eq_some_iff_of_pairwise (pairwise_filesBelow files recursive dir)]
  simp only [Leads, holds_iff, Function.comp_apply, and_assoc, and_imp]
  exact exists_congr fun below ↦ and_congr_right fun _ ↦ and_congr_right fun _ ↦
    forall_congr' fun other ↦ ⟨fun h d' hm ↦ h hm d', fun h hm d' ↦ h d' hm⟩

theorem findSome?_searched_eq_none_iff :
    (searched files recursive dir).findSome? (definitionOf? files name) = none ↔
      ∀ below d, ¬ Holds files recursive dir name below d := by
  rw [searched, List.findSome?_map, List.findSome?_eq_none_iff]
  simp only [holds_iff, not_and, Function.comp_apply, Option.eq_none_iff_forall_ne_some]
  exact forall_congr' fun below ↦ forall_comm

theorem findSome?_flatMap {α β γ : Type} (xs : List α) (f : α → List β) (g : β → Option γ) :
    (xs.flatMap f).findSome? g = xs.findSome? fun x ↦ (f x).findSome? g := by
  simp only [← List.head?_filterMap, List.filterMap_flatMap, List.head?_flatMap]

theorem findSome?_folders_eq_some_iff {settings : Settings} :
    (settings.folders.flatMap (searched files settings.recursive)).findSome?
      (definitionOf? files name) = some d ↔ Finds files settings name d := by
  rw [findSome?_flatMap, List.findSome?_eq_some_iff]
  simp only [findSome?_searched_eq_some_iff, findSome?_searched_eq_none_iff, Finds]

theorem findSome?_folders_eq_none_iff {settings : Settings} :
    (settings.folders.flatMap (searched files settings.recursive)).findSome?
      (definitionOf? files name) = none ↔
        ∀ dir ∈ settings.folders, ∀ below d, ¬ Holds files settings.recursive dir name below d := by
  rw [findSome?_flatMap, List.findSome?_eq_none_iff]
  simp only [findSome?_searched_eq_none_iff]

/-! ### The settings -/

/-- Only what stands at the places of a tree matters, not how it is listed. -/
theorem applySettings_congr {files' : FileTree} (h : files'.entry = files.entry)
    (settings : Settings) :
    r.applySettings settings files' supply = r.applySettings settings files supply := by
  have hsearched : searched files' = searched files := by
    funext recursive dir
    rw [searched, searched, filesBelow_congr h]
  have hloadFile : loadFile files' = loadFile files := by
    funext state path
    rw [loadFile, loadFile, TemplateDefinition.ofFile_congr h]
  rw [applySettings_eq, applySettings_eq, hsearched, hloadFile]

/-- What a search of the folders of the settings leaves of a registry. -/
structure Discovered (files : FileTree) (settings : Settings) (r r' : Registry) (count : Nat) :
    Prop where
  kept : r.Extends r'
  hotReload : r'.hotReload = settings.hotReload
  counted : r'.entries.size = r.entries.size + count
  bound : ∀ name entry, r.entries.get? name = none → r'.entries.get? name = some entry →
    ∃ handle d, entry = .followed handle d ∧ Finds files settings name d
  found : ∀ name d, r.entries.get? name = none → Finds files settings name d → r'.Follows name d
  free : ∀ name, r'.entries.get? name = none ↔ r.entries.get? name = none ∧
    ∀ dir ∈ settings.folders, ∀ below d, ¬ Holds files settings.recursive dir name below d

theorem discovered_of_loaded {settings : Settings}
    (h : Loaded files (r.setHotReload settings.hotReload)
      (settings.folders.flatMap (searched files settings.recursive)) state) :
    Discovered files settings r state.1 state.2.2 where
  kept := h.kept
  hotReload := h.hotReload
  counted := h.counted
  bound := by
    intro name entry hfree hentry
    cases hfirst : (settings.folders.flatMap (searched files settings.recursive)).findSome?
        (definitionOf? files name) with
    | none => cases (h.free name hfree hfirst).symm.trans hentry
    | some d =>
      obtain ⟨handle, hbound⟩ := h.bound name d hfree hfirst
      cases hbound.symm.trans hentry
      exact ⟨handle, d, rfl, findSome?_folders_eq_some_iff.mp hfirst⟩
  found name d hfree hfinds := h.bound name d hfree (findSome?_folders_eq_some_iff.mpr hfinds)
  free := by
    intro name
    rw [← findSome?_folders_eq_none_iff]
    constructor
    · intro hnone
      have hfree : r.entries.get? name = none := by
        cases hentry : r.entries.get? name with
        | none => rfl
        | some entry => cases hnone.symm.trans (h.kept name entry hentry)
      refine ⟨hfree, ?_⟩
      cases hfirst : (settings.folders.flatMap (searched files settings.recursive)).findSome?
          (definitionOf? files name) with
      | none => rfl
      | some d =>
        obtain ⟨handle, hbound⟩ := h.bound name d hfree hfirst
        cases hnone.symm.trans hbound
    · rintro ⟨hfree, hfirst⟩
      exact h.free name hfree hfirst

theorem foldl_addFolder (settings : Settings) (paths : List String) :
    paths.foldl Settings.addFolder settings =
      { settings with folders := settings.folders ++ paths } := by
  induction paths generalizing settings with
  | nil => rw [List.append_nil]; rfl
  | cons path paths ih =>
    rw [List.foldl_cons, ih, Settings.addFolder]
    simp only [List.append_assoc, List.singleton_append]

/-- The folders of a command line come behind those of the settings. -/
theorem exists_of_commandLine_settings {o : CommandLine.Options} {initial settings : Settings}
    (h : CommandLine.settings o initial files = .ok settings) :
    ∃ base, (∀ path, o.settings = some path → Settings.load initial files path = .ok base) ∧
      (o.settings = none → base = initial) ∧
        settings = { base with folders := base.folders ++ o.folders } := by
  rw [CommandLine.settings] at h
  cases hpath : o.settings with
  | none =>
    rw [hpath] at h
    refine ⟨initial, nofun, fun _ ↦ rfl, ?_⟩
    rw [← foldl_addFolder]
    exact (Except.ok.inj h).symm
  | some path =>
    rw [hpath] at h
    obtain ⟨base, hbase, hsettings⟩ := bind_eq_ok_iff.mp h
    refine ⟨base, ?_, nofun, ?_⟩
    · rintro _ ⟨⟩
      exact mapError_eq_ok_iff.mp hbase
    · rw [← foldl_addFolder]
      exact (Except.ok.inj hsettings).symm

/-- A search of the folders of the settings keeps all entries, and binds every new name to the
definition in the least file of the first folder that holds one; the folders of a command line are
the last ones. The count is the growth of the registry. How a tree is listed does not matter, and to
search again finds nothing new, also after other definitions were registered. -/
theorem applySettings_discovers (r : Registry) (settings : Settings) (files : FileTree)
    (supply : Supply) :
    ∃ r' later count, r.applySettings settings files supply = (r', later, count) ∧
      Discovered files settings r r' count ∧
      (∀ files' : FileTree, files'.entry = files.entry →
        r.applySettings settings files' supply = (r', later, count)) ∧
      (∀ again now, r'.Extends again → again.applySettings settings files now =
        (again.setHotReload settings.hotReload, now, 0)) ∧
      ∀ o initial, CommandLine.settings o initial files = .ok settings →
        ∃ base, (∀ path, o.settings = some path → Settings.load initial files path = .ok base) ∧
          (o.settings = none → base = initial) ∧
            settings = { base with folders := base.folders ++ o.folders } := by
  have hrun := applySettings_eq r settings files supply
  have hloaded := loaded_foldl files (r.setHotReload settings.hotReload) supply
    (settings.folders.flatMap (searched files settings.recursive))
  rw [← hrun] at hloaded
  refine ⟨_, _, _, rfl, discovered_of_loaded hloaded, fun files' h ↦ applySettings_congr h settings,
    fun again now hextends ↦ ?_, fun o initial h ↦ exists_of_commandLine_settings h⟩
  rw [applySettings_eq]
  refine foldl_loadFile_of_taken fun path hm d hd ↦ ?_
  obtain ⟨entry, hentry⟩ := hloaded.taken hm hd
  exact ⟨entry, hextends _ _ hentry⟩

/-- Two folders that define one name; the least file of the first one is no text. -/
def colliding : FileTree where
  files :=
    [(["b", "glow.json"], ⟨some "\x7b\"name\":\"Glow\",\"code\":\"a\"\x7d", 1⟩),
      (["a", "y.json"], ⟨some "\x7b\"name\":\"Glow\",\"code\":\"a\"\x7d", 2⟩),
      (["a", "x.json"], ⟨none, 3⟩)]
  folders := [["a"], ["b"]]
  distinct := by decide

private theorem ofFile_colliding :
    TemplateDefinition.ofFile colliding (FileTree.join "a" ["y.json"]) =
      .ok (plain "Glow" [.text "a"] (some ⟨"a/y.json", 2⟩)) :=
  TemplateDefinition.ofFile_eq_ok_iff.mpr
    ⟨⟨some _, 2⟩, _, _, rfl, rfl, ofString_eq_plain (by decide) (by decide), rfl⟩

private theorem holds_colliding_iff {below : Place} :
    Holds colliding false "a" "Glow" below d ↔
      below = ["y.json"] ∧ plain "Glow" [.text "a"] (some ⟨"a/y.json", 2⟩) = d := by
  constructor
  · rintro ⟨⟨⟨folder, f, hplace, -, hfile⟩, -, -, -⟩, hread, -⟩
    cases (show colliding.place "a" = .ok ["a"] from rfl).symm.trans hplace
    have hm := FileTree.exists_entry_eq_file_iff.mp ⟨f, hfile⟩
    obtain rfl | rfl : below = ["y.json"] ∨ below = ["x.json"] := by
      simpa [colliding] using hm
    · exact ⟨rfl, Except.ok.inj (ofFile_colliding.symm.trans hread)⟩
    · cases hread
  · rintro ⟨rfl, rfl⟩
    refine ⟨⟨⟨["a"], ⟨some _, 2⟩, rfl, rfl, rfl⟩, by decide, fun _ ↦ rfl, "y", by decide, by decide⟩,
      ofFile_colliding, rfl⟩

/-- A missing folder is passed over, and so is a file that is no text. -/
theorem applySettings_discovers_colliding :
    ∃ r' later count,
      Registry.empty.applySettings { folders := ["c", "a", "b"] } colliding {} =
          (r', later, count) ∧
        r'.Follows "Glow" (plain "Glow" [.text "a"] (some ⟨"a/y.json", 2⟩)) ∧
          r'.entries.size = count ∧
            ∀ now, r'.applySettings { folders := ["c", "a", "b"] } colliding now = (r', now, 0) := by
  obtain ⟨r', later, count, hrun, hdiscovered, -, hagain, -⟩ :=
    applySettings_discovers .empty { folders := ["c", "a", "b"] } colliding {}
  refine ⟨r', later, count, hrun, hdiscovered.found "Glow" _ rfl ?_, ?_, fun now ↦ ?_⟩
  · refine ⟨["c"], "a", ["b"], rfl, ⟨["y.json"], holds_colliding_iff.mpr ⟨rfl, rfl⟩, ?_⟩, ?_⟩
    · intro other d hother
      obtain ⟨rfl, -⟩ := holds_colliding_iff.mp hother
      exact Place.le_refl _
    · intro earlier hm below d hholds
      obtain rfl := List.mem_singleton.mp hm
      obtain ⟨folder, _, hplace, hfolder, -⟩ := hholds.candidate.found
      cases (show colliding.place "c" = .ok ["c"] from rfl).symm.trans hplace
      cases hfolder
  · rw [hdiscovered.counted]
    exact Nat.zero_add count
  · rw [hagain r' now (.refl r'), setHotReload, ← hdiscovered.hotReload]

end Registry

end RenderKit
