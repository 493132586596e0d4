import RenderKit.Registry
import Mathlib.Data.List.Nodup
import Mathlib.Data.String.Basic

/-!
# Files that may hold definitions

What a search of a folder visits: files of the right extension inside of the folder
(`mem_filesBelow`), in the order of the parts of their paths. The order is a total one, so in which
order a file tree lists its files does not matter (`filesBelow_congr`).
-/

namespace RenderKit

/-! ### The order of places -/

namespace Place

@[simp] theorem le_refl (p : Place) : le p p = true := by
  induction p with
  | nil => rfl
  | cons a as ih => rw [le, if_pos rfl, ih]

theorem le_antisymm {p q : Place} (h : le p q = true) (h' : le q p = true) : p = q := by
  induction p generalizing q with
  | nil =>
    cases q with
    | nil => rfl
    | cons b bs => cases h'
  | cons a as ih =>
    cases q with
    | nil => cases h
    | cons b bs =>
      rw [le] at h h'
      by_cases hab : a = b
      · subst hab
        rw [if_pos rfl] at h h'
        rw [ih h h']
      · rw [if_neg hab, decide_eq_true_iff] at h
        rw [if_neg (Ne.symm hab), decide_eq_true_iff] at h'
        exact absurd h' (String.lt_asymm h)

theorem le_trans {p q s : Place} (h : le p q = true) (h' : le q s = true) : le p s = true := by
  induction p generalizing q s with
  | nil => cases s <;> rfl
  | cons a as ih =>
    cases q with
    | nil => cases h
    | cons b bs =>
      cases s with
      | nil => cases h'
      | cons c cs =>
        rw [le] at h h' ⊢
        by_cases hab : a = b
        · subst hab
          rw [if_pos rfl] at h
          by_cases hac : a = c
          · rw [if_pos hac] at h' ⊢
            exact ih h h'
          · rwa [if_neg hac] at h' ⊢
        · rw [if_neg hab, decide_eq_true_iff] at h
          by_cases hbc : b = c
          · rw [← hbc, if_neg hab, decide_eq_true_iff]
            exact h
          · rw [if_neg hbc, decide_eq_true_iff] at h'
            have hac := String.lt_trans h h'
            have hne : a ≠ c := fun he ↦ String.lt_irrefl c (he ▸ hac)
            rw [if_neg hne, decide_eq_true_iff]
            exact hac

theorem le_total (p q : Place) : (le p q || le q p) = true := by
  induction p generalizing q with
  | nil => cases q <;> rfl
  | cons a as ih =>
    cases q with
    | nil => rfl
    | cons b bs =>
      rw [le, le]
      rcases lt_trichotomy a b with hlt | rfl | hlt
      · rw [if_neg (ne_of_lt hlt), decide_eq_true hlt]
        rfl
      · rw [if_pos rfl, if_pos rfl]
        exact ih bs
      · rw [if_neg (ne_of_lt hlt), decide_eq_true hlt, Bool.or_true]

/-- Places in one folder are in the order of what comes below it. -/
theorem le_append_left (folder p q : Place) : le (folder ++ p) (folder ++ q) = le p q := by
  induction folder with
  | nil => rfl
  | cons a folder ih => rw [List.cons_append, List.cons_append, le, if_pos rfl, ih]

/-- An extension stands behind a point and at least one character. -/
theorem hasExtension_iff {extension name : String} :
    hasExtension extension name = true ↔ ∃ stem, stem ≠ "" ∧ name = stem ++ "." ++ extension := by
  have htoList : ∀ stem, (stem ++ "." ++ extension).toList =
      stem.toList ++ '.' :: extension.toList := fun stem ↦ by
    rw [String.toList_append, String.toList_append, List.append_assoc]
    rfl
  rw [hasExtension, Bool.and_eq_true, List.isSuffixOf_iff_suffix, decide_eq_true_iff]
  constructor
  · rintro ⟨⟨stem, hstem⟩, hlt⟩
    refine ⟨String.ofList stem, ?_, ?_⟩
    · intro hempty
      rw [← String.toList_inj, String.toList_ofList] at hempty
      subst hempty
      exact absurd hlt (by rw [← hstem]; exact Nat.lt_irrefl _)
    · rw [← String.toList_inj, htoList, String.toList_ofList, hstem]
  · rintro ⟨stem, hne, rfl⟩
    rw [htoList]
    refine ⟨List.suffix_append _ _, ?_⟩
    have hpos : 0 < stem.toList.length := by
      rw [List.length_pos_iff]
      exact fun h ↦ hne (String.toList_inj.mp h)
    rw [List.length_append]
    omega

/-- What is inside of a folder is found below it, and not on a way out. -/
theorem holds_iff {folder p : Place} :
    holds folder p = true ↔ ∃ below, p = folder ++ below ∧ below ≠ [] ∧
      ∀ part ∈ below, part ≠ ".." ∧ part ≠ root := by
  simp only [holds, Bool.and_eq_true, List.isPrefixOf_iff_prefix, decide_eq_true_iff,
    List.all_eq_true, bne_iff_ne]
  constructor
  · rintro ⟨⟨⟨below, rfl⟩, hlt⟩, hinner⟩
    rw [List.drop_left] at hinner
    refine ⟨below, rfl, ?_, hinner⟩
    rintro rfl
    exact absurd hlt (by simp)
  · rintro ⟨below, rfl, hne, hinner⟩
    rw [List.drop_left, List.length_append]
    have hpos := List.length_pos_iff.mpr hne
    exact ⟨⟨List.prefix_append _ _, by omega⟩, hinner⟩

end Place

theorem pairwise_sortPlaces (places : List Place) :
    (sortPlaces places).Pairwise fun p q ↦ p.le q = true := by
  apply List.pairwise_mergeSort
  · exact fun _ _ _ ↦ Place.le_trans
  · exact Place.le_total

/-- The order in which places come does not matter when they are sorted. -/
theorem sortPlaces_congr {places others : List Place} (h : places.Perm others) :
    sortPlaces places = sortPlaces others := by
  apply List.Perm.eq_of_pairwise (fun _ _ _ _ ↦ Place.le_antisymm)
  · exact pairwise_sortPlaces places
  · exact pairwise_sortPlaces others
  · exact (List.mergeSort_perm _ _).trans (h.trans (List.mergeSort_perm _ _).symm)

/-! ### Trees with the same entries -/

namespace FileTree

variable {t t' : FileTree}

theorem exists_entry_eq_file_iff {place : Place} :
    (∃ f, t.entry place = .file f) ↔ place ∈ t.files.map (·.1) := by
  have hsome : (t.files.lookup place).isSome ↔ place ∈ t.files.map (·.1) := by
    simp only [List.lookup_isSome_iff, List.mem_map, beq_iff_eq, eq_comm (a := place)]
  rw [← hsome, entry]
  cases t.files.lookup place with
  | some f => simp
  | none => by_cases h : place.isAround ∨ place ∈ t.folders <;> simp [h]

/-- Where a path leads is told by what stands at the places. -/
theorem place_congr (h : t'.entry = t.entry) : t'.place = t.place := by
  have hfolderAt : t'.folderAt = t.folderAt := by
    funext place
    rw [folderAt, folderAt, h]
  have hdescend : t'.descend = t.descend := by
    funext place part
    rw [descend, descend, hfolderAt]
  have hfinish : t'.finish = t.finish := by
    funext place part
    rw [finish, finish, hdescend]
  have hsurrounding : t'.surrounding = t.surrounding := by
    funext path
    rw [surrounding, surrounding, hdescend]
  funext path
  rw [place, place, hsurrounding, hfinish]

theorem file_congr (h : t'.entry = t.entry) : t'.file = t.file := by
  funext path
  rw [file, file, at?, at?, place_congr h, h]

theorem perm_candidates (h : t'.entry = t.entry) (folder : Place) (deep : Bool)
    (extension : String) :
    (t'.candidates folder deep extension).Perm (t.candidates folder deep extension) := by
  have hplaces : (t'.files.map (·.1)).Perm (t.files.map (·.1)) := by
    rw [List.perm_ext_iff_of_nodup t'.distinct t.distinct]
    intro place
    rw [← exists_entry_eq_file_iff, ← exists_entry_eq_file_iff, h]
  exact hplaces.filter _

end FileTree

theorem TemplateDefinition.ofFile_congr {files files' : FileTree}
    (h : files'.entry = files.entry) : ofFile files' = ofFile files := by
  funext path
  rw [ofFile, ofFile, FileTree.read, FileTree.read, FileTree.file_congr h]

/-! ### Searching a folder -/

namespace Registry

variable {files files' : FileTree} {recursive : Bool} {dir : String}

/-- Where the files that a search of a folder visits are below it, in the order of their parts. -/
def filesBelow (files : FileTree) (recursive : Bool) (dir : String) : List Place :=
  match files.place dir with
  | .error _ => []
  | .ok folder =>
    match files.entry folder with
    | .folder =>
      (sortPlaces (files.candidates folder recursive extension)).map (·.drop folder.length)
    | _ => []

/-- A file that a search of a folder visits: it stands in the folder, or with `recursive` at any
depth below it, and its name has the extension of definitions. -/
structure Candidate (files : FileTree) (recursive : Bool) (dir : String) (below : Place) :
    Prop where
  found : ∃ folder f, files.place dir = .ok folder ∧ files.entry folder = .folder ∧
    files.entry (folder ++ below) = .file f
  inside : ∀ part ∈ below, part ≠ ".." ∧ part ≠ Place.root
  depth : recursive = false → below.length = 1
  named : ∃ stem, stem ≠ "" ∧ below.getLast? = some (stem ++ ".json")

theorem mem_candidates {folder place : Place} :
    place ∈ files.candidates folder recursive extension ↔
      ∃ below, place = folder ++ below ∧ (∃ f, files.entry (folder ++ below) = .file f) ∧
        (∀ part ∈ below, part ≠ ".." ∧ part ≠ Place.root) ∧
          (recursive = false → below.length = 1) ∧
            ∃ stem, stem ≠ "" ∧ below.getLast? = some (stem ++ ".json") := by
  simp only [FileTree.candidates, List.mem_filter, ← FileTree.exists_entry_eq_file_iff,
    Bool.and_eq_true, Bool.or_eq_true, beq_iff_eq, Place.holds_iff, Place.hasExtension_iff]
  constructor
  · rintro ⟨hfile, ⟨⟨below, rfl, hne, hinside⟩, hdepth⟩, stem, hstem, hname⟩
    have hlast := List.getLast?_eq_some_getLast hne
    refine ⟨below, rfl, hfile, hinside, fun hflat ↦ ?_, stem, hstem, ?_⟩
    · rw [hflat, List.length_append] at hdepth
      simpa using hdepth
    · rw [List.getLast?_append, hlast, String.append_assoc] at hname
      rw [hlast]
      exact congrArg some hname
  · rintro ⟨below, rfl, hfile, hinside, hdepth, stem, hstem, hlast⟩
    have hne : below ≠ [] := by
      rintro rfl
      cases hlast
    refine ⟨hfile, ⟨⟨below, rfl, hne, hinside⟩, ?_⟩, stem, hstem, ?_⟩
    · cases recursive with
      | true => exact .inl rfl
      | false =>
        right
        rw [List.length_append, hdepth rfl]
    · rw [List.getLast?_append, hlast, String.append_assoc]
      rfl

theorem mem_filesBelow {below : Place} :
    below ∈ filesBelow files recursive dir ↔ Candidate files recursive dir below := by
  rw [filesBelow]
  constructor
  · intro h
    split at h
    · cases h
    · next folder hplace =>
      split at h
      · next hfolder =>
        obtain ⟨place, hm, rfl⟩ := List.mem_map.mp h
        obtain ⟨below, rfl, ⟨f, hf⟩, hinside, hdepth, hnamed⟩ :=
          mem_candidates.mp (List.mem_mergeSort.mp hm)
        rw [List.drop_left]
        exact ⟨⟨folder, f, hplace, hfolder, hf⟩, hinside, hdepth, hnamed⟩
      · cases h
  · rintro ⟨⟨folder, f, hplace, hfolder, hf⟩, hinside, hdepth, hnamed⟩
    rw [hplace]
    simp only [hfolder, List.mem_map]
    refine ⟨folder ++ below, List.mem_mergeSort.mpr ?_, List.drop_left⟩
    exact mem_candidates.mpr ⟨below, rfl, ⟨f, hf⟩, hinside, hdepth, hnamed⟩

theorem pairwise_filesBelow (files : FileTree) (recursive : Bool) (dir : String) :
    (filesBelow files recursive dir).Pairwise fun p q ↦ p.le q = true := by
  rw [filesBelow]
  split
  · exact .nil
  · next folder _ =>
    split
    · rw [List.pairwise_map]
      refine (pairwise_sortPlaces _).imp_of_mem fun hp hq hle ↦ ?_
      obtain ⟨p, rfl, -⟩ := mem_candidates.mp (List.mem_mergeSort.mp hp)
      obtain ⟨q, rfl, -⟩ := mem_candidates.mp (List.mem_mergeSort.mp hq)
      rwa [List.drop_left, List.drop_left, ← Place.le_append_left folder]
    · exact .nil

/-- The order in which a tree lists its files does not matter. -/
theorem filesBelow_congr (h : files'.entry = files.entry) :
    filesBelow files' = filesBelow files := by
  funext recursive dir
  rw [filesBelow, filesBelow, FileTree.place_congr h, h]
  simp only [sortPlaces_congr (FileTree.perm_candidates h _ _ _)]

end Registry

end RenderKit
