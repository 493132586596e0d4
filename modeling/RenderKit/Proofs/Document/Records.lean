import RenderKit.Proofs.Document.Reloading
import RenderKit.Settings

/-!
# Settings and descriptors are written and read

Settings, descriptors and pins are read back from what is written of them, in both layouts of JSON
(`RoundTrips`). What a reader accepts may lack fields, have others or another order; writing it
brings it into one form, which is kept from then on. Main statement: `records_roundTrip`.
-/

namespace RenderKit

open Json

namespace Json.Value

/-- The two layouts of a value. -/
def layouts : List (Value → String) := [compact, document]

/-- What a decoder finds in a text. -/
def decoded? {α : Type} (ofJson? : Value → Option α) (text : String) : Option α :=
  ofString? text >>= ofJson?

end Json.Value

/-- Values of a kind are read back from what is written of them. Whatever text is read, the value
can be written in place of it: the same is read again, and written in the same way once more. -/
structure RoundTrips {α : Type} (Valid : α → Prop) (toJson : α → Value)
    (ofJson? : Value → Option α) : Prop where
  read_written : ∀ a, Valid a → ∀ print ∈ Value.layouts,
    Value.decoded? ofJson? (print (toJson a)) = some a
  rewritten : ∀ text a, Value.decoded? ofJson? text = some a → ∀ print ∈ Value.layouts,
    ∃ b, Value.decoded? ofJson? (print (toJson a)) = some b ∧ b = a ∧
      print (toJson b) = print (toJson a)

/-- A decoder undoes its encoder, and accepts nothing that cannot be encoded. -/
theorem RoundTrips.of_decoder {α : Type} {Valid : α → Prop} {toJson : α → Value}
    {ofJson? : Value → Option α} (hproper : ∀ a, (toJson a).Proper)
    (hread : ∀ a, Valid a → ofJson? (toJson a) = some a)
    (hvalid : ∀ v a, ofJson? v = some a → Valid a) : RoundTrips Valid toJson ofJson? := by
  have hwritten : ∀ a, Valid a → ∀ print ∈ Value.layouts,
      Value.decoded? ofJson? (print (toJson a)) = some a := by
    intro a ha print hprint
    have hvalue : Value.ofString? (print (toJson a)) = some (toJson a) := by
      simp only [Value.layouts, List.mem_cons, List.not_mem_nil, or_false] at hprint
      rcases hprint with rfl | rfl
      · exact Value.ofString?_compact (hproper a)
      · exact Value.ofString?_document (hproper a)
    rw [Value.decoded?, hvalue]
    exact hread a ha
  refine ⟨hwritten, fun text a ha print hprint ↦ ?_⟩
  obtain ⟨v, -, hv⟩ := Option.bind_eq_some_iff.mp ha
  exact ⟨a, hwritten a (hvalid v a hv) print hprint, rfl, rfl⟩

/-! ### Pins and descriptors -/

theorem PinSpec.proper_toJson (p : PinSpec) : p.toJson.Proper := by
  refine .record ?_
  simp [PinType.toJson, Value.ofText, Value.Proper.string]

theorem Descriptor.proper_toJson (d : Descriptor) : d.toJson.Proper := by
  have hpins : ∀ pins : List PinSpec, (Value.array (pins.map PinSpec.toJson)).Proper :=
    fun pins ↦ .items fun p _ ↦ p.proper_toJson
  refine .record ?_
  simp [Value.ofText, Value.Proper.string, hpins]

theorem Descriptor.ofJson?_toJson (d : Descriptor) : ofJson? d.toJson = some d := by
  have hpins : ∀ pins : List PinSpec,
      (Value.array (pins.map PinSpec.toJson)).list? PinSpec.ofJson? = some pins := by
    intro pins
    rw [Value.list?_items_eq_some_iff, List.forall₂_same]
    exact fun p _ ↦ PinSpec.ofJson?_toJson p
  rw [ofJson?, toJson, Value.fields?_record (by rfl) (by decide)]
  simp [hpins]

/-! ### Settings -/

namespace Settings

/-- The width of an indent is a word. -/
def WithinWord (s : Settings) : Prop :=
  s.indentWidth < Number.wordLimit

theorem withinWord_initial (home : Option String) : (initial home).WithinWord := by
  exact show 4 < Number.wordLimit by decide

theorem proper_toJson (s : Settings) : s.toJson.Proper := by
  have hfolders : (Value.array (s.folders.map Value.ofText)).Proper :=
    .items fun path _ ↦ .string _
  refine .record ?_
  simp [hfolders, Value.Proper.bool, Value.ofNat, Value.Proper.number, Numeral.proper_ofNat]

theorem ofJson?_toJson (default : Settings) {s : Settings} (h : s.WithinWord) :
    ofJson? default s.toJson = some s := by
  have hfolders : (Value.array (s.folders.map Value.ofText)).list? Value.text? =
      some s.folders := by
    rw [Value.list?_items_eq_some_iff, List.forall₂_same]
    exact fun path _ ↦ Value.text?_ofText path
  rw [ofJson?, toJson, Value.fields?_record (by rfl) (by decide)]
  simp [hfolders, Value.word64?_ofNat h]

/-- What is read has an indent within a word, if the default has. -/
theorem withinWord_of_ofJson? {default s : Settings} (hd : default.WithinWord) {v : Value}
    (h : ofJson? default v = some s) : s.WithinWord := by
  rw [ofJson?] at h
  obtain ⟨fields, -, h⟩ := Option.bind_eq_some_iff.mp h
  obtain ⟨folders, -, h⟩ := Option.bind_eq_some_iff.mp h
  obtain ⟨recursive, -, h⟩ := Option.bind_eq_some_iff.mp h
  obtain ⟨hotReload, -, h⟩ := Option.bind_eq_some_iff.mp h
  obtain ⟨width, hwidth, h⟩ := Option.bind_eq_some_iff.mp h
  cases h
  rcases Fields.eq_or_exists_of_optional hwidth with hw | ⟨_, hw⟩
  · rw [WithinWord, hw]
    exact hd
  · exact Value.lt_of_word64? hw

end Settings

/-! ### Files -/

namespace FileTree

variable {t t' : FileTree} {place other : Place} {f : File} {path : String}

/-- A file that was put at a place leaves all other places. -/
theorem entry_put_of_ne (h : other ≠ place) : (t.put place f).entry other = t.entry other := by
  have hlookup : ∀ files : List (Place × File),
      (files.filter (·.1 != place)).lookup other = files.lookup other := by
    intro files
    induction files with
    | nil => rfl
    | cons file files ih =>
      by_cases hf : file.1 = place
      · have hne : (other == file.1) = false := beq_false_of_ne (hf ▸ h)
        rw [List.filter_cons_of_neg (by simp [hf]), List.lookup_cons, hne, ih]
      · rw [List.filter_cons_of_pos (by simp [hf]), List.lookup_cons, List.lookup_cons, ih]
  rw [entry, entry, put, List.lookup_cons, beq_false_of_ne h]
  simp only [hlookup]

/-- Folders stay where they are, when a file is put where no folder is. -/
theorem folderAt_put (hplace : t.entry place ≠ .folder) {folder : Place}
    (h : t.folderAt other = .ok folder) : (t.put place f).folderAt other = .ok folder := by
  have hfolder : t.entry other = .folder := by
    rw [folderAt] at h
    cases he : t.entry other with
    | folder => rfl
    | file | missing => simp [he] at h
  have hne : other ≠ place := by
    rintro rfl
    exact hplace hfolder
  rw [folderAt, entry_put_of_ne hne]
  exact h

theorem descend_put (hplace : t.entry place ≠ .folder) {part : String} {folder : Place}
    (h : t.descend other part = .ok folder) : (t.put place f).descend other part = .ok folder := by
  rw [descend] at h ⊢
  split at h
  · next hs => rwa [if_pos hs]
  · next hs =>
    rw [if_neg hs]
    obtain ⟨named, hn, hf⟩ := bind_eq_ok_iff.mp h
    exact bind_eq_ok_iff.mpr ⟨named, hn, folderAt_put hplace hf⟩

/-- Paths lead where they led. -/
theorem place_put (hplace : t.entry place ≠ .folder) (h : t.place path = .ok other) :
    (t.put place f).place path = .ok other := by
  rw [FileTree.place] at h ⊢
  obtain ⟨⟨⟩, hcheck, h⟩ := bind_eq_ok_iff.mp h
  obtain ⟨around, haround, h⟩ := bind_eq_ok_iff.mp h
  refine bind_eq_ok_iff.mpr ⟨(), hcheck, bind_eq_ok_iff.mpr ⟨around, ?_, ?_⟩⟩
  · exact foldlM_eq_ok_of_imp haround fun _ _ _ _ ↦ descend_put hplace
  · rw [finish] at h ⊢
    split at h
    · next hs =>
      rw [if_pos hs]
      exact descend_put hplace h
    · next hs => rwa [if_neg hs]

/-- A file is written to the place that its path leads to, where no folder is. -/
theorem writable_eq_ok (h : t.writable path = .ok place) :
    t.place path = .ok place ∧ t.entry place ≠ .folder := by
  rw [writable] at h
  obtain ⟨⟨⟩, -, h⟩ := bind_eq_ok_iff.mp h
  by_cases hbare : withoutSlashes path = path
  · simp only [ne_eq, hbare, not_true_eq_false, if_false] at h
    obtain ⟨found, hfound, h⟩ := bind_eq_ok_iff.mp h
    split at h
    · cases h
    · next hfree =>
      cases h
      exact ⟨hfound, hfree⟩
  · simp only [ne_eq, hbare, not_false_eq_true, if_true, bind_eq_ok_iff, reduceCtorEq, false_and,
      exists_false, and_false] at h

/-- A file that was written is read. -/
theorem read_write {text : String} {modified : Int}
    (h : t.write path ⟨some text, modified⟩ = .ok t') : t'.read path = .ok text := by
  obtain ⟨place, hwritable, rfl⟩ := map_eq_ok_iff.mp h
  obtain ⟨hplace, hfree⟩ := writable_eq_ok hwritable
  rw [read, file, at?, place_put hfree hplace, Except.map, entry_put_self]
  rfl

end FileTree

namespace Settings

/-- Settings that were saved are loaded. -/
theorem load_save {default s : Settings} (hs : s.WithinWord) {files files' : FileTree}
    {path : String} {time : Int} (h : s.save files path time = .ok files') :
    load default files' path = .ok s := by
  have hread : files'.read path = .ok s.toJson.document :=
    FileTree.read_write (mapError_eq_ok_iff.mp h)
  have hdecoded : ofString? default s.toJson.document = some s := by
    rw [ofString?, Value.ofString?_document s.proper_toJson]
    exact ofJson?_toJson default hs
  rw [load, hread]
  simp only [hdecoded]

end Settings

/-- Settings with any folders and flags and any width of an indent that is a word, descriptors and
pins are read back from what is written of them. What is read from any text can be written in place
of the text: the same is read from that, and it is written in the same way once more. Settings that
were saved to a file are loaded from the file as they were. -/
theorem records_roundTrip (home : Option String) :
    RoundTrips Settings.WithinWord Settings.toJson (Settings.ofJson? (.initial home)) ∧
      RoundTrips (fun _ ↦ True) Descriptor.toJson Descriptor.ofJson? ∧
      RoundTrips (fun _ ↦ True) PinSpec.toJson PinSpec.ofJson? ∧
      ∀ s : Settings, s.WithinWord → ∀ files path time files',
        s.save files path time = .ok files' → Settings.load (.initial home) files' path = .ok s := by
  refine ⟨.of_decoder Settings.proper_toJson (fun _ ↦ Settings.ofJson?_toJson _)
      fun _ _ ↦ Settings.withinWord_of_ofJson? (Settings.withinWord_initial home), ?_, ?_, ?_⟩
  · exact .of_decoder Descriptor.proper_toJson (fun d _ ↦ d.ofJson?_toJson) fun _ _ _ ↦ trivial
  · exact .of_decoder PinSpec.proper_toJson (fun p _ ↦ p.ofJson?_toJson) fun _ _ _ ↦ trivial
  · exact fun s hs _ _ _ _ h ↦ Settings.load_save hs h

/-- Settings without two of the fields, with one that is not known, and in another order. -/
def sparseText : String :=
  "\x7b\"hotReload\":true, \"theme\":[1,null], \"customNodeDirs\":[\"a\\\"\\u00e9\\n\"]\x7d"

/-- The settings that are read from it. -/
def sparse : Settings where
  folders := ["a\"é\n"]
  hotReload := true

theorem records_roundTrip_sparse :
    Value.decoded? (Settings.ofJson? (.initial (some "/home/user"))) sparseText = some sparse ∧
      Value.decoded? (Settings.ofJson? (.initial (some "/home/user"))) sparse.toJson.document =
        some sparse ∧
      ∃ files', sparse.save {} "engine.json" 7 = .ok files' ∧
        Settings.load (.initial (some "/home/user")) files' "engine.json" = .ok sparse := by
  obtain ⟨hsettings, -, -, hload⟩ := records_roundTrip (some "/home/user")
  have hread : Value.decoded? (Settings.ofJson? (.initial (some "/home/user"))) sparseText =
      some sparse := by decide +kernel
  obtain ⟨again, hagain, rfl, -⟩ :=
    hsettings.rewritten sparseText sparse hread Value.document (by simp [Value.layouts])
  have hwidth : sparse.WithinWord := show 4 < Number.wordLimit by decide
  have hsaved : ∃ files', sparse.save {} "engine.json" 7 = .ok files' := by
    refine ⟨FileTree.put {} ["engine.json"] ⟨some sparse.toJson.document, 7⟩, ?_⟩
    decide +kernel
  obtain ⟨files', hsave⟩ := hsaved
  exact ⟨hread, hagain, files', hsave, hload sparse hwidth _ _ _ _ hsave⟩

end RenderKit
