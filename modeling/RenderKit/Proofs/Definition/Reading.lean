import RenderKit.Definition.Reading
import RenderKit.Proofs.Refusal

/-!
# When definitions are read

What a record and a file must hold for a definition to be read from them, and which definition
that is.
-/

namespace RenderKit.TemplateDefinition

variable {d : TemplateDefinition}

/-- A record is taken when it passes all checks; its pins and its template are the definition's. -/
theorem ofRecord_eq_ok_iff {r : DefinitionRecord} :
    ofRecord r = .ok d ↔
      Text.allBlank r.name = false ∧ r.outputs.length < OutputKey.stride ∧
        checkPinNames r.inputs = .ok () ∧ checkPinNames r.outputs = .ok () ∧
          ∃ segments, Template.parse r.inputs r.outputs r.code.toList = .ok segments ∧
            { descriptor := ⟨r.name, r.category, r.description, r.inputs, r.outputs⟩
              segments := segments } = d := by
  unfold ofRecord
  cases hn : Text.allBlank r.name with
  | true => by_cases hs : OutputKey.stride ≤ r.outputs.length <;> simp [hs]
  | false =>
    by_cases hs : OutputKey.stride ≤ r.outputs.length
    · simp [hs, Nat.not_lt.mpr hs]
    · simp only [Bool.false_eq_true, if_false, hs, bind_eq_ok_iff, mapError_eq_ok_iff, true_and,
        Nat.lt_of_not_le hs, pure, Except.pure, Except.ok.injEq]
      constructor
      · rintro ⟨⟨⟩, hinputs, ⟨⟩, houtputs, h⟩
        exact ⟨hinputs, houtputs, h⟩
      · rintro ⟨hinputs, houtputs, h⟩
        exact ⟨(), hinputs, (), houtputs, h⟩

/-- A file is read when it is there, is text, and holds a definition, which remembers the file. -/
theorem ofFile_eq_ok_iff {files : FileTree} {path : String} :
    ofFile files path = .ok d ↔
      ∃ file text read, files.file path = .ok file ∧ file.text = some text ∧
        ofString text = .ok read ∧ { read with backing := some ⟨path, file.modified⟩ } = d := by
  simp only [ofFile, bind_eq_ok_iff, mapError_eq_ok_iff, FileTree.read, pure, Except.pure,
    Except.ok.injEq]
  constructor
  · rintro ⟨file, hfile, text, ⟨file', hfile', htext⟩, read, hread, rfl⟩
    rw [hfile] at hfile'
    cases hfile'
    cases ht : file.text with
    | none =>
      rw [ht] at htext
      cases htext
    | some content =>
      rw [ht] at htext
      cases htext
      exact ⟨file, text, read, hfile, ht, hread, rfl⟩
  · rintro ⟨file, text, read, hfile, htext, hread, rfl⟩
    exact ⟨file, hfile, text, ⟨file, hfile, by rw [htext]⟩, read, hread, rfl⟩

/-- The name of a definition that was read is not blank. -/
theorem allBlank_of_ofFile {files : FileTree} {path : String} (h : ofFile files path = .ok d) :
    Text.allBlank d.descriptor.name = false := by
  obtain ⟨_, text, read, -, -, hread, rfl⟩ := ofFile_eq_ok_iff.mp h
  rw [ofString] at hread
  cases hrecord : Json.Value.ofString? text >>= DefinitionRecord.ofJson? with
  | none =>
    rw [hrecord] at hread
    cases hread
  | some record =>
    rw [hrecord] at hread
    obtain ⟨htitled, -, -, -, _, -, rfl⟩ := ofRecord_eq_ok_iff.mp hread
    exact htitled

end RenderKit.TemplateDefinition
