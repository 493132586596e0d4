import RenderKit.Proofs.Shader.Semantics
import RenderKit.Text.Identifier
import Std.Data.String.ToNat
import Mathlib.Data.List.Basic

/-!
# Names of locals

A local is named by a word and the number of its node, so different nodes have different locals,
and a name without an underscore is none of them. An operand is read by its part in front of the
first point: a name has no point, and channels stand behind one.
-/

namespace RenderKit

open RenderKit.Language

/-! ### Locals -/

theorem toList_localName (word : String) (node : NodeId) :
    (localName word node).toList = word.toList ++ '_' :: Nat.toDigits 10 node.toNat := by
  rw [localName, String.toList_append, String.toList_append, List.append_assoc]
  exact congrArg (word.toList ++ '_' :: ·) Nat.toList_repr

private theorem toDigits_inj {m n : Nat} (h : Nat.toDigits 10 m = Nat.toDigits 10 n) : m = n := by
  rw [← Nat.toList_repr, ← Nat.toList_repr] at h
  exact Nat.repr_inj.mp (String.toList_inj.mp h)

/-- Different words or different nodes give different names. -/
theorem localName_inj {word other : String} {node node' : NodeId} (hw : '_' ∉ word.toList)
    (h : localName word node = localName other node') : word = other ∧ node = node' := by
  have hl := congrArg String.toList h
  rw [toList_localName, toList_localName] at hl
  obtain ⟨hword, -, hdigits⟩ :=
    (List.append_cons_inj_of_notMem hw Nat.underscore_not_in_toDigits).mp hl
  exact ⟨String.toList_inj.mp hword, UInt32.toNat_inj.mp (toDigits_inj hdigits)⟩

theorem toList_outputName (word : String) (node : NodeId) (output : Nat) :
    (outputName word node output).toList =
      word.toList ++ '_' :: (Nat.toDigits 10 node.toNat ++ '_' :: ("out".toList ++
        Nat.toDigits 10 output)) := by
  have hdigits : (toString output).toList = Nat.toDigits 10 output := Nat.toList_repr
  rw [outputName, String.toList_append, String.toList_append, toList_localName, hdigits]
  simp

/-- Different nodes or different outputs give different names. -/
theorem outputName_inj {word : String} {node node' : NodeId} {output output' : Nat}
    (h : outputName word node output = outputName word node' output') :
    node = node' ∧ output = output' := by
  have hl := congrArg String.toList h
  rw [toList_outputName, toList_outputName] at hl
  have htail := (List.cons.inj (List.append_cancel_left hl)).2
  have hout : '_' ∉ "out".toList ++ Nat.toDigits 10 output := by
    rw [List.mem_append, not_or]
    exact ⟨by decide, Nat.underscore_not_in_toDigits⟩
  obtain ⟨hnode, -, houtput⟩ :=
    (List.append_cons_inj_of_notMem Nat.underscore_not_in_toDigits hout).mp htail
  exact ⟨UInt32.toNat_inj.mp (toDigits_inj hnode), toDigits_inj (List.append_cancel_left houtput)⟩

/-- The name of a local has one underscore behind its word, and that of an output's has two. -/
theorem localName_ne_outputName {word : String} (hw : '_' ∉ word.toList) (other : String)
    (node node' : NodeId) (output : Nat) : localName word node ≠ outputName other node' output := by
  intro h
  have hl := congrArg String.toList h
  rw [toList_localName, toList_outputName] at hl
  obtain ⟨-, -, hdigits⟩ :=
    (List.append_cons_inj_of_notMem hw Nat.underscore_not_in_toDigits).mp hl
  have hu : '_' ∈ Nat.toDigits 10 node.toNat := hdigits ▸ by simp
  exact Nat.underscore_not_in_toDigits hu

theorem underscore_mem_localName (word : String) (node : NodeId) :
    '_' ∈ (localName word node).toList := by
  rw [toList_localName]
  simp

/-- A name of characters that identifiers have is read as a whole. -/
theorem isIdentifierRest_localName {word : String} (node : NodeId)
    (hw : ∀ c ∈ word.toList, Text.isIdentifierRest c = true) :
    ∀ c ∈ (localName word node).toList, Text.isIdentifierRest c = true := by
  intro c hc
  rw [toList_localName, List.mem_append, List.mem_cons] at hc
  rcases hc with hc | rfl | hc
  · exact hw c hc
  · rfl
  · have hd := Nat.isDigit_of_mem_toDigits (by omega) (by omega) hc
    simp [Text.isIdentifierRest, Char.isAlphanum, hd]

theorem isIdentifierRest_outputName {word : String} (node : NodeId) (output : Nat)
    (hw : ∀ c ∈ word.toList, Text.isIdentifierRest c = true) :
    ∀ c ∈ (outputName word node output).toList, Text.isIdentifierRest c = true := by
  intro c hc
  have hdigits : (toString output).toList = Nat.toDigits 10 output := Nat.toList_repr
  rw [outputName, String.toList_append, String.toList_append, List.mem_append, List.mem_append,
    hdigits] at hc
  rcases hc with (hc | hc) | hc
  · exact isIdentifierRest_localName node hw c hc
  · have hout : "_out".toList.all Text.isIdentifierRest = true := by decide
    exact List.all_eq_true.mp hout c hc
  · have hd := Nat.isDigit_of_mem_toDigits (by omega) (by omega) hc
    simp [Text.isIdentifierRest, Char.isAlphanum, hd]

/-- A name of a local ends in a digit. -/
theorem isDigit_getLast_localName {word : String} {node : NodeId} {c : Char}
    (h : (localName word node).toList.getLast? = some c) : c.isDigit = true := by
  rw [toList_localName, List.append_cons, List.getLast?_append_of_ne_nil _ Nat.toDigits_ne_nil] at h
  exact Nat.isDigit_of_mem_toDigits (by omega) (by omega) (List.mem_of_getLast? h)

/-! ### Operands -/

/-- A name, or a channel of it behind a point. -/
def Language.point (name channel : String) : String :=
  name ++ if channel = "" then "" else "." ++ channel

/-- An operand without blanks and marks: a name, a number, or a member of something named. -/
def Language.Atomic (operand : String) : Prop :=
  operand ≠ "" ∧ ∀ c ∈ operand.toList, Text.isIdentifierRest c = true ∨ c = '.'

instance (operand : String) : Decidable (Atomic operand) :=
  decidable_of_iff
    (operand ≠ "" ∧ (operand.toList.all fun c ↦ Text.isIdentifierRest c || c == '.') = true)
    (by simp [Atomic])

private theorem all_ne_point {name : String} (h : '.' ∉ name.toList) :
    ∀ c ∈ name.toList, (c != '.') = true := by
  intro c hc
  rw [bne_iff_ne]
  rintro rfl
  exact h hc

theorem base_point {name : String} (h : '.' ∉ name.toList) (channel : String) :
    base (point name channel) = name := by
  rw [base, point, String.toList_append, List.takeWhile_append_of_pos (all_ne_point h)]
  split
  · simp
  · simp

theorem member_point {name : String} (h : '.' ∉ name.toList) (channel : String) :
    member (point name channel) = channel := by
  rw [member, point, String.toList_append, List.dropWhile_append_of_pos (all_ne_point h)]
  split
  · next hc => simp [hc]
  · simp

theorem base_of_not_mem {operand : String} (h : '.' ∉ operand.toList) : base operand = operand := by
  have hp := base_point h ""
  rwa [point, if_pos rfl, String.append_empty] at hp

theorem not_mem_of_isIdentifierRest {name : String} {c : Char}
    (h : ∀ c ∈ name.toList, Text.isIdentifierRest c = true) (hc : Text.isIdentifierRest c = false) :
    c ∉ name.toList := by
  intro hm
  rw [h c hm] at hc
  cases hc

theorem atomic_of_isIdentifierRest {name : String} (hne : name ≠ "")
    (h : ∀ c ∈ name.toList, Text.isIdentifierRest c = true) : Atomic name :=
  ⟨hne, fun c hc ↦ .inl (h c hc)⟩

theorem atomic_point {name channel : String} (hn : Atomic name)
    (hc : channel = "" ∨ Atomic channel) : Atomic (point name channel) := by
  rw [point]
  split
  · rwa [String.append_empty]
  · next hne =>
    refine ⟨by simp [hn.1], fun c hm ↦ ?_⟩
    rw [String.toList_append, String.toList_append, List.mem_append, List.mem_append] at hm
    rcases hm with hm | hm | hm
    · exact hn.2 c hm
    · exact .inr (by simpa using hm)
    · exact (hc.resolve_left hne).2 c hm

/-- An identifier is an atom without a point. -/
theorem isIdentifierRest_of_isIdentifier {name : String} (h : Text.isIdentifier name = true) :
    name ≠ "" ∧ ∀ c ∈ name.toList, Text.isIdentifierRest c = true := by
  rw [Text.isIdentifier] at h
  cases hl : name.toList with
  | nil =>
    rw [hl] at h
    cases h
  | cons first rest =>
    rw [hl] at h
    simp only [Bool.and_eq_true, List.all_eq_true] at h
    refine ⟨fun he ↦ by simp [he] at hl, fun c hc ↦ ?_⟩
    rcases List.mem_cons.mp hc with rfl | hc
    · exact Text.isIdentifierRest_of_start h.1
    · exact h.2 c hc

end RenderKit
