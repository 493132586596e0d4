import RenderKit.Proofs.Shader.Families

/-!
# How statements read

An operation between two operands reads in one way when the operands are atoms: the text of the
statement falls at its blanks into the type, the local, the sign of equality, an operand, the mark
and the other operand.
-/

namespace RenderKit

open RenderKit.Language

/-- The parts of a text between blanks. -/
def Language.words (text : String) : List String :=
  (text.toList.splitOn ' ').map String.ofList

/-- A statement with an operation between operands has these as single words. -/
def Statement.Legible : Statement → Prop
  | .declare type name (.between mark first second) =>
    Atomic first ∧ Atomic second ∧
      words (text (.declare type name (.between mark first second))) =
        [type.shaderName, name, "=", first, mark, second ++ ";"]
  | _ => True

private theorem blank_not_mem {operand : String} (h : Atomic operand) : ' ' ∉ operand.toList := by
  intro hm
  rcases h.2 ' ' hm with hc | hc
  · revert hc
    decide
  · revert hc
    decide

theorem legible_of_atomic {type : PinType} {name mark first second : String}
    (hn : ' ' ∉ name.toList) (hm : ' ' ∉ mark.toList) (hf : Atomic first) (hs : Atomic second) :
    (Statement.declare type name (.between mark first second)).Legible := by
  refine ⟨hf, hs, ?_⟩
  have ht : ' ' ∉ type.shaderName.toList := by cases type <;> decide
  have hlist : (Statement.text (.declare type name (.between mark first second))).toList =
      [' '].intercalate ([type.shaderName, name, "=", first, mark, second ++ ";"].map
        String.toList) := by
    simp [Statement.text, Term.text, List.intercalate, String.toList_append]
  rw [words, hlist, List.splitOn_intercalate, List.map_map]
  · simp
  · intro part hp
    obtain ⟨word, hw, rfl⟩ := List.mem_map.mp hp
    simp only [List.mem_cons, List.not_mem_nil, or_false] at hw
    rcases hw with rfl | rfl | rfl | rfl | rfl | rfl
    · exact ht
    · exact hn
    · decide
    · exact blank_not_mem hf
    · exact hm
    · rw [String.toList_append, List.mem_append, not_or]
      exact ⟨blank_not_mem hs, by decide⟩
  · simp

/-- An operation that is written between its operands has two, and a mark without blanks. -/
private theorem between_facts {op : MathOperation} {mark : String} (h : op.form = .between mark) :
    op.inputs.length = 2 ∧ ' ' ∉ mark.toList ∧ ∀ spec ∈ op.inputs, Atomic spec.default := by
  cases op <;> cases h <;> decide

/-- The default literals of operands around a mark are atoms. -/
theorem atomic_default {op : MathOperation} {mark : String} (h : op.form = .between mark)
    {spec : PinSpec} (hs : spec ∈ op.inputs) : Atomic spec.default :=
  (between_facts h).2.2 spec hs

/-- A node writes legible statements if the operands around marks are atoms. -/
theorem legible_written {kind : NodeKind} {node : NodeId} {inputs : List String}
    (hl : inputs.length = kind.descriptor.inputs.length)
    (ha : ∀ op mark, kind = .math op → op.form = .between mark → ∀ input ∈ inputs, Atomic input) :
    ∀ statement ∈ kind.written node inputs, statement.Legible := by
  cases kind with
  | math op =>
    intro statement hm
    obtain rfl := List.mem_singleton.mp hm
    rw [MathOperation.term]
    cases hf : op.form with
    | between mark =>
      obtain ⟨htwo, hmark, -⟩ := between_facts hf
      obtain ⟨first, second, rfl⟩ := List.length_eq_two.mp (hl.trans htwo)
      have hatom := ha op mark rfl hf
      refine legible_of_atomic ?_ hmark (hatom first (by simp)) (hatom second (by simp))
      have hn : (NodeKind.math op).local? node = some (localName "math" node) := rfl
      exact blank_not_mem (NodeKind.atomic_local hn)
    | unary function => trivial
    | binary function => trivial
  | vector | textureSample =>
    intro statement hm
    obtain rfl := List.mem_singleton.mp hm
    trivial
  | output semantic customName =>
    intro statement hm
    obtain rfl := List.mem_singleton.mp hm
    rw [OutputSemantic.statement]
    split <;> trivial
  | input | custom => exact fun _ hm ↦ absurd hm List.not_mem_nil

end RenderKit
