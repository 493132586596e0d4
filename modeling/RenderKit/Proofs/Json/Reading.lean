import RenderKit.Json.Reader
import RenderKit.Proofs.Json.Scanning

/-!
# Reading printed JSON

A value is written as a sequence of words, between which blanks may stand. The scanner finds the
words of a printed value (`Words`), and the reader makes the value of them, so printing a value and
reading the text gives the value back, in both layouts (`ofString?_document`, `ofString?_compact`).
-/

namespace RenderKit.Json

/-! ### The words of a value -/

namespace Value

mutual

/-- The words that a value is written in. -/
def tokens : Value → List Token
  | .null => [.null]
  | .bool b => [.bool b]
  | .number n => [.number n]
  | .string s => [.string s]
  | .array items => .openArray :: ([Token.comma].intercalate (itemTokens items) ++ [.closeArray])
  | .object members =>
    .openObject :: ([Token.comma].intercalate (memberTokens members) ++ [.closeObject])

/-- The words of each item of an array. -/
def itemTokens : List Value → List (List Token)
  | [] => []
  | v :: rest => tokens v :: itemTokens rest

/-- The words of each member of an object. -/
def memberTokens : List (Option String × Value) → List (List Token)
  | [] => []
  | (name, v) :: rest => (.string name :: .colon :: tokens v) :: memberTokens rest

end

/-- All numerals of a value are proper. -/
inductive Proper : Value → Prop where
  | null : Proper .null
  | bool (b : Bool) : Proper (.bool b)
  | number {n : Numeral} : n.Proper → Proper (.number n)
  | string (s : Option String) : Proper (.string s)
  | array {items : List Value} : (∀ v ∈ items, Proper v) → Proper (.array items)
  | object {members : List (Option String × Value)} :
      (∀ m ∈ members, Proper m.2) → Proper (.object members)

end Value

/-! ### From words to the value -/

namespace Reader

open Value

/-- The first word of a value does not close an array. -/
private theorem foldlM_firstItem (v : Value) (items : List Value) (inside : List Frame) :
    ([Token.comma].intercalate (itemTokens (v :: items)) ++ [Token.closeArray]).foldlM step
        (.firstItem inside) =
      ([Token.comma].intercalate (itemTokens (v :: items)) ++ [Token.closeArray]).foldlM step
        (.value (.array [] :: inside)) := by
  have hfirst : ∀ rest : List Token, (v.tokens ++ rest).foldlM step (.firstItem inside) =
      (v.tokens ++ rest).foldlM step (.value (.array [] :: inside)) := by
    intro rest
    cases v <;> rfl
  cases items with
  | nil =>
    rw [itemTokens, itemTokens, List.intercalate_singleton]
    exact hfirst _
  | cons w items =>
    rw [itemTokens, itemTokens, List.intercalate_cons_cons, List.append_assoc, List.append_assoc]
    exact hfirst _

/-- The first word of a member is its name. -/
private theorem foldlM_firstName (m : Option String × Value)
    (members : List (Option String × Value)) (inside : List Frame) :
    ([Token.comma].intercalate (memberTokens (m :: members)) ++ [Token.closeObject]).foldlM step
        (.firstName inside) =
      ([Token.comma].intercalate (memberTokens (m :: members)) ++ [Token.closeObject]).foldlM step
        (.nextName [] inside) := by
  obtain ⟨name, v⟩ := m
  cases members with
  | nil =>
    rw [memberTokens, memberTokens, List.intercalate_singleton]
    rfl
  | cons w members =>
    obtain ⟨next, w⟩ := w
    rw [memberTokens, memberTokens, List.intercalate_cons_cons, List.append_assoc,
      List.append_assoc]
    rfl

/-- Items that are read one by one make an array. -/
private theorem foldlM_items (v : Value) (items : List Value) (done : List Value)
    (inside : List Frame)
    (h : ∀ item ∈ v :: items, ∀ inside,
      item.tokens.foldlM step (.value inside) = some (.complete item inside)) :
    ([Token.comma].intercalate (itemTokens (v :: items)) ++ [Token.closeArray]).foldlM step
        (.value (.array done :: inside)) =
      some (.complete (.array (done.reverse ++ v :: items)) inside) := by
  have hv := h v List.mem_cons_self (.array done :: inside)
  induction items generalizing v done with
  | nil =>
    rw [itemTokens, itemTokens, List.intercalate_singleton, List.foldlM_append, hv]
    simp [step]
  | cons w items ih =>
    have hitems := ih w (v :: done) (fun item hi ↦ h item (List.mem_cons_of_mem _ hi))
      (h w (by simp) _)
    rw [itemTokens, itemTokens, List.intercalate_cons_cons, List.append_assoc, List.append_assoc,
      List.foldlM_append, hv]
    rw [itemTokens, List.reverse_cons, List.append_assoc] at hitems
    exact hitems

/-- Members that are read one by one make an object. -/
private theorem foldlM_members (m : Option String × Value) (members : List (Option String × Value))
    (done : List (Option String × Value)) (inside : List Frame)
    (h : ∀ member ∈ m :: members, ∀ inside,
      member.2.tokens.foldlM step (.value inside) = some (.complete member.2 inside)) :
    ([Token.comma].intercalate (memberTokens (m :: members)) ++ [Token.closeObject]).foldlM step
        (.nextName done inside) =
      some (.complete (.object (done.reverse ++ m :: members)) inside) := by
  obtain ⟨name, v⟩ := m
  have hv : (Token.string name :: .colon :: v.tokens).foldlM step (.nextName done inside) =
      some (.complete v (.object done name :: inside)) :=
    h (name, v) List.mem_cons_self (.object done name :: inside)
  induction members generalizing name v done with
  | nil =>
    rw [memberTokens, memberTokens, List.intercalate_singleton, List.foldlM_append, hv]
    simp [step]
  | cons w members ih =>
    obtain ⟨next, w⟩ := w
    have hmembers := ih ((name, v) :: done) next w
      (fun member hm ↦ h member (List.mem_cons_of_mem _ hm)) (h (next, w) (by simp) _)
    rw [memberTokens, memberTokens, List.intercalate_cons_cons, List.append_assoc,
      List.append_assoc, List.foldlM_append, hv]
    rw [memberTokens, List.reverse_cons, List.append_assoc] at hmembers
    exact hmembers

/-- The words of a value make the value. -/
theorem foldlM_tokens {v : Value} (h : v.Proper) (inside : List Frame) :
    v.tokens.foldlM step (.value inside) = some (.complete v inside) := by
  induction h generalizing inside with
  | null | bool | number | string => simp [tokens, step, startValue]
  | @array items _ ih =>
    cases items with
    | nil => rfl
    | cons v items =>
      have hitems := foldlM_items v items [] inside ih
      rw [← foldlM_firstItem] at hitems
      exact hitems
  | @object members _ ih =>
    cases members with
    | nil => rfl
    | cons m members =>
      have hmembers := foldlM_members m members [] inside ih
      rw [← foldlM_firstName] at hmembers
      exact hmembers

end Reader

/-- The words of a value are read as the value. -/
theorem Value.ofTokens?_tokens {v : Value} (h : v.Proper) : Value.ofTokens? v.tokens = some v := by
  rw [ofTokens?, Reader.foldlM_tokens h]
  rfl

/-! ### From the text to words -/

namespace Token

/-- The words of a text, between which blanks may stand. -/
inductive Words : List Char → List Token → Prop where
  | nil : Words [] []
  | blank {c : Char} {cs : List Char} {ts : List Token} :
      isSpace c = true → Words cs ts → Words (c :: cs) ts
  | word {text rest : List Char} {t : Token} {ts : List Token} :
      text ≠ [] → scan? (text ++ rest) = some (t, rest) → Words rest ts →
        Words (text ++ rest) (t :: ts)

/-- A mark is a word of one character. -/
theorem Words.mark {c : Char} {rest : List Char} {t : Token} {ts : List Token}
    (h : scan? (c :: rest) = some (t, rest)) (hw : Words rest ts) : Words (c :: rest) (t :: ts) :=
  .word (List.cons_ne_nil c []) h hw

/-- No word starts with a blank. -/
private theorem dropWhile_of_scan? {cs : List Char} {result : Token × List Char}
    (h : scan? cs = some result) : cs.dropWhile isSpace = cs := by
  cases cs with
  | nil => rfl
  | cons c cs =>
    by_cases hc : isSpace c = true
    · simp only [isSpace, Bool.or_eq_true, beq_iff_eq] at hc
      rcases hc with ((rfl | rfl) | rfl) | rfl
      all_goals cases h
    · exact List.dropWhile_cons_of_neg hc

/-- The scanner finds the words of a text, if it may take as many steps as there are characters. -/
theorem Words.scanAll_eq {cs : List Char} {ts : List Token} (h : Words cs ts) {fuel : Nat}
    (hf : cs.length ≤ fuel) (seen : List Token) :
    scanAll fuel seen cs = some (seen.reverse ++ ts) := by
  induction h generalizing fuel seen with
  | nil =>
    rw [scanAll.eq_def]
    simp
  | @blank c cs ts hc _ ih =>
    rw [List.length_cons] at hf
    have hcs := ih (Nat.le_of_succ_le hf) seen
    rw [scanAll.eq_def] at hcs ⊢
    rwa [List.dropWhile_cons_of_pos hc]
  | @word text rest t ts hne hs _ ih =>
    obtain ⟨c, text, rfl⟩ := List.exists_cons_of_ne_nil hne
    rw [List.cons_append] at hs hf ⊢
    cases fuel with
    | zero => cases hf
    | succ fuel =>
      rw [List.length_cons, List.length_append] at hf
      have hrest := @ih fuel (by omega) (t :: seen)
      rw [scanAll.eq_def, dropWhile_of_scan? hs]
      simp only [hs, hrest]
      simp

theorem Words.blanks {blanks cs : List Char} {ts : List Token}
    (hb : ∀ c ∈ blanks, isSpace c = true) (h : Words cs ts) : Words (blanks ++ cs) ts := by
  induction blanks with
  | nil => exact h
  | cons c blanks ih =>
    exact .blank (hb c List.mem_cons_self) (ih fun d hd ↦ hb d (List.mem_cons_of_mem _ hd))

/-- A text is written in some words, whatever stands behind it that does not go on with a number. -/
def Spells (text : String) (words : List Token) : Prop :=
  ∀ rest more, NumberEnds rest → Words rest more → Words (text.toList ++ rest) (words ++ more)

end Token

namespace Value

open Token

/-- A text of blanks. -/
private def Blank (text : String) : Prop :=
  ∀ c ∈ text.toList, isSpace c = true

private theorem blank_empty : Blank "" := by
  intro c hc
  cases hc

private theorem blank_space : Blank " " := by
  intro c hc
  rw [List.mem_singleton.mp hc]
  rfl

private theorem blank_line (depth : Nat) : Blank ("\n" ++ margin depth) := by
  intro c hc
  rw [String.toList_append, List.mem_append] at hc
  rcases hc with hc | hc
  · rw [List.mem_singleton.mp hc]
    rfl
  · rw [margin, String.toList_ofList] at hc
    rw [(List.mem_replicate.mp hc).2]
    rfl

/-- A number does not go on in blanks. -/
private theorem Blank.numberEnds {text : String} (hb : Blank text) {rest : List Char}
    (h : NumberEnds rest) : NumberEnds (text.toList ++ rest) := by
  rw [Blank] at hb
  cases htext : text.toList with
  | nil => exact h
  | cons c cs =>
    have hc : isSpace c = true := hb c (by simp [htext])
    simp only [isSpace, Bool.or_eq_true, beq_iff_eq] at hc
    rcases hc with ((rfl | rfl) | rfl) | rfl <;> exact numberEnds_cons (by decide)

/-- Lines with commas, and blanks behind them, between. -/
private theorem words_lines {lines : List String} {words : List (List Token)}
    (h : List.Forall₂ Spells lines words) (hne : lines ≠ []) {gap : String} (hg : Blank gap)
    {rest : List Char} {more : List Token} (hr : NumberEnds rest) (hw : Words rest more) :
    Words ((("," ++ gap).intercalate lines).toList ++ rest)
      ([Token.comma].intercalate words ++ more) := by
  induction h with
  | nil => exact absurd rfl hne
  | @cons line word lines words hline hlines ih =>
    cases hlines with
    | nil =>
      rw [String.intercalate_singleton, List.intercalate_singleton]
      exact hline rest more hr hw
    | @cons next _ lines words hnext hlines =>
      have hcomma : Words (',' :: (gap.toList ++
          ((("," ++ gap).intercalate (next :: lines)).toList ++ rest))) _ :=
        .mark rfl ((ih (by simp)).blanks hg)
      have hspelt := hline _ _ (numberEnds_cons (by decide)) hcomma
      rw [String.intercalate_cons_cons, List.intercalate_cons_cons]
      simpa [String.toList_append] using hspelt

/-- A container is written in its marks and the words of its lines. -/
private theorem spells_enclosed (opening closing : Char) {first last : Token}
    (ho : ∀ rest, scan? (opening :: rest) = some (first, rest))
    (hc : ∀ rest, scan? (closing :: rest) = some (last, rest))
    (hends : closing.isDigit = false ∧ closing ≠ '.' ∧ closing ≠ 'e' ∧ closing ≠ 'E')
    {before gap after : String} (hbefore : Blank before) (hgap : Blank gap) (hafter : Blank after)
    {lines : List String} {words : List (List Token)} (h : List.Forall₂ Spells lines words) :
    Spells (String.singleton opening ++ before ++ ("," ++ gap).intercalate lines ++ after
        ++ String.singleton closing)
      (first :: ([Token.comma].intercalate words ++ [last])) := by
  intro rest more hr hw
  have hclosed : Words (closing :: rest) (last :: more) := .mark (hc rest) hw
  have hend : Words (after.toList ++ closing :: rest) (last :: more) := hclosed.blanks hafter
  cases h with
  | nil =>
    have hopen : Words (opening :: (before.toList ++ (after.toList ++ closing :: rest)))
        (first :: last :: more) := .mark (ho _) (hend.blanks hbefore)
    simpa [String.toList_append] using hopen
  | @cons line word lines words hline hlines =>
    have hlines := words_lines (.cons hline hlines) (by simp) hgap
      (hafter.numberEnds (numberEnds_cons hends)) hend
    have hopen : Words (opening :: (before.toList ++ _)) _ := .mark (ho _) (hlines.blanks hbefore)
    simpa [String.toList_append] using hopen

/-- A container with a line for each of its items is written in its marks and their words. -/
private theorem spells_laidOut (opening closing : Char) {first last : Token}
    (ho : ∀ rest, scan? (opening :: rest) = some (first, rest))
    (hc : ∀ rest, scan? (closing :: rest) = some (last, rest))
    (hends : closing.isDigit = false ∧ closing ≠ '.' ∧ closing ≠ 'e' ∧ closing ≠ 'E')
    (depth : Nat) {lines : List String} {words : List (List Token)}
    (h : List.Forall₂ Spells lines words) :
    Spells (laidOut depth (String.singleton opening) (String.singleton closing) lines)
      (first :: ([Token.comma].intercalate words ++ [last])) := by
  cases h with
  | nil =>
    have hnone := spells_enclosed opening closing ho hc hends blank_empty blank_empty blank_empty .nil
    simpa [laidOut] using hnone
  | @cons line word lines words hline hlines =>
    have hsome := spells_enclosed opening closing ho hc hends (blank_line (depth + 1))
      (blank_line (depth + 1)) (blank_line depth) (.cons hline hlines)
    have hcomma : ",\n" ++ margin (depth + 1) = "," ++ ("\n" ++ margin (depth + 1)) := by
      rw [← String.append_assoc]
      rfl
    rw [laidOut, hcomma]
    simpa [String.append_assoc] using hsome

/-- A member is written in its name, a colon and its value. -/
private theorem spells_member (name : Option String) {gap : String} (hg : Blank gap) {text : String}
    {words : List Token} (h : Spells text words) :
    Spells (stringText name ++ (":" ++ gap) ++ text) (.string name :: .colon :: words) := by
  intro rest more hr hw
  have hcolon : Words (':' :: (gap.toList ++ (text.toList ++ rest))) (.colon :: (words ++ more)) :=
    .mark rfl ((h rest more hr hw).blanks hg)
  have hname := Words.word (toList_stringText_ne_nil name) (scan?_string name _) hcolon
  simpa [String.toList_append] using hname

/-- Items are written in their words, if each is by its printer. -/
private theorem spells_items {items : List Value} {print : Value → String}
    (h : ∀ v ∈ items, Spells (print v) v.tokens) :
    List.Forall₂ Spells (items.map print) (itemTokens items) := by
  induction items with
  | nil => exact .nil
  | cons v items ih =>
    exact .cons (h v List.mem_cons_self) (ih fun w hw ↦ h w (List.mem_cons_of_mem _ hw))

/-- Members are written in their words, if the value of each is by its printer. -/
private theorem spells_members {members : List (Option String × Value)} {print : Value → String}
    {gap : String} (hg : Blank gap) (h : ∀ m ∈ members, Spells (print m.2) m.2.tokens) :
    List.Forall₂ Spells (members.map fun m ↦ stringText m.1 ++ (":" ++ gap) ++ print m.2)
      (memberTokens members) := by
  induction members with
  | nil => exact .nil
  | cons m members ih =>
    exact .cons (spells_member m.1 hg (h m List.mem_cons_self))
      (ih fun w hw ↦ h w (List.mem_cons_of_mem _ hw))

private theorem spells_bool (b : Bool) : Spells (if b then "true" else "false") [.bool b] := by
  intro rest more _ hw
  cases b with
  | true => exact .word (by decide) rfl hw
  | false => exact .word (by decide) rfl hw

private theorem spells_null : Spells "null" [.null] :=
  fun _ _ _ hw ↦ .word (by decide) rfl hw

private theorem spells_number {n : Numeral} (h : n.Proper) : Spells n.text [.number n] :=
  fun _ _ hr hw ↦ .word (Numeral.toList_text_ne_nil h) (scan?_number h hr) hw

private theorem spells_string (s : Option String) : Spells (stringText s) [.string s] :=
  fun rest _ _ hw ↦ .word (toList_stringText_ne_nil s) (scan?_string s rest) hw

private theorem prettyItems_eq (depth : Nat) (items : List Value) :
    prettyItems depth items = items.map (pretty (depth + 1)) := by
  induction items with
  | nil => rfl
  | cons v items ih => rw [prettyItems, ih, List.map_cons]

private theorem prettyMembers_eq (depth : Nat) (members : List (Option String × Value)) :
    prettyMembers depth members =
      members.map fun m ↦ stringText m.1 ++ (":" ++ " ") ++ pretty (depth + 1) m.2 := by
  induction members with
  | nil => rfl
  | cons m members ih =>
    rw [prettyMembers, ih, List.map_cons]
    rfl

private theorem compactItems_eq (items : List Value) :
    compactItems items = items.map compact := by
  induction items with
  | nil => rfl
  | cons v items ih => rw [compactItems, ih, List.map_cons]

private theorem compactMembers_eq (members : List (Option String × Value)) :
    compactMembers members = members.map fun m ↦ stringText m.1 ++ (":" ++ "") ++ compact m.2 := by
  induction members with
  | nil => rfl
  | cons m members ih =>
    rw [compactMembers, ih, List.map_cons]
    rfl

/-- A printed value is written in its words. -/
theorem spells_pretty {v : Value} (h : v.Proper) (depth : Nat) :
    Spells (v.pretty depth) v.tokens := by
  induction h generalizing depth with
  | null => exact spells_null
  | bool b => exact spells_bool b
  | number hn => exact spells_number hn
  | string s => exact spells_string s
  | array _ ih =>
    rw [pretty, tokens, prettyItems_eq]
    exact spells_laidOut '[' ']' (fun _ ↦ rfl) (fun _ ↦ rfl) (by decide) depth
      (spells_items fun v hv ↦ ih v hv (depth + 1))
  | object _ ih =>
    rw [pretty, tokens, prettyMembers_eq]
    exact spells_laidOut '\x7b' '\x7d' (fun _ ↦ rfl) (fun _ ↦ rfl) (by decide) depth
      (spells_members blank_space fun m hm ↦ ih m hm (depth + 1))

/-- So is one that is printed without blanks. -/
theorem spells_compact {v : Value} (h : v.Proper) : Spells v.compact v.tokens := by
  induction h with
  | null => exact spells_null
  | bool b => exact spells_bool b
  | number hn => exact spells_number hn
  | string s => exact spells_string s
  | array _ ih =>
    rw [compact, tokens, compactItems_eq]
    have henclosed := spells_enclosed '[' ']' (fun _ ↦ rfl) (fun _ ↦ rfl) (by decide) blank_empty
      blank_empty blank_empty (spells_items ih)
    simpa using henclosed
  | object _ ih =>
    rw [compact, tokens, compactMembers_eq]
    have henclosed := spells_enclosed '\x7b' '\x7d' (fun _ ↦ rfl) (fun _ ↦ rfl) (by decide)
      blank_empty blank_empty blank_empty (spells_members blank_empty ih)
    simpa using henclosed

/-- A text is read as the value in whose words it is written. -/
theorem ofString?_of_spells {v : Value} (h : v.Proper) {text : String}
    (ht : Spells text v.tokens) : ofString? text = some v := by
  have hw := ht [] [] (by simp [NumberEnds]) .nil
  rw [List.append_nil, List.append_nil] at hw
  rw [ofString?, Token.all?, hw.scanAll_eq (Nat.le_refl _)]
  exact ofTokens?_tokens h

/-- A printed document is read back. -/
theorem ofString?_document {v : Value} (h : v.Proper) : ofString? v.document = some v :=
  ofString?_of_spells h (spells_pretty h 0)

/-- So is one that is printed without blanks. -/
theorem ofString?_compact {v : Value} (h : v.Proper) : ofString? v.compact = some v :=
  ofString?_of_spells h (spells_compact h)

end Value

end RenderKit.Json
