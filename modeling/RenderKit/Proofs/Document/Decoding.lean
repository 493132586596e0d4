import RenderKit.Document.Graph
import RenderKit.Proofs.Json.Reading
import RenderKit.Proofs.Number.Restoring
import RenderKit.Proofs.Refusal
import RenderKit.Proofs.Time.Reading

/-!
# Documents are written and read

A document is read back from its text (`Writable.exists_ofString?`). A finite coordinate is read
back as it was (`Value.binary32?_ofBinary32`), and an infinite one has no numeral, so layouts must
be finite (`finite_of_ofString?`), pins numbered by words, and times regular.
-/

namespace RenderKit

open Json

namespace Json

/-- A natural number is written without zeros in front. -/
theorem Numeral.proper_ofNat (n : Nat) : (Numeral.ofNat n).Proper := by
  refine ⟨Numeral.digitsOf_ne_nil n, fun hzero ↦ ?_⟩
  rcases Nat.eq_zero_or_pos n with rfl | hn
  · exact Nat.le_refl 1
  · exact absurd hzero (Numeral.head?_digitsOf hn)

namespace Fields

variable {α : Type} {fields : Fields} {name other : String} {v : Value} {decode : Value → Option α}

@[simp] theorem required_cons_self : required ((name, v) :: fields) name decode = decode v := by
  rw [required, List.lookup_cons_self]
  rfl

@[simp] theorem required_cons_ne (h : name ≠ other) :
    required ((other, v) :: fields) name decode = required fields name decode := by
  rw [required, required, List.lookup_cons, beq_false_of_ne h]

@[simp] theorem optional_cons_self {default : α} :
    optional ((name, v) :: fields) name default decode = decode v := by
  rw [optional, List.lookup_cons_self]

@[simp] theorem optional_cons_ne {default : α} (h : name ≠ other) :
    optional ((other, v) :: fields) name default decode = optional fields name default decode := by
  rw [optional, optional, List.lookup_cons, beq_false_of_ne h]

end Fields

namespace Value

theorem Proper.record {members : List (String × Value)} (h : ∀ m ∈ members, Proper m.2) :
    Proper (record members) := by
  refine .object fun m hm ↦ ?_
  obtain ⟨member, hmember, rfl⟩ := List.mem_map.mp hm
  exact h member hmember

theorem Proper.items {α : Type} {toJson : α → Value} {xs : List α}
    (h : ∀ x ∈ xs, Proper (toJson x)) : Proper (.array (xs.map toJson)) := by
  refine .array fun v hv ↦ ?_
  obtain ⟨x, hx, rfl⟩ := List.mem_map.mp hv
  exact h x hx

theorem namedMembers?_map (members : List (String × Value)) :
    namedMembers? (members.map fun m ↦ (some m.1, m.2)) = some members := by
  rw [namedMembers?, mapM_eq_some_iff, List.forall₂_map_left_iff, List.forall₂_same]
  exact fun _ _ ↦ rfl

/-- The members of a record are found when they are the known ones. -/
theorem fields?_record {members : List (String × Value)} {names : List String}
    (h : members.map (·.1) = names) (hn : names.Nodup) :
    (record members).fields? names = some members := by
  have hall : members.filter (fun m ↦ names.contains m.1) = members := by
    rw [List.filter_eq_self]
    intro m hm
    rw [List.contains_iff_mem, ← h]
    exact List.mem_map_of_mem hm
  rw [record, fields?, namedMembers?_map, Option.bind_eq_bind, Option.bind_some, known?]
  simp only [hall, h, if_pos hn]

theorem natBelow?_ofNat {n limit : Nat} (h : n < limit) : (ofNat n).natBelow? limit = some n := by
  have hn : (Numeral.ofNat n).toNat? = some n := by
    rw [Numeral.toNat?, Numeral.ofNat, Numeral.ofDigits_digitsOf]
    rfl
  rw [ofNat, natBelow?, hn, Option.filter_some, if_pos (by simpa using h)]

@[simp] theorem word32?_ofNat (n : UInt32) : (ofNat n.toNat).word32? = some n := by
  rw [word32?, natBelow?_ofNat n.toNat_lt, Option.map_some, UInt32.ofNat_toNat]

theorem word64?_ofNat {n : Nat} (h : n < Number.wordLimit) : (ofNat n).word64? = some n :=
  natBelow?_ofNat h

/-- Items are read back as a list if they are read back one by one. -/
theorem list?_items_eq_some_iff {α β : Type} {decode : Value → Option β} {toJson : α → Value}
    {xs : List α} {ys : List β} :
    (array (xs.map toJson)).list? decode = some ys ↔
      List.Forall₂ (fun x y ↦ decode (toJson x) = some y) xs ys := by
  rw [list?, mapM_eq_some_iff, List.forall₂_map_left_iff]

/-- An infinite coordinate is written as nothing. -/
theorem ofBinary32_eq_null {x : Number.Binary32} (h : x.isFinite = false) : ofBinary32 x = .null := by
  have hrank : x.rank ≠ 0 := by
    rintro hzero
    rw [Number.Binary32.isFinite, hzero] at h
    exact absurd h (by decide)
  have hnumeral : x.numeral? = none := by
    simp only [Number.Binary32.numeral?, if_neg hrank, h, Bool.false_eq_true, if_false]
  rw [ofBinary32, hnumeral]

theorem proper_ofBinary32 (x : Number.Binary32) : Proper (ofBinary32 x) := by
  cases h : x.isFinite with
  | false =>
    rw [ofBinary32_eq_null h]
    exact .null
  | true =>
    obtain ⟨n, hn, hproper, -⟩ := Number.Binary32.restored h
    rw [ofBinary32, hn]
    exact .number hproper

/-- A finite coordinate is read back as it was. -/
theorem binary32?_ofBinary32 {x : Number.Binary32} (h : x.isFinite = true) :
    (ofBinary32 x).binary32? = some x := by
  obtain ⟨n, hn, -, hread, -⟩ := Number.Binary32.restored h
  rw [ofBinary32, hn]
  exact hread

/-- A coordinate can be read back exactly if it is finite. -/
theorem exists_binary32?_iff {x : Number.Binary32} :
    (∃ y, (ofBinary32 x).binary32? = some y) ↔ x.isFinite = true := by
  cases h : x.isFinite with
  | false => simp [ofBinary32_eq_null h, binary32?]
  | true => exact iff_of_true ⟨x, binary32?_ofBinary32 h⟩ rfl

end Value

end Json

/-! ### Layout -/

/-- A position in the plane. -/
structure Position.Finite (p : Position) : Prop where
  x : p.x.isFinite = true
  y : p.y.isFinite = true

/-- A size in the plane. -/
structure Extent.Finite (e : Extent) : Prop where
  width : e.width.isFinite = true
  height : e.height.isFinite = true

instance (p : Position) : Decidable p.Finite :=
  decidable_of_iff (p.x.isFinite = true ∧ p.y.isFinite = true)
    ⟨fun h ↦ ⟨h.1, h.2⟩, fun h ↦ ⟨h.1, h.2⟩⟩

instance (e : Extent) : Decidable e.Finite :=
  decidable_of_iff (e.width.isFinite = true ∧ e.height.isFinite = true)
    ⟨fun h ↦ ⟨h.1, h.2⟩, fun h ↦ ⟨h.1, h.2⟩⟩

theorem Position.proper_toJson (p : Position) : p.toJson.Proper := by
  refine .record ?_
  simp [Value.proper_ofBinary32]

theorem Extent.proper_toJson (e : Extent) : e.toJson.Proper := by
  refine .record ?_
  simp [Value.proper_ofBinary32]

/-- A pair of coordinates can be read back exactly if both are finite. -/
private theorem exists_coordinates_iff {α : Type} (make : Number.Binary32 → Number.Binary32 → α)
    {first second : String} (hne : second ≠ first) {x y : Number.Binary32} {fields : Fields}
    (hf : fields = [(first, .ofBinary32 x), (second, .ofBinary32 y)]) :
    (∃ a, ((fields.required first Value.binary32?).bind fun x' ↦
      (fields.required second Value.binary32?).bind fun y' ↦ some (make x' y')) = some a) ↔
        x.isFinite = true ∧ y.isFinite = true := by
  subst hf
  rw [Fields.required_cons_self, Fields.required_cons_ne hne, Fields.required_cons_self,
    ← Value.exists_binary32?_iff, ← Value.exists_binary32?_iff]
  simp only [Option.bind_eq_some_iff]
  constructor
  · rintro ⟨-, x', hx, y', hy, -⟩
    exact ⟨⟨x', hx⟩, ⟨y', hy⟩⟩
  · rintro ⟨⟨x', hx⟩, ⟨y', hy⟩⟩
    exact ⟨make x' y', x', hx, y', hy, rfl⟩

/-- A position can be read back exactly if it is finite. -/
theorem Position.exists_ofJson?_iff {p : Position} :
    (∃ q, ofJson? p.toJson = some q) ↔ p.Finite := by
  rw [ofJson?, toJson, Value.fields?_record (by rfl) (by decide)]
  exact (exists_coordinates_iff mk (by decide) rfl).trans
    ⟨fun h ↦ ⟨h.1, h.2⟩, fun h ↦ ⟨h.1, h.2⟩⟩

/-- A size can be read back exactly if it is finite. -/
theorem Extent.exists_ofJson?_iff {e : Extent} :
    (∃ f, ofJson? e.toJson = some f) ↔ e.Finite := by
  rw [ofJson?, toJson, Value.fields?_record (by rfl) (by decide)]
  exact (exists_coordinates_iff mk (by decide) rfl).trans
    ⟨fun h ↦ ⟨h.1, h.2⟩, fun h ↦ ⟨h.1, h.2⟩⟩

/-! ### Connections -/

/-- The pins of a connection are numbered by words. -/
structure Connection.Indexed (c : Connection) : Prop where
  output_lt : c.output < Number.wordLimit
  input_lt : c.input < Number.wordLimit

namespace Connection

instance (c : Connection) : Decidable c.Indexed :=
  decidable_of_iff (c.output < Number.wordLimit ∧ c.input < Number.wordLimit)
    ⟨fun h ↦ ⟨h.1, h.2⟩, fun h ↦ ⟨h.1, h.2⟩⟩

theorem proper_toJson (c : Connection) : c.toJson.Proper := by
  refine .record ?_
  simp [Value.ofNat, Value.Proper.number, Numeral.proper_ofNat]

theorem Indexed.ofJson?_toJson {c : Connection} (h : c.Indexed) :
    Connection.ofJson? c.toJson = some c := by
  rw [ofJson?, toJson, Value.fields?_record (by rfl) (by decide)]
  simp [Value.word64?_ofNat h.output_lt, Value.word64?_ofNat h.input_lt]

end Connection

/-! ### Families -/

namespace KindRecord

theorem proper_members (k : KindRecord) : ∀ m ∈ k.members, m.2.Proper := by
  cases k <;>
    simp [members, Value.ofText, Value.ofNat, Value.Proper.string, Value.Proper.number,
      Numeral.proper_ofNat, MathOperation.toJson, InputSemantic.toJson, OutputSemantic.toJson]

/-- The members of a family have other names than those that every node has. -/
theorem not_mem_ownNames (k : KindRecord) : ∀ m ∈ k.members, m.1 ∉ NodeRecord.ownNames := by
  cases k <;> simp [members, NodeRecord.ownNames]

/-- A family is told by its members. -/
theorem ofMembers?_members (k : KindRecord) : ofMembers? k.members = some k := by
  cases k with
  | math op => cases op <;> rfl
  | textureSample texture => rfl
  | vector components =>
    have h : ofMembers? (members (.vector components)) =
        (Value.ofNat components.toNat).word32?.bind fun n ↦ some (.vector n) := rfl
    rw [h, Value.word32?_ofNat, Option.bind_some]
  | input semantic customName => cases semantic <;> rfl
  | output semantic customName => cases semantic <;> rfl
  | custom definition => rfl

/-- The members of a family can be set aside. -/
theorem settable_members (k : KindRecord) (depth : Nat) :
    ∀ m ∈ k.members, NodeRecord.settable depth m.2 = true := by
  have htext (s : String) : NodeRecord.settable depth (.ofText s) = true := by
    simp [Value.ofText, NodeRecord.settable]
  cases k with
  | vector components =>
    have hlt : components.toNat < Number.wordLimit :=
      components.toNat_lt.trans (by decide : 2 ^ 32 < 2 ^ 64)
    simp [members, htext, Value.ofNat, NodeRecord.settable,
      Number.Binary32.isSome_ofNumeral?_ofNat hlt]
  | math op => simp [members, htext, MathOperation.toJson]
  | textureSample texture => simp [members, htext]
  | input semantic customName => simp [members, htext, InputSemantic.toJson]
  | output semantic customName => simp [members, htext, OutputSemantic.toJson]
  | custom definition => simp [members, htext]

end KindRecord

/-! ### Nodes -/

namespace NodeRecord

/-- The same node, wherever it stands. -/
structure Same (n m : NodeRecord) : Prop where
  id : m.id = n.id
  name : m.name = n.name
  category : m.category = n.category
  kind : m.kind = n.kind

/-- A node whose layout is finite. -/
structure Finite (n : NodeRecord) : Prop where
  position : n.position.Finite
  extent : n.extent.Finite

theorem proper_toJson (n : NodeRecord) : n.toJson.Proper := by
  refine .record fun m hm ↦ ?_
  rcases List.mem_append.mp hm with hm | hm
  · simp only [List.mem_cons, List.not_mem_nil, or_false] at hm
    rcases hm with rfl | rfl | rfl | rfl | rfl
    · exact .number (Numeral.proper_ofNat _)
    · exact .string _
    · exact .string _
    · exact n.position.proper_toJson
    · exact n.extent.proper_toJson
  · exact n.kind.proper_members m hm

/-- The members that every node has are told from those of its family. -/
private theorem filter_ownNames (own : Fields) {others : Fields}
    (hown : own.map (·.1) = ownNames) (hothers : ∀ m ∈ others, m.1 ∉ ownNames) :
    (own ++ others).filter (fun m ↦ ownNames.contains m.1) = own ∧
      (own ++ others).filter (fun m ↦ !ownNames.contains m.1) = others := by
  have hmem : ∀ m ∈ own, m.1 ∈ ownNames := fun m hm ↦ hown ▸ List.mem_map_of_mem hm
  rw [List.filter_append, List.filter_append]
  constructor
  · rw [List.filter_eq_self.mpr fun m hm ↦ by simpa using hmem m hm,
      List.filter_eq_nil_iff.mpr fun m hm ↦ by simpa using hothers m hm, List.append_nil]
  · rw [List.filter_eq_nil_iff.mpr fun m hm ↦ by simpa using hmem m hm,
      List.filter_eq_self.mpr fun m hm ↦ by simpa using hothers m hm, List.nil_append]

/-- Of a node, only its layout may be read back otherwise than it was written. -/
theorem ofJson?_toJson (n : NodeRecord) :
    ofJson? n.toJson = (Position.ofJson? n.position.toJson).bind fun position ↦
      (Extent.ofJson? n.extent.toJson).map fun extent ↦
        { n with position := position, extent := extent } := by
  obtain ⟨hknown, hothers⟩ := filter_ownNames [("id", .ofNat n.id.toNat), ("name", .ofText n.name),
    ("category", .ofText n.category), ("position", n.position.toJson), ("size", n.extent.toJson)]
    rfl n.kind.not_mem_ownNames
  have hsettable := List.all_eq_true.mpr (n.kind.settable_members nestingLimit)
  rw [toJson, Value.record, ofJson?, Value.namedMembers?_map]
  simp only [Option.bind_eq_bind, Option.bind_some, Value.known?, hknown, hothers, hsettable,
    KindRecord.ofMembers?_members]
  simp [Option.map_eq_bind]

/-- A node is read back, wherever it is read to stand, exactly if its layout is finite. -/
theorem exists_ofJson?_iff {n : NodeRecord} :
    (∃ m, ofJson? n.toJson = some m) ↔ n.Finite := by
  simp only [ofJson?_toJson, Option.bind_eq_some_iff, Option.map_eq_some_iff]
  constructor
  · rintro ⟨_, position, hp, extent, he, -⟩
    exact ⟨Position.exists_ofJson?_iff.mp ⟨position, hp⟩, Extent.exists_ofJson?_iff.mp ⟨extent, he⟩⟩
  · intro h
    obtain ⟨position, hp⟩ := Position.exists_ofJson?_iff.mpr h.position
    obtain ⟨extent, he⟩ := Extent.exists_ofJson?_iff.mpr h.extent
    exact ⟨_, position, hp, extent, he, rfl⟩

/-- A node that is read back is the same. -/
theorem same_of_ofJson? {n m : NodeRecord} (h : ofJson? n.toJson = some m) : n.Same m := by
  rw [ofJson?_toJson, Option.bind_eq_some_iff] at h
  obtain ⟨position, -, h⟩ := h
  obtain ⟨extent, -, rfl⟩ := Option.map_eq_some_iff.mp h
  exact ⟨rfl, rfl, rfl, rfl⟩

end NodeRecord

/-! ### Documents -/

namespace DocumentMetadata

/-- Times that a clock can show. -/
structure Regular (m : DocumentMetadata) : Prop where
  created : m.created.Regular
  modified : m.modified.Regular

theorem proper_toJson (m : DocumentMetadata) : m.toJson.Proper := by
  refine .record ?_
  simp [Value.ofText, Value.Proper.string]

theorem Regular.ofOptionalJson?_toJson {m : DocumentMetadata} (h : m.Regular) :
    ofOptionalJson? m.toJson = some (some m) := by
  have hrecord : ofOptionalJson? m.toJson = (ofJson? m.toJson).map some := rfl
  rw [hrecord, ofJson?, toJson, Value.fields?_record (by rfl) (by decide)]
  simp [instant?, Time.Instant.ofString?_text h.created, Time.Instant.ofString?_text h.modified]

end DocumentMetadata

namespace GraphDocument

/-- What a document must be like to be read back. -/
structure Writable (d : GraphDocument) : Prop where
  regular : ∀ m, d.metadata = some m → m.Regular
  finite : ∀ n ∈ d.nodes, n.Finite
  indexed : ∀ c ∈ d.connections, c.Indexed

variable {d : GraphDocument}

theorem proper_toJson (d : GraphDocument) : d.toJson.Proper := by
  refine .record fun m hm ↦ ?_
  simp only [List.mem_cons, List.not_mem_nil, or_false] at hm
  rcases hm with rfl | rfl | rfl | rfl | rfl
  · exact .string _
  · cases d.metadata with
    | none => exact .null
    | some m => exact m.proper_toJson
  · exact .string _
  · exact .items fun n _ ↦ n.proper_toJson
  · exact .items fun c _ ↦ c.proper_toJson

/-- A document is read back up to where its nodes stand. -/
theorem Writable.exists_ofJson? (h : d.Writable) :
    ∃ nodes, ofJson? d.toJson = some { d with nodes := nodes } ∧
      List.Forall₂ NodeRecord.Same d.nodes nodes := by
  have hnode : ∀ n ∈ d.nodes, NodeRecord.ofJson? n.toJson =
      some ((NodeRecord.ofJson? n.toJson).getD n) ∧
        n.Same ((NodeRecord.ofJson? n.toJson).getD n) := by
    intro n hn
    obtain ⟨m, hm⟩ := NodeRecord.exists_ofJson?_iff.mpr (h.finite n hn)
    have hsame := NodeRecord.same_of_ofJson? hm
    rw [hm, Option.getD_some]
    exact ⟨rfl, hsame⟩
  refine ⟨d.nodes.map fun n ↦ (NodeRecord.ofJson? n.toJson).getD n, ?_, ?_⟩
  · have hnodes := Value.list?_items_eq_some_iff.mpr (List.forall₂_map_right_iff.mpr
      (List.forall₂_same.mpr fun n hn ↦ (hnode n hn).1))
    have hconnections := Value.list?_items_eq_some_iff.mpr
      (List.forall₂_same.mpr fun c hc ↦ (h.indexed c hc).ofJson?_toJson)
    rw [ofJson?, toJson, Value.fields?_record (by rfl) (by decide)]
    cases hm : d.metadata with
    | none => simp [hnodes, hconnections, DocumentMetadata.ofOptionalJson?]
    | some m => simp [hnodes, hconnections, (h.regular m hm).ofOptionalJson?_toJson]
  · rw [List.forall₂_map_right_iff]
    exact List.forall₂_same.mpr fun n hn ↦ (hnode n hn).2

/-- A document is read back from its text up to where its nodes stand. -/
theorem Writable.exists_ofString? (h : d.Writable) :
    ∃ nodes, ofString? d.toJson.document = some { d with nodes := nodes } ∧
      List.Forall₂ NodeRecord.Same d.nodes nodes := by
  rw [ofString?, Value.ofString?_document d.proper_toJson]
  exact h.exists_ofJson?

/-- The nodes of a document that is read back are those that are read of its nodes. -/
theorem nodes_of_ofString? {e : GraphDocument} (h : ofString? d.toJson.document = some e) :
    List.Forall₂ (fun n m ↦ NodeRecord.ofJson? n.toJson = some m) d.nodes e.nodes := by
  rw [ofString?, Value.ofString?_document d.proper_toJson, Option.bind_eq_bind, Option.bind_some,
    ofJson?, toJson, Value.fields?_record (by rfl) (by decide)] at h
  obtain ⟨_, hfields, h⟩ := Option.bind_eq_some_iff.mp h
  obtain rfl := Option.some.inj hfields
  obtain ⟨version, -, h⟩ := Option.bind_eq_some_iff.mp h
  obtain ⟨metadata, -, h⟩ := Option.bind_eq_some_iff.mp h
  obtain ⟨name, -, h⟩ := Option.bind_eq_some_iff.mp h
  obtain ⟨nodes, hnodes, h⟩ := Option.bind_eq_some_iff.mp h
  obtain ⟨connections, -, h⟩ := Option.bind_eq_some_iff.mp h
  cases h
  rw [Fields.required_cons_ne (by decide), Fields.required_cons_ne (by decide),
    Fields.required_cons_ne (by decide), Fields.required_cons_self,
    Value.list?_items_eq_some_iff] at hnodes
  exact hnodes

/-- Only a document with a finite layout is read back from its text. -/
theorem finite_of_ofString? {e : GraphDocument} (h : ofString? d.toJson.document = some e) :
    ∀ n ∈ d.nodes, n.Finite := by
  have hnodes := nodes_of_ofString? h
  intro n hn
  obtain ⟨i, hi, rfl⟩ := List.mem_iff_getElem.mp hn
  have hread := hnodes.get hi (hnodes.length_eq ▸ hi)
  exact NodeRecord.exists_ofJson?_iff.mp ⟨_, hread⟩

end GraphDocument

end RenderKit
