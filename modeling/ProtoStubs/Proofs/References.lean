import ProtoStubs.Proofs.Demands

/-!
What a schema file refers to: the types of the fields of its messages, at any depth but outside of
map entries, the types of the values of its map fields, and the inputs and outputs of the methods of
its first service. These are the references in its outline, no more and no less.
-/

namespace ProtoStubs

namespace Field

variable {f : Field} {index : Table String Message} {t : String}

def IsNamed (f : Field) : Prop :=
  f.kind.meaning? = some .enum ∨ f.kind.meaning? = some .message

/-- The field refers to a type. A map field refers to the type of its values alone. -/
inductive Refers (index : Table String Message) (f : Field) : String → Prop
  | type (hf : f.IsNamed)
      (hmap : f.kind.meaning? = some .message → index.get? f.typeName = none) :
      Refers index f f.typeName
  | value {entry : Message} {v : Field} (hf : f.kind.meaning? = some .message)
      (hentry : index.get? f.typeName = some entry) (hv : entry.fields[1]? = some v)
      (hnamed : v.IsNamed) : Refers index f v.typeName

theorem mem_elementType : .type t ∈ f.elementType.references ↔ f.IsNamed ∧ f.typeName = t := by
  unfold elementType IsNamed
  cases f.kind.meaning? with
  | none => simp [TypeExpr.references]
  | some k => cases k <;> simp [TypeExpr.references, eq_comm]

theorem mem_plainType : .type t ∈ f.plainType.references ↔ f.IsNamed ∧ f.typeName = t := by
  rw [← mem_elementType, plainType]
  split <;> rfl

/-- A map field is written by the value of its map entry, any other field by itself. -/
theorem exists_mem_type (f : Field) (index : Table String Message) {P : Reference → Prop}
    (hmissing : ¬P .missingValue) :
    (∃ r ∈ (f.type index).references, P r) ↔
      (∃ entry v, f.kind.meaning? = some .message ∧ index.get? f.typeName = some entry ∧
        entry.fields[1]? = some v ∧ ∃ r ∈ v.plainType.references, P r) ∨
      (f.kind.meaning? = some .message → index.get? f.typeName = none) ∧
        ∃ r ∈ f.plainType.references, P r := by
  unfold type
  split
  · rename_i entry hkind hentry
    rw [TypeExpr.references]
    cases hv : entry.fields[1]? with
    | none => simp [hkind, hentry, hv, TypeExpr.references, hmissing]
    | some v => simp [hkind, hentry, hv]
  · rename_i hother
    have hmap : f.kind.meaning? = some .message → index.get? f.typeName = none := by
      intro hkind
      rw [Option.eq_none_iff_forall_not_mem]
      exact fun entry => hother entry hkind
    constructor
    · exact fun h => Or.inr ⟨hmap, h⟩
    · rintro (⟨entry, _, hkind, hentry, _⟩ | ⟨_, h⟩)
      · exact (hother entry hkind hentry).elim
      · exact h

theorem mem_type : .type t ∈ (f.type index).references ↔ f.Refers index t := by
  have htype := exists_mem_type f index (P := (· = .type t)) (by simp)
  simp only [exists_eq_right, mem_plainType] at htype
  rw [htype]
  constructor
  · rintro (⟨entry, v, hkind, hentry, hv, hnamed, rfl⟩ | ⟨hmap, hnamed, rfl⟩)
    · exact .value hkind hentry hv hnamed
    · exact .type hnamed hmap
  · rintro (⟨hnamed, hmap⟩ | ⟨hkind, hentry, hv, hnamed⟩)
    · exact Or.inr ⟨hmap, hnamed, rfl⟩
    · exact Or.inl ⟨_, _, hkind, hentry, hv, hnamed, rfl⟩

end Field

theorem EnumDef.references_eq_nil {outer : String} {e : EnumDef} {b : Block Reference}
    (h : .block b ∈ e.outline outer) : b.references = [] := by
  unfold EnumDef.outline at h
  split at h
  · simp at h
  · obtain rfl : b = e.block outer := by simpa using h
    rfl

/-- The references of a service are the inputs and outputs of its methods. -/
theorem Service.exists_references_iff {s : Service} {package t : String} {role : Role} :
    (∃ b, .block b ∈ s.outline package role ∧ .type t ∈ b.references) ↔
      ∃ m ∈ s.methods, t = m.input ∨ t = m.output := by
  simp only [Service.outline, List.mem_append, List.mem_flatMap]
  constructor
  · rintro ⟨b, ⟨m, hm, hnote | hstub⟩ | hexports, ht⟩
    · split at hnote <;> simp at hnote
    · obtain rfl := Item.block.inj (List.mem_singleton.mp hstub)
      exact ⟨m, hm, by simpa [Block.references, TypeExpr.references] using ht⟩
    · obtain rfl := Item.block.inj (List.mem_singleton.mp hexports)
      simp [Block.references] at ht
  · rintro ⟨m, hm, ht⟩
    exact ⟨_, .inl ⟨m, hm, .inr (List.mem_singleton_self _)⟩,
      by simpa [Block.references, TypeExpr.references] using ht⟩

theorem join_concat (path : List String) (name : String) :
    String.join (path ++ [name]) = String.join path ++ name := by
  rw [String.join_append, String.join_cons, String.join_nil, String.append_empty]

namespace Message

variable {package outer : String} {scope inner : List String} {m : Message} {ms : List Message}
  {r : Reference}

/-- The message is among `ms` or nested in one of them, at any depth, and neither it nor a message
around it is a map entry. The messages around it are named by `inner`, those around `ms` by
`scope`. -/
inductive Reached : List String → List Message → List String → Message → Prop
  | here {scope : List String} {ms : List Message} {m : Message} (hm : m ∈ ms)
      (hentry : m.mapEntry = false) : Reached scope ms scope m
  | nested {scope inner : List String} {ms : List Message} {m m' : Message} (hm : m ∈ ms)
      (hentry : m.mapEntry = false) (h : Reached (scope ++ [m.name]) m.nested inner m') :
      Reached scope ms inner m'

def interface (package flatName : String) (scope : List String) (m : Message) : Block Reference :=
  .interface flatName (m.fields.map fun f => (f.name, f.type (m.entryIndex package scope)))

theorem outline_eq (package outer : String) (scope : List String) (m : Message) :
    m.outline package outer scope =
      outlines package (outer ++ m.name) (scope ++ [m.name]) m.nested ++
        m.enums.flatMap (EnumDef.outline (outer ++ m.name)) ++
        [Item.block (m.interface package (outer ++ m.name) scope)] := by
  obtain ⟨name, fields, nested, enums, mapEntry⟩ := m
  rw [outline]
  rfl

theorem mem_outlines {item : Item} :
    item ∈ outlines package outer scope ms ↔
      ∃ m ∈ ms, m.mapEntry = false ∧ item ∈ m.outline package outer scope := by
  induction ms with
  | nil => simp [outlines]
  | cons m rest ih =>
    rw [outlines, List.mem_append, ih]
    by_cases hentry : m.mapEntry = true <;> simp [hentry]

theorem mem_interface :
    r ∈ (m.interface package outer scope).references ↔
      ∃ f ∈ m.fields, r ∈ (f.type (m.entryIndex package scope)).references := by
  simp only [interface, Block.references, List.mem_flatMap, List.mem_map]
  constructor
  · rintro ⟨e, ⟨f, hf, rfl⟩, hr⟩
    exact ⟨f, hf, hr⟩
  · rintro ⟨f, hf, hr⟩
    exact ⟨_, ⟨f, hf, rfl⟩, hr⟩

/-- Each message that is reached has its block, under the flat name of its path. -/
theorem Reached.block_mem (h : Reached scope ms inner m) (package : String) :
    .block (m.interface package (String.join (inner ++ [m.name])) inner) ∈
      outlines package (String.join scope) scope ms := by
  induction h with
  | @here scope ms m hm hentry =>
    refine mem_outlines.mpr ⟨m, hm, hentry, ?_⟩
    rw [outline_eq, join_concat]
    exact List.mem_append_right _ (List.mem_singleton_self _)
  | @nested scope inner ms m m' hm hentry h ih =>
    refine mem_outlines.mpr ⟨m, hm, hentry, ?_⟩
    rw [outline_eq, ← join_concat]
    exact List.mem_append_left _ (List.mem_append_left _ ih)

theorem sizeOf_nested_lt (hm : m ∈ ms) : sizeOf m.nested < sizeOf ms := by
  have hlt := List.sizeOf_lt_of_mem hm
  obtain ⟨name, fields, nested, enums, mapEntry⟩ := m
  simp only [mk.sizeOf_spec] at hlt ⊢
  omega

/-- A reference in the outlines of messages is one of a message that is reached. -/
theorem exists_reached {outer : String} {scope : List String} {ms : List Message}
    {b : Block Reference} (hb : .block b ∈ outlines package outer scope ms)
    (hr : r ∈ b.references) :
    ∃ inner m, Reached scope ms inner m ∧
      ∃ f ∈ m.fields, r ∈ (f.type (m.entryIndex package inner)).references := by
  obtain ⟨m, hm, hentry, hitem⟩ := mem_outlines.mp hb
  rw [outline_eq, List.mem_append, List.mem_append] at hitem
  rcases hitem with (hnested | henum) | hself
  · obtain ⟨inner, m', hreached, href⟩ := exists_reached hnested hr
    exact ⟨inner, m', .nested hm hentry hreached, href⟩
  · obtain ⟨e, _, he⟩ := List.mem_flatMap.mp henum
    rw [EnumDef.references_eq_nil he] at hr
    simp at hr
  · obtain rfl : b = m.interface package (outer ++ m.name) scope := by simpa using hself
    exact ⟨scope, m, .here hm hentry, mem_interface.mp hr⟩
termination_by sizeOf ms
decreasing_by exact sizeOf_nested_lt hm

end Message

namespace SchemaFile

variable {f : SchemaFile} {t : String}

/-- The file refers to a type. Services after the first do not count. -/
inductive Refers (f : SchemaFile) : String → Prop
  | field {scope : List String} {m : Message} {g : Field} {t : String}
      (hm : Message.Reached [] f.messages scope m) (hg : g ∈ m.fields)
      (ht : g.Refers (m.entryIndex f.package scope) t) : Refers f t
  | input {s : Service} {m : Method} (hs : f.services.head? = some s) (hm : m ∈ s.methods) :
      Refers f m.input
  | output {s : Service} {m : Method} (hs : f.services.head? = some s) (hm : m ∈ s.methods) :
      Refers f m.output

def blocks (f : SchemaFile) (role : Role) : List (Block Reference) :=
  (f.outline role).filterMap Item.block?

theorem block_mem_serviceOutline {b : Block Reference} {role : Role} :
    .block b ∈ f.serviceOutline role ↔
      ∃ s, f.services.head? = some s ∧ .block b ∈ s.outline f.package role := by
  have hclash : .block b ∉ f.helperClash role := by
    unfold helperClash
    split <;> simp
  unfold serviceOutline
  cases hs : f.services with
  | nil => simp
  | cons s dropped =>
    by_cases hd : dropped.isEmpty <;> simp [hd, hclash]

/-- The references of a file are those of its blocks. -/
theorem refers_iff (role : Role) :
    f.Refers t ↔ ∃ b ∈ f.blocks role, .type t ∈ b.references := by
  simp only [blocks, Item.mem_blocks, outline, List.mem_append]
  constructor
  · rintro (⟨hm, hg, ht⟩ | ⟨hs, hm⟩ | ⟨hs, hm⟩)
    · have hblock := hm.block_mem f.package
      exact ⟨_, .inl (.inr hblock), Message.mem_interface.mpr ⟨_, hg, Field.mem_type.mpr ht⟩⟩
    · obtain ⟨b, hb, ht⟩ := Service.exists_references_iff.mpr ⟨_, hm, Or.inl rfl⟩
      exact ⟨b, .inr (block_mem_serviceOutline.mpr ⟨_, hs, hb⟩), ht⟩
    · obtain ⟨b, hb, ht⟩ := Service.exists_references_iff.mpr ⟨_, hm, Or.inr rfl⟩
      exact ⟨b, .inr (block_mem_serviceOutline.mpr ⟨_, hs, hb⟩), ht⟩
  · rintro ⟨b, (henum | hmessage) | hservice, ht⟩
    · obtain ⟨e, _, he⟩ := List.mem_flatMap.mp henum
      rw [EnumDef.references_eq_nil he] at ht
      simp at ht
    · obtain ⟨scope, m, hm, g, hg, href⟩ := Message.exists_reached hmessage ht
      exact .field hm hg (Field.mem_type.mp href)
    · obtain ⟨s, hs, hb⟩ := block_mem_serviceOutline.mp hservice
      obtain ⟨m, hm, rfl | rfl⟩ := Service.exists_references_iff.mp ⟨b, hb, ht⟩
      · exact .input hs hm
      · exact .output hs hm

end SchemaFile

/-- Where the demands of a module are met, each type that its file refers to has a symbol. -/
theorem Context.Meets.exists_symbol {c : Context} {f : SchemaFile} {options : Options} {t : String}
    (h : c.Meets f.name (f.demands options)) (ht : f.Refers t) :
    ∃ s, c.symbolFor? f.name t = some s := by
  obtain ⟨b, hb, href⟩ := (SchemaFile.refers_iff options.role).mp ht
  exact h.type (List.mem_append_left _
    (Item.type_mem_demands options.strict f.name (Item.mem_blocks.mp hb) href))

end ProtoStubs
