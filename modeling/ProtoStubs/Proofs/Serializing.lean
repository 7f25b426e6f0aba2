import ProtoStubs.Proofs.Encodings

/-!
What is written is an encoding of what it was written from. How much room it takes is the height of
the value: how deep messages are nested in it.
-/

namespace ProtoStubs

open Wire

namespace Wire

variable {α : Type} {k number room size : Nat} {e : Entry} {es : List Entry} {content : Bytes}

section Contents

@[simp] theorem contentsAt_nil (k : Nat) : contentsAt k [] = [] := rfl

@[simp] theorem numbersAt_nil (k : Nat) : numbersAt k [] = [] := rfl

@[simp] theorem contentsAt_append (k : Nat) (es es' : List Entry) :
    contentsAt k (es ++ es') = contentsAt k es ++ contentsAt k es' := List.filterMap_append

@[simp] theorem numbersAt_append (k : Nat) (es es' : List Entry) :
    numbersAt k (es ++ es') = numbersAt k es ++ numbersAt k es' := List.filterMap_append

@[simp] theorem contentsAt_bytes (k number : Nat) (content : Bytes) (es : List Entry) :
    contentsAt k (⟨number, .bytes content⟩ :: es) =
      if number = k then content :: contentsAt k es else contentsAt k es := by
  by_cases h : number = k <;> simp [contentsAt, h]

@[simp] theorem contentsAt_varint (k number n : Nat) (es : List Entry) :
    contentsAt k (⟨number, .varint n⟩ :: es) = contentsAt k es := by
  simp [contentsAt]

@[simp] theorem numbersAt_bytes (k number : Nat) (content : Bytes) (es : List Entry) :
    numbersAt k (⟨number, .bytes content⟩ :: es) = numbersAt k es := by
  simp [numbersAt]

@[simp] theorem numbersAt_varint (k number n : Nat) (es : List Entry) :
    numbersAt k (⟨number, .varint n⟩ :: es) =
      if number = k then n :: numbersAt k es else numbersAt k es := by
  by_cases h : number = k <;> simp [numbersAt, h]

@[simp] theorem contentsAt_map_bytes (k number : Nat) (vs : List α) (write : α → Bytes) :
    contentsAt k (vs.map fun v => ⟨number, .bytes (write v)⟩) =
      if number = k then vs.map write else [] := by
  induction vs with
  | nil => simp
  | cons v rest ih => by_cases h : number = k <;> simp_all

@[simp] theorem numbersAt_map_bytes (k number : Nat) (vs : List α) (write : α → Bytes) :
    numbersAt k (vs.map fun v => ⟨number, .bytes (write v)⟩) = [] := by
  induction vs with
  | nil => rfl
  | cons v rest ih => simp [ih]

theorem Entry.text_eq (number : Nat) (s : String) :
    Entry.text number s = ⟨number, .bytes (utf8 s)⟩ := rfl

@[simp] theorem contentsAt_map_text (k number : Nat) (texts : List String) :
    contentsAt k (texts.map (Entry.text number)) = if number = k then texts.map utf8 else [] :=
  contentsAt_map_bytes k number texts utf8

@[simp] theorem numbersAt_map_text (k number : Nat) (texts : List String) :
    numbersAt k (texts.map (Entry.text number)) = [] :=
  numbersAt_map_bytes k number texts utf8

theorem textAt_singleton (s : String) (h : contentsAt k es = [utf8 s]) : TextAt k es s :=
  ⟨[s], h, rfl⟩

end Contents

section Writing

structure Entry.Plain (e : Entry) : Prop where
  pos : e.number ≠ 0
  small : e.number ≤ 15
  value : match e.value with
    | .varint n => n < 0x10000000000000000
    | .bytes _ => True
    | _ => False

@[simp] theorem Entry.plain_bytes :
    Entry.Plain ⟨number, .bytes content⟩ ↔ number ≠ 0 ∧ number ≤ 15 :=
  ⟨fun h => ⟨h.pos, h.small⟩, fun h => ⟨h.1, h.2, trivial⟩⟩

@[simp] theorem Entry.plain_varint {n : Nat} :
    Entry.Plain ⟨number, .varint n⟩ ↔ number ≠ 0 ∧ number ≤ 15 ∧ n < 0x10000000000000000 :=
  ⟨fun h => ⟨h.pos, h.small, h.value⟩, fun h => ⟨h.1, h.2.1, h.2.2⟩⟩

abbrev Short (bytes : Bytes) : Prop := bytes.length < Varint.capacity 5

/-- What is nested is shorter than all that is written. -/
theorem length_le_writeEntries (h : ⟨number, .bytes content⟩ ∈ es) :
    content.length ≤ (writeEntries es).length := by
  induction es with
  | nil => cases h
  | cons first rest ih =>
    rw [writeEntries, List.flatMap_cons, List.length_append]
    rcases List.mem_cons.mp h with rfl | h
    · simp only [Entry.write, List.length_append]
      omega
    · have hrest := ih h
      rw [writeEntries] at hrest
      omega

theorem carries_writeEntries (hplain : ∀ e ∈ es, e.Plain)
    (hlength : (writeEntries es).length < Varint.capacity (size + 1)) :
    Carries (size + 1) room (writeEntries es) es := by
  refine .writeEntries ?_ fun e he => (hplain e he).pos
  rintro ⟨number, value⟩ he
  obtain ⟨_, hsmall, hvalue⟩ := hplain _ he
  refine ⟨by simp only at hsmall ⊢; omega, ?_⟩
  cases value with
  | varint n => exact hvalue
  | bytes content => exact Nat.lt_of_le_of_lt (length_le_writeEntries he) hlength
  | fixed64 value => exact hvalue.elim
  | fixed32 value => exact hvalue.elim

theorem encoding_writeEntries {Fills : Nat → α → List Entry → Prop} {v : α}
    (hplain : ∀ e ∈ es, e.Plain) (hshort : Short (writeEntries es)) :
    Encoding Fills room v (writeEntries es) ↔ Fills room v es := by
  have hcarries : Carries 5 room (writeEntries es) es := carries_writeEntries hplain hshort
  constructor
  · rintro ⟨es', hcarries', h⟩
    obtain rfl := hcarries.unique hcarries'
    exact h
  · exact fun h => ⟨es, hcarries, h⟩

/-- Entries are well-formed if the shape does not know their numbers. -/
theorem others_of_numbers {s : Shape} {ks : List Nat}
    (h : ∀ e ∈ es, e.number ∈ ks ∨ s.parts.lookup e.number = none) : Others s ks room es := by
  intro e he hread content _
  have hlookup : s.parts.lookup e.number = none := (h e he).resolve_left hread
  simp [hlookup]

end Writing

section Heights

/-- How deep values go that stand in one message, if they have these heights. -/
def deepest (heights : List Nat) : Nat := heights.foldr (fun h d => max (h + 1) d) 0

theorem deepest_le_iff {heights : List Nat} : deepest heights ≤ room ↔ ∀ h ∈ heights, h < room := by
  induction heights with
  | nil => simp [deepest]
  | cons h rest ih =>
    rw [List.forall_mem_cons, ← ih]
    exact Nat.max_le

theorem under_iff_lt {Enc : Nat → α → Bytes → Prop} {v : α} {height : Nat}
    (h : ∀ r < room, Enc r v content ↔ height ≤ r) :
    under Enc room v content ↔ height < room := by
  cases room with
  | zero => simp [under]
  | succ room => rw [under, h room (Nat.lt_succ_self room), Nat.lt_succ_iff]

/-- Values that are written under a number are encoded if the room is deeper than each of them. -/
theorem manyAt_iff_lt {Enc : Nat → α → Bytes → Prop} {vs : List α} (write : α → Bytes)
    (height : α → Nat) (hcontents : contentsAt k es = vs.map write)
    (hshort : Short (writeEntries es))
    (h : ∀ v ∈ vs, Short (write v) → ∀ r < room, Enc r v (write v) ↔ height v ≤ r) :
    ManyAt Enc room k es vs ↔ ∀ v ∈ vs, height v < room := by
  rw [ManyAt, hcontents, List.forall₂_map_left_iff, List.forall₂_same]
  refine forall₂_congr fun v hv => under_iff_lt (h v hv ?_)
  have hcontent : write v ∈ contentsAt k es := by
    rw [hcontents]
    exact List.mem_map_of_mem hv
  exact Nat.lt_of_le_of_lt (length_le_writeEntries (mem_contentsAt.mp hcontent)) hshort

end Heights

end Wire

variable {room : Nat}

namespace Field

/-- Whether the kind and the label of a field are members. -/
def Writable (f : Field) : Prop := (∃ k, f.kind = .member k) ∧ ∃ l, f.label = .member l

theorem codeOf?_kind (k : Kind) : codeOf? (Numbered.number k).toNat = some (Coded.member k) := by
  cases k <;> rfl

theorem codeOf?_label (l : Label) : codeOf? (Numbered.number l).toNat = some (Coded.member l) := by
  cases l <;> rfl

theorem number_kind_lt (k : Kind) : Numbered.number k < 0x10000000000000000 := by
  cases k <;> decide

theorem number_label_lt (l : Label) : Numbered.number l < 0x10000000000000000 := by
  cases l <;> decide

theorem encodes_entries {f : Field} (hwritable : f.Writable)
    (hshort : Short (writeEntries f.entries)) :
    f.Encodes room (writeEntries f.entries) := by
  obtain ⟨name, kind, label, typeName⟩ := f
  obtain ⟨⟨kind, rfl⟩, ⟨label, rfl⟩⟩ := hwritable
  have hplain : ∀ e ∈ entries ⟨name, .member kind, .member label, typeName⟩, e.Plain := by
    simp [entries, Entry.text_eq, Entry.coded, number_label_lt, number_kind_lt]
  rw [Encodes, encoding_writeEntries hplain hshort]
  refine ⟨?_, ?_, ?_, ?_, ?_⟩
  · exact textAt_singleton name (by simp [entries, Entry.text_eq, Entry.coded])
  · simp [entries, Entry.text_eq, Entry.coded, lastCode, codeOf?_label]
  · simp [entries, Entry.text_eq, Entry.coded, lastCode, codeOf?_kind]
  · exact textAt_singleton typeName (by simp [entries, Entry.text_eq, Entry.coded])
  · refine others_of_numbers ?_
    simp [entries, Entry.text_eq, Entry.coded, Shape.parts, List.lookup_cons]

end Field

namespace EnumDef

def height (d : EnumDef) : Nat := deepest (d.values.map fun _ => 0)

theorem encodesValue_entries {name : String}
    (hshort : Short (writeEntries [.text 1 name])) :
    EncodesValue room name (writeEntries [.text 1 name]) := by
  rw [EncodesValue, encoding_writeEntries (by simp [Entry.text_eq]) hshort]
  exact ⟨textAt_singleton name (by simp [Entry.text_eq]),
    others_of_numbers (by simp [Entry.text_eq, Shape.parts, List.lookup_cons])⟩

theorem encodes_entries {d : EnumDef} (hshort : Short (writeEntries d.entries)) :
    d.Encodes room (writeEntries d.entries) ↔ d.height ≤ room := by
  have hvalues : ManyAt EncodesValue room 2 d.entries d.values ↔ ∀ v ∈ d.values, 0 < room := by
    refine manyAt_iff_lt (fun v => writeEntries [.text 1 v]) (fun _ => 0) ?_ hshort
      fun v _ hv r _ => ?_
    · simp [entries, Entry.text_eq, Entry.nested]
    · simp [encodesValue_entries hv]
  rw [Encodes, encoding_writeEntries (by simp [entries, Entry.text_eq, Entry.nested]) hshort,
    height, deepest_le_iff, List.forall_mem_map, ← hvalues]
  refine ⟨fun h => h.values, fun h => ⟨?_, h, ?_⟩⟩
  · exact textAt_singleton d.name (by simp [entries, Entry.text_eq, Entry.nested])
  · refine others_of_numbers ?_
    simp [entries, Entry.text_eq, Entry.nested, Shape.parts, List.lookup_cons]

end EnumDef

namespace Message

mutual

/-- How deep other messages are nested in a message on the wire. -/
def height : Message → Nat
  | ⟨_, fields, nested, enums, mapEntry⟩ =>
      deepest (fields.map (fun _ => 0) ++ heights nested ++ enums.map EnumDef.height ++
        if mapEntry then [0] else [])

def heights : List Message → List Nat
  | [] => []
  | m :: rest => m.height :: heights rest

end

inductive Writable : Message → Prop
  | mk {m : Message} (hfields : ∀ f ∈ m.fields, f.Writable) (hnested : ∀ n ∈ m.nested, Writable n) :
      Writable m

theorem heights_eq (ms : List Message) : heights ms = ms.map height := by
  induction ms with
  | nil => rfl
  | cons m rest ih => rw [heights, ih, List.map_cons]

theorem height_le_iff (m : Message) : m.height ≤ room ↔
    (∀ f ∈ m.fields, 0 < room) ∧ (∀ n ∈ m.nested, n.height < room) ∧
      (∀ d ∈ m.enums, d.height < room) ∧ (m.mapEntry = true → 0 < room) := by
  obtain ⟨name, fields, nested, enums, mapEntry⟩ := m
  rw [height, deepest_le_iff, heights_eq]
  simp only [List.forall_mem_append, List.forall_mem_map, and_assoc]
  cases mapEntry <;> simp

theorem nestedEntries_eq (ms : List Message) :
    nestedEntries ms = ms.map fun m => .nested 3 m.entries := by
  induction ms with
  | nil => rfl
  | cons m rest ih => rw [nestedEntries, ih, List.map_cons]

theorem entries_eq (m : Message) : m.entries =
    Entry.text 1 m.name :: m.fields.map (fun f => Entry.nested 2 f.entries) ++
      m.nested.map (fun n => Entry.nested 3 n.entries) ++
      m.enums.map (fun d => Entry.nested 4 d.entries) ++
      (if m.mapEntry then [Entry.nested 7 [Entry.flag 7 true]] else []) := by
  cases m
  rw [entries, nestedEntries_eq]

theorem forall_mem_entries {m : Message} {P : Entry → Prop} : (∀ e ∈ m.entries, P e) ↔
    P (.text 1 m.name) ∧ (∀ f ∈ m.fields, P (.nested 2 f.entries)) ∧
      (∀ n ∈ m.nested, P (.nested 3 n.entries)) ∧ (∀ d ∈ m.enums, P (.nested 4 d.entries)) ∧
      (m.mapEntry = true → P (.nested 7 [.flag 7 true])) := by
  rw [entries_eq]
  simp only [List.forall_mem_append, List.cons_append, List.forall_mem_cons, List.forall_mem_map,
    and_assoc]
  cases m.mapEntry <;> simp

theorem contentsAt_entries (k : Nat) (m : Message) : contentsAt k m.entries =
    (if 1 = k then [utf8 m.name] else []) ++
      (if 2 = k then m.fields.map fun f => writeEntries f.entries else []) ++
      (if 3 = k then m.nested.map fun n => writeEntries n.entries else []) ++
      (if 4 = k then m.enums.map fun d => writeEntries d.entries else []) ++
      (if 7 = k ∧ m.mapEntry = true then [writeEntries [.flag 7 true]] else []) := by
  rw [entries_eq]
  cases m.mapEntry <;> by_cases h₁ : 1 = k <;> by_cases h₇ : 7 = k <;>
    simp [Entry.text_eq, Entry.nested, h₁, h₇]

theorem encodesOptions_entries :
    EncodesOptions room [.flag 7 true] (writeEntries [.flag 7 true]) := by
  rw [EncodesOptions, encoding_writeEntries (by simp [Entry.flag]) (by decide +kernel)]
  exact ⟨rfl, others_of_numbers (by simp [Entry.flag, Shape.parts, List.lookup_cons])⟩

/-- Only a map entry has options, and they need room. -/
theorem mapEntry_entries {m : Message} :
    (∃ options, ManyAt EncodesOptions room 7 m.entries options ∧
        isSet (numbersAt 7 options.flatten) = m.mapEntry) ↔ (m.mapEntry = true → 0 < room) := by
  have hcontents := contentsAt_entries 7 m
  cases hmap : m.mapEntry with
  | false =>
    have hnone : contentsAt 7 m.entries = [] := by simpa [hmap] using hcontents
    refine ⟨nofun, fun _ => ⟨[], ?_, rfl⟩⟩
    rw [ManyAt, hnone]
    exact .nil
  | true =>
    have hone : contentsAt 7 m.entries = [writeEntries [.flag 7 true]] := by
      simpa [hmap] using hcontents
    simp only [ManyAt, hone]
    constructor
    · rintro ⟨options, hoptions, _⟩ _
      cases hoptions with
      | cons hunder _ =>
        cases room with
        | zero => exact hunder.elim
        | succ room => exact Nat.succ_pos room
    · intro hroom
      obtain ⟨room, rfl⟩ := Nat.exists_eq_succ_of_ne_zero (Nat.ne_of_gt (hroom trivial))
      exact ⟨[[.flag 7 true]], .cons encodesOptions_entries .nil, by simp [Entry.flag, isSet]⟩

theorem encodes_entries {m : Message} (hwritable : m.Writable)
    (hshort : Short (writeEntries m.entries)) :
    m.Encodes room (writeEntries m.entries) ↔ m.height ≤ room := by
  -- what is nested has less room, so the room decreases along with the message
  induction room using Nat.strongRecOn generalizing m with
  | ind room ih =>
    obtain ⟨hwfields, hwnested⟩ := hwritable
    have hfields : ManyAt Field.Encodes room 2 m.entries m.fields ↔ ∀ f ∈ m.fields, 0 < room := by
      refine manyAt_iff_lt (fun f => writeEntries f.entries) (fun _ => 0) ?_ hshort
        fun f hf hshort r _ => ?_
      · simp [contentsAt_entries]
      · simp [Field.encodes_entries (hwfields f hf) hshort]
    have hnested : ManyAt Encodes room 3 m.entries m.nested ↔ ∀ n ∈ m.nested, n.height < room :=
      manyAt_iff_lt (fun n => writeEntries n.entries) height (by simp [contentsAt_entries]) hshort
        fun n hn hshort r hr => ih r hr (hwnested n hn) hshort
    have henums : ManyAt EnumDef.Encodes room 4 m.entries m.enums ↔
        ∀ d ∈ m.enums, d.height < room :=
      manyAt_iff_lt (fun d => writeEntries d.entries) EnumDef.height (by simp [contentsAt_entries])
        hshort fun d _ hshort r _ => EnumDef.encodes_entries hshort
    have hplain : ∀ e ∈ m.entries, e.Plain := by
      simp [forall_mem_entries, Entry.text_eq, Entry.nested]
    rw [encodes_eq, encoding_writeEntries hplain hshort, height_le_iff, ← hfields, ← hnested,
      ← henums, ← mapEntry_entries]
    refine ⟨fun h => ⟨h.fields, h.nested, h.enums, h.mapEntry⟩,
      fun ⟨h₂, h₃, h₄, h₇⟩ => ⟨?_, h₂, h₃, h₄, h₇, ?_⟩⟩
    · exact textAt_singleton m.name (by simp [contentsAt_entries])
    · refine others_of_numbers ?_
      simp [forall_mem_entries, Entry.text_eq, Entry.nested, Shape.parts, List.lookup_cons]

end Message

namespace Method

theorem encodes_entries {m : Method} (hshort : Short (writeEntries m.entries)) :
    m.Encodes room (writeEntries m.entries) := by
  have hflag : ∀ b : Bool, b.toNat < 0x10000000000000000 := by decide
  have hset : ∀ b : Bool, isSet [b.toNat] = b := by decide
  have hplain : ∀ e ∈ m.entries, e.Plain := by
    simp [entries, Entry.text_eq, Entry.flag, hflag]
  rw [Encodes, encoding_writeEntries hplain hshort]
  refine ⟨?_, ?_, ?_, ?_, ?_, ?_⟩
  · exact textAt_singleton m.name (by simp [entries, Entry.text_eq, Entry.flag])
  · exact textAt_singleton m.input (by simp [entries, Entry.text_eq, Entry.flag])
  · exact textAt_singleton m.output (by simp [entries, Entry.text_eq, Entry.flag])
  · simp [entries, Entry.text_eq, Entry.flag, hset]
  · simp [entries, Entry.text_eq, Entry.flag, hset]
  · refine others_of_numbers ?_
    simp [entries, Entry.text_eq, Entry.flag, Shape.parts, List.lookup_cons]

end Method

namespace Service

def height (s : Service) : Nat := deepest (s.methods.map fun _ => 0)

theorem encodes_entries {s : Service} (hshort : Short (writeEntries s.entries)) :
    s.Encodes room (writeEntries s.entries) ↔ s.height ≤ room := by
  have hmethods : ManyAt Method.Encodes room 2 s.entries s.methods ↔ ∀ m ∈ s.methods, 0 < room := by
    refine manyAt_iff_lt (fun m => writeEntries m.entries) (fun _ => 0) ?_ hshort
      fun m _ hm r _ => ?_
    · simp [entries, Entry.text_eq, Entry.nested]
    · simp [Method.encodes_entries hm]
  rw [Encodes, encoding_writeEntries (by simp [entries, Entry.text_eq, Entry.nested]) hshort,
    height, deepest_le_iff, List.forall_mem_map, ← hmethods]
  refine ⟨fun h => h.methods, fun h => ⟨?_, h, ?_⟩⟩
  · exact textAt_singleton s.name (by simp [entries, Entry.text_eq, Entry.nested])
  · refine others_of_numbers ?_
    simp [entries, Entry.text_eq, Entry.nested, Shape.parts, List.lookup_cons]

end Service

namespace SchemaFile

def height (f : SchemaFile) : Nat :=
  deepest (f.messages.map Message.height ++ f.enums.map EnumDef.height ++
    f.services.map Service.height)

theorem forall_mem_entries {f : SchemaFile} {P : Entry → Prop} : (∀ e ∈ f.entries, P e) ↔
    P (.text 1 f.name) ∧ P (.text 2 f.package) ∧ (∀ m ∈ f.messages, P (.nested 4 m.entries)) ∧
      (∀ d ∈ f.enums, P (.nested 5 d.entries)) ∧ ∀ s ∈ f.services, P (.nested 6 s.entries) := by
  simp only [entries, List.forall_mem_append, List.cons_append, List.forall_mem_cons,
    List.forall_mem_map, and_assoc]

theorem encodes_entries {f : SchemaFile} (hwritable : ∀ m ∈ f.messages, m.Writable)
    (hshort : Short (writeEntries f.entries)) :
    f.Encodes room (writeEntries f.entries) ↔ f.height ≤ room := by
  have hmessages : ManyAt Message.Encodes room 4 f.entries f.messages ↔
      ∀ m ∈ f.messages, m.height < room :=
    manyAt_iff_lt (fun m => writeEntries m.entries) Message.height
      (by simp [entries, Entry.text_eq, Entry.nested]) hshort
      fun m hm hshort r _ => Message.encodes_entries (hwritable m hm) hshort
  have henums : ManyAt EnumDef.Encodes room 5 f.entries f.enums ↔ ∀ d ∈ f.enums, d.height < room :=
    manyAt_iff_lt (fun d => writeEntries d.entries) EnumDef.height
      (by simp [entries, Entry.text_eq, Entry.nested]) hshort
      fun d _ hshort r _ => EnumDef.encodes_entries hshort
  have hservices : ManyAt Service.Encodes room 6 f.entries f.services ↔
      ∀ s ∈ f.services, s.height < room :=
    manyAt_iff_lt (fun s => writeEntries s.entries) Service.height
      (by simp [entries, Entry.text_eq, Entry.nested]) hshort
      fun s _ hshort r _ => Service.encodes_entries hshort
  have hplain : ∀ e ∈ f.entries, e.Plain := by
    simp [forall_mem_entries, Entry.text_eq, Entry.nested]
  rw [Encodes, encoding_writeEntries hplain hshort, height, deepest_le_iff]
  simp only [List.forall_mem_append, List.forall_mem_map, and_assoc]
  rw [← hmessages, ← henums, ← hservices]
  refine ⟨fun h => ⟨h.messages, h.enums, h.services⟩, fun ⟨h₄, h₅, h₆⟩ => ⟨?_, ?_, h₄, h₅, h₆, ?_⟩⟩
  · exact textAt_singleton f.name (by simp [entries, Entry.text_eq, Entry.nested])
  · exact textAt_singleton f.package (by simp [entries, Entry.text_eq, Entry.nested])
  · refine others_of_numbers ?_
    simp [forall_mem_entries, Entry.text_eq, Entry.nested, Shape.parts, List.lookup_cons]

end SchemaFile

namespace Plugin.Request

def height (q : Request) : Nat := deepest (q.files.map SchemaFile.height)

theorem forall_mem_entries {q : Request} {P : Entry → Prop} : (∀ e ∈ q.entries, P e) ↔
    (∀ s ∈ q.requested, P (.text 1 s)) ∧ P (.text 2 q.parameter) ∧
      ∀ f ∈ q.files, P (.nested 15 f.entries) := by
  simp only [entries, List.forall_mem_append, List.forall_mem_singleton, List.forall_mem_map,
    and_assoc]

def Writable (q : Request) : Prop := ∀ f ∈ q.files, ∀ m ∈ f.messages, m.Writable

/-- What a request is written as encodes it, in as much room as the request has height. -/
theorem encodes_toBytes {q : Request} (hwritable : q.Writable)
    (hshort : Short q.toBytes) : q.Encodes room q.toBytes ↔ q.height ≤ room := by
  have hfiles : ManyAt SchemaFile.Encodes room 15 q.entries q.files ↔
      ∀ f ∈ q.files, f.height < room :=
    manyAt_iff_lt (fun f => writeEntries f.entries) SchemaFile.height
      (by simp [entries, Entry.text_eq, Entry.nested]) hshort
      fun f hf hshort r _ => SchemaFile.encodes_entries (hwritable f hf) hshort
  have hplain : ∀ e ∈ q.entries, e.Plain := by
    simp [forall_mem_entries, Entry.text_eq, Entry.nested]
  rw [Encodes, toBytes, encoding_writeEntries hplain hshort, height, deepest_le_iff,
    List.forall_mem_map, ← hfiles]
  refine ⟨fun h => h.files, fun h => ⟨?_, ?_, h, ?_⟩⟩
  · simp [entries, Entry.text_eq, Entry.nested]
  · exact textAt_singleton q.parameter (by simp [entries, Entry.text_eq, Entry.nested])
  · refine others_of_numbers ?_
    simp [forall_mem_entries, Entry.text_eq, Entry.nested, Shape.parts, List.lookup_cons]

end Plugin.Request

end ProtoStubs
