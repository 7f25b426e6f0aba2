import ProtoStubs.Proofs.WireContents
import ProtoStubs.Wire.Exchange

/-!
The encodings of compiled schema files and of requests. At each level the entries under different
numbers may stand in any order, entries that nobody reads may stand between them, and what is left
out has its default. Reading gives back exactly the value that is encoded.
-/

namespace ProtoStubs

open Wire

variable {room room' : Nat} {es : List Entry} {bytes : Bytes}

namespace Field

/-- What the entries of a field say about it. -/
structure Fills (room : Nat) (f : Field) (es : List Entry) : Prop where
  name : TextAt 1 es f.name
  label : lastCode (.member .optional) (numbersAt 4 es) = f.label
  kind : lastCode (.member .double) (numbersAt 5 es) = f.kind
  typeName : TextAt 6 es f.typeName
  others : Others .field [] room es

def Encodes : (room : Nat) → Field → Bytes → Prop := Encoding Fills

def slots : Field ≃ String × Coded Kind × Coded Label × String where
  toFun f := (f.name, f.kind, f.label, f.typeName)
  invFun x := ⟨x.1, x.2.1, x.2.2.1, x.2.2.2⟩
  left_inv _ := rfl
  right_inv _ := rfl

theorem absorb_slots (x : String × Coded Kind × Coded Label × String) (e : Entry) :
    absorb (slots.symm x) e =
      (both (textSlot 1) (both (codeSlot 5) (both (codeSlot 4) (textSlot 6))) x e).map
        slots.symm := by
  unfold absorb
  split
  · next content => cases h : text? content <;> simp [slots, both, h]
  · simp [slots, both]
  · simp [slots, both]
  · next content => cases h : text? content <;> simp [slots, both, h]
  · next h₁ h₄ h₅ h₆ =>
    simp [both, bytesSlot_pass h₁, numberSlot_pass h₄, numberSlot_pass h₅, bytesSlot_pass h₆]

theorem foldlM_absorb {f : Field} : es.foldlM absorb {} = some f ↔
    TextAt 1 es f.name ∧ lastCode (.member .double) (numbersAt 5 es) = f.kind ∧
      lastCode (.member .optional) (numbersAt 4 es) = f.label ∧ TextAt 6 es f.typeName := by
  rw [foldlM_of_equiv slots absorb_slots, foldlM_both, foldlM_both, foldlM_both]
  exact and_congr foldlM_textSlot
    (and_congr foldlM_codeSlot (and_congr foldlM_codeSlot foldlM_textSlot))

theorem faithful (room : Nat) : FaithfulAt .field ofBytes Encodes room := by
  refine .of_fills (fun bytes es hcarries => hcarries.foldEntries_eq absorb {}) fun f es => ?_
  rw [foldlM_absorb]
  constructor
  · exact fun h => ⟨⟨h.name, h.kind, h.label, h.typeName⟩, h.others.all (by simp)⟩
  · rintro ⟨⟨hname, hkind, hlabel, htypeName⟩, hall⟩
    exact ⟨hname, hlabel, hkind, htypeName, others_of_all hall⟩

end Field

namespace EnumDef

structure FillsValue (room : Nat) (name : String) (es : List Entry) : Prop where
  name : TextAt 1 es name
  others : Others .enumValue [] room es

def EncodesValue : (room : Nat) → String → Bytes → Prop := Encoding FillsValue

structure Fills (room : Nat) (d : EnumDef) (es : List Entry) : Prop where
  name : TextAt 1 es d.name
  values : ManyAt EncodesValue room 2 es d.values
  others : Others .enum [2] room es

def Encodes : (room : Nat) → EnumDef → Bytes → Prop := Encoding Fills

theorem absorbValue_eq : absorbValue = textSlot 1 := by
  funext name e
  unfold absorbValue
  split
  · simp
  · next h => rw [textSlot, bytesSlot_pass h]

theorem faithful_value (room : Nat) :
    FaithfulAt .enumValue (foldEntries absorbValue "") EncodesValue room := by
  refine .of_fills (fun bytes es hcarries => hcarries.foldEntries_eq absorbValue "")
    fun name es => ?_
  rw [absorbValue_eq, foldlM_textSlot]
  constructor
  · exact fun h => ⟨h.name, h.others.all (by simp)⟩
  · exact fun ⟨hname, hall⟩ => ⟨hname, others_of_all hall⟩

def slots : EnumDef ≃ String × List String where
  toFun d := (d.name, d.values)
  invFun x := ⟨x.1, x.2⟩
  left_inv _ := rfl
  right_inv _ := rfl

theorem absorb_slots (x : String × List String) (e : Entry) :
    absorb (slots.symm x) e =
      (both (textSlot 1) (manySlot 2 (foldEntries absorbValue "")) x e).map slots.symm := by
  unfold absorb
  split
  · next content => cases h : text? content <;> simp [slots, both, h]
  · next content => cases h : foldEntries absorbValue "" content <;> simp [slots, both, h]
  · next h₁ h₂ => simp [both, bytesSlot_pass h₁, bytesSlot_pass h₂]

theorem foldlM_absorb {d : EnumDef} : es.foldlM absorb {} = some d ↔
    TextAt 1 es d.name ∧
      es.foldlM (manySlot 2 (foldEntries absorbValue "")) [] = some d.values := by
  rw [foldlM_of_equiv slots absorb_slots, foldlM_both]
  exact and_congr foldlM_textSlot Iff.rfl

theorem faithful (room : Nat) : FaithfulAt .enum ofBytes Encodes room := by
  refine .of_fills (fun bytes es hcarries => hcarries.foldEntries_eq absorb {}) fun d es => ?_
  have hvalues := manyAt_iff .enum 2 (fun r (_ : r < room) => faithful_value r) rfl es d.values
  rw [foldlM_absorb]
  constructor
  · intro h
    obtain ⟨hread, h₂⟩ := hvalues.mp h.values
    exact ⟨⟨h.name, hread⟩, h.others.all (by simpa using h₂)⟩
  · rintro ⟨⟨hname, hread⟩, hall⟩
    exact ⟨hname, hvalues.mpr ⟨hread, fun e he _ => hall e he⟩, others_of_all hall⟩

end EnumDef

namespace Message

structure FillsOptions (room : Nat) (options : List Entry) (es : List Entry) : Prop where
  entries : es = options
  others : Others .messageOptions [] room es

def EncodesOptions : (room : Nat) → List Entry → Bytes → Prop := Encoding FillsOptions

/-- What the entries of a message say about it, if `Inner` is how messages are encoded in it.
Options in several entries count as one. -/
structure FillsWith (Inner : Message → Bytes → Prop) (room : Nat) (m : Message) (es : List Entry) :
    Prop where
  name : TextAt 1 es m.name
  fields : ManyAt Field.Encodes room 2 es m.fields
  nested : List.Forall₂ (fun content n => Inner n content) (contentsAt 3 es) m.nested
  enums : ManyAt EnumDef.Encodes room 4 es m.enums
  mapEntry : ∃ options, ManyAt EncodesOptions room 7 es options ∧
    isSet (numbersAt 7 options.flatten) = m.mapEntry
  others : Others .message [2, 3, 4, 7] room es

def Encodes : (room : Nat) → Message → Bytes → Prop
  | 0 => fun m bytes => ∃ es, Carries 5 0 bytes es ∧ FillsWith (fun _ _ => False) 0 m es
  | room + 1 => fun m bytes =>
      ∃ es, Carries 5 (room + 1) bytes es ∧ FillsWith (Encodes room) (room + 1) m es

def Fills (room : Nat) : Message → List Entry → Prop := FillsWith (under Encodes room) room

theorem encodes_eq : Encodes = Encoding Fills := by
  funext room m bytes
  cases room <;> rfl

theorem absorbOption_eq : absorbOption = flagSlot 7 := by
  funext b e
  unfold absorbOption
  split
  · simp
  · next h => rw [flagSlot, numberSlot_pass h]

theorem faithful_options (room : Nat) :
    FaithfulAt .messageOptions Entry.scan EncodesOptions room := by
  refine .of_fills (fun bytes es hcarries => hcarries.scan_eq) fun options es => ?_
  constructor
  · exact fun h => ⟨congrArg some h.entries, h.others.all (by simp)⟩
  · exact fun ⟨hentries, hall⟩ => ⟨Option.some.inj hentries, others_of_all hall⟩

/-- Options in several entries are read as one. -/
theorem foldlM_options {contents : List Bytes} {options : List (List Entry)}
    (h : List.Forall₂ (fun content es => Entry.scan content = some es) contents options)
    (b : Bool) :
    contents.foldlM (foldEntries absorbOption) b = options.flatten.foldlM (flagSlot 7) b := by
  induction h generalizing b with
  | nil => rfl
  | @cons content es contents options hscan _ ih =>
    have hread : foldEntries absorbOption b content = es.foldlM (flagSlot 7) b := by
      rw [foldEntries, hscan, Option.bind_some, absorbOption_eq]
    rw [List.foldlM_cons, List.flatten_cons, List.foldlM_append, hread]
    exact congrArg _ (funext ih)

theorem exists_scan_of_foldlM {contents : List Bytes} {b b' : Bool}
    (h : contents.foldlM (foldEntries absorbOption) b = some b') :
    ∃ options, List.Forall₂ (fun content es => Entry.scan content = some es) contents options := by
  induction contents generalizing b with
  | nil => exact ⟨[], .nil⟩
  | cons content rest ih =>
    rw [List.foldlM_cons] at h
    obtain ⟨b₁, hread, h⟩ := Option.bind_eq_some_iff.mp h
    obtain ⟨es, hscan, _⟩ := Option.bind_eq_some_iff.mp hread
    obtain ⟨options, hrest⟩ := ih h
    exact ⟨es :: options, .cons hscan hrest⟩

/-- Whether a message is a map entry is told by its options in all their entries. -/
theorem foldlM_mapEntry {b : Bool} :
    es.foldlM (bytesSlot 7 (foldEntries absorbOption)) false = some b ↔
      ∃ options, es.foldlM (manySlot 7 Entry.scan) [] = some options ∧
        isSet (numbersAt 7 options.flatten) = b := by
  simp only [foldlM_manySlot]
  rw [foldlM_bytesSlot]
  constructor
  · intro h
    obtain ⟨options, hscan⟩ := exists_scan_of_foldlM h
    rw [foldlM_options hscan, foldlM_flagSlot] at h
    exact ⟨options, hscan, h⟩
  · rintro ⟨options, hscan, h⟩
    rw [foldlM_options hscan, foldlM_flagSlot]
    exact h

def slots : Message ≃ String × List Field × List Message × List EnumDef × Bool where
  toFun m := (m.name, m.fields, m.nested, m.enums, m.mapEntry)
  invFun x := ⟨x.1, x.2.1, x.2.2.1, x.2.2.2.1, x.2.2.2.2⟩
  left_inv m := by cases m; rfl
  right_inv _ := rfl

theorem absorb_slots (inner : Bytes → Option Message)
    (x : String × List Field × List Message × List EnumDef × Bool) (e : Entry) :
    absorb inner (slots.symm x) e =
      (both (textSlot 1) (both (manySlot 2 Field.ofBytes) (both (manySlot 3 inner)
        (both (manySlot 4 EnumDef.ofBytes) (bytesSlot 7 (foldEntries absorbOption))))) x e).map
        slots.symm := by
  unfold absorb
  split
  · next content => cases h : text? content <;> simp [slots, both, h]
  · next content => cases h : Field.ofBytes content <;> simp [slots, both, h]
  · next content => cases h : inner content <;> simp [slots, both, h]
  · next content => cases h : EnumDef.ofBytes content <;> simp [slots, both, h]
  · next content =>
    cases h : foldEntries absorbOption x.2.2.2.2 content <;> simp [slots, both, h]
  · next h₁ h₂ h₃ h₄ h₇ =>
    simp [both, bytesSlot_pass h₁, bytesSlot_pass h₂, bytesSlot_pass h₃, bytesSlot_pass h₄,
      bytesSlot_pass h₇]

theorem foldlM_absorb {inner : Bytes → Option Message} {m : Message} :
    es.foldlM (absorb inner) {} = some m ↔
      TextAt 1 es m.name ∧ es.foldlM (manySlot 2 Field.ofBytes) [] = some m.fields ∧
        es.foldlM (manySlot 3 inner) [] = some m.nested ∧
        es.foldlM (manySlot 4 EnumDef.ofBytes) [] = some m.enums ∧
        ∃ options, es.foldlM (manySlot 7 Entry.scan) [] = some options ∧
          isSet (numbersAt 7 options.flatten) = m.mapEntry := by
  rw [foldlM_of_equiv slots (absorb_slots inner), foldlM_both, foldlM_both, foldlM_both,
    foldlM_both]
  exact and_congr foldlM_textSlot
    (and_congr Iff.rfl (and_congr Iff.rfl (and_congr Iff.rfl foldlM_mapEntry)))

theorem faithful (room : Nat) : FaithfulAt .message ofBytes Encodes room := by
  -- `ofBytes` bounds the depth by the bytes, `Encodes` by the room; only the room is an induction
  induction room using Nat.strongRecOn with
  | ind room ih =>
    rw [encodes_eq]
    refine .of_fills (fun bytes es hcarries =>
      (ofBytes_eq bytes).trans (hcarries.foldEntries_eq (absorb ofBytes) {})) fun m es => ?_
    have hfields := manyAt_iff .message 2 (fun r (_ : r < room) => Field.faithful r) rfl es m.fields
    have hnested := manyAt_iff .message 3 ih rfl es m.nested
    have henums := manyAt_iff .message 4 (fun r (_ : r < room) => EnumDef.faithful r) rfl es m.enums
    have hoptions := manyAt_iff .message 7 (fun r (_ : r < room) => faithful_options r) rfl es
    rw [foldlM_absorb]
    constructor
    · intro h
      obtain ⟨hread₂, h₂⟩ := hfields.mp h.fields
      obtain ⟨hread₃, h₃⟩ := hnested.mp h.nested
      obtain ⟨hread₄, h₄⟩ := henums.mp h.enums
      obtain ⟨options, hmany, hset⟩ := h.mapEntry
      obtain ⟨hread₇, h₇⟩ := (hoptions options).mp hmany
      exact ⟨⟨h.name, hread₂, hread₃, hread₄, options, hread₇, hset⟩,
        h.others.all (by simpa using ⟨h₂, h₃, h₄, h₇⟩)⟩
    · rintro ⟨⟨hname, hread₂, hread₃, hread₄, options, hread₇, hset⟩, hall⟩
      have hat : ∀ k, ∀ e ∈ es, e.number = k →
          Shape.message.admitsEntry (Shape.below room) e = true := fun k e he _ => hall e he
      exact ⟨hname, hfields.mpr ⟨hread₂, hat 2⟩, hnested.mpr ⟨hread₃, hat 3⟩,
        henums.mpr ⟨hread₄, hat 4⟩, ⟨options, (hoptions options).mpr ⟨hread₇, hat 7⟩, hset⟩,
        others_of_all hall⟩

end Message

namespace Method

structure Fills (room : Nat) (m : Method) (es : List Entry) : Prop where
  name : TextAt 1 es m.name
  input : TextAt 2 es m.input
  output : TextAt 3 es m.output
  clientStreaming : isSet (numbersAt 5 es) = m.clientStreaming
  serverStreaming : isSet (numbersAt 6 es) = m.serverStreaming
  others : Others .method [] room es

def Encodes : (room : Nat) → Method → Bytes → Prop := Encoding Fills

def slots : Method ≃ String × String × String × Bool × Bool where
  toFun m := (m.name, m.input, m.output, m.clientStreaming, m.serverStreaming)
  invFun x := ⟨x.1, x.2.1, x.2.2.1, x.2.2.2.1, x.2.2.2.2⟩
  left_inv _ := rfl
  right_inv _ := rfl

theorem absorb_slots (x : String × String × String × Bool × Bool) (e : Entry) :
    absorb (slots.symm x) e =
      (both (textSlot 1) (both (textSlot 2) (both (textSlot 3)
        (both (flagSlot 5) (flagSlot 6)))) x e).map slots.symm := by
  unfold absorb
  split
  · next content => cases h : text? content <;> simp [slots, both, h]
  · next content => cases h : text? content <;> simp [slots, both, h]
  · next content => cases h : text? content <;> simp [slots, both, h]
  · simp [slots, both]
  · simp [slots, both]
  · next h₁ h₂ h₃ h₅ h₆ =>
    simp [both, bytesSlot_pass h₁, bytesSlot_pass h₂, bytesSlot_pass h₃, numberSlot_pass h₅,
      numberSlot_pass h₆]

theorem foldlM_absorb {m : Method} : es.foldlM absorb {} = some m ↔
    TextAt 1 es m.name ∧ TextAt 2 es m.input ∧ TextAt 3 es m.output ∧
      isSet (numbersAt 5 es) = m.clientStreaming ∧ isSet (numbersAt 6 es) = m.serverStreaming := by
  rw [foldlM_of_equiv slots absorb_slots, foldlM_both, foldlM_both, foldlM_both, foldlM_both]
  exact and_congr foldlM_textSlot (and_congr foldlM_textSlot (and_congr foldlM_textSlot
    (and_congr foldlM_flagSlot foldlM_flagSlot)))

theorem faithful (room : Nat) : FaithfulAt .method ofBytes Encodes room := by
  refine .of_fills (fun bytes es hcarries => hcarries.foldEntries_eq absorb {}) fun m es => ?_
  rw [foldlM_absorb]
  constructor
  · exact fun h => ⟨⟨h.name, h.input, h.output, h.clientStreaming, h.serverStreaming⟩,
      h.others.all (by simp)⟩
  · rintro ⟨⟨hname, hinput, houtput, hclient, hserver⟩, hall⟩
    exact ⟨hname, hinput, houtput, hclient, hserver, others_of_all hall⟩

end Method

namespace Service

structure Fills (room : Nat) (s : Service) (es : List Entry) : Prop where
  name : TextAt 1 es s.name
  methods : ManyAt Method.Encodes room 2 es s.methods
  others : Others .service [2] room es

def Encodes : (room : Nat) → Service → Bytes → Prop := Encoding Fills

def slots : Service ≃ String × List Method where
  toFun s := (s.name, s.methods)
  invFun x := ⟨x.1, x.2⟩
  left_inv _ := rfl
  right_inv _ := rfl

theorem absorb_slots (x : String × List Method) (e : Entry) :
    absorb (slots.symm x) e =
      (both (textSlot 1) (manySlot 2 Method.ofBytes) x e).map slots.symm := by
  unfold absorb
  split
  · next content => cases h : text? content <;> simp [slots, both, h]
  · next content => cases h : Method.ofBytes content <;> simp [slots, both, h]
  · next h₁ h₂ => simp [both, bytesSlot_pass h₁, bytesSlot_pass h₂]

theorem foldlM_absorb {s : Service} : es.foldlM absorb {} = some s ↔
    TextAt 1 es s.name ∧ es.foldlM (manySlot 2 Method.ofBytes) [] = some s.methods := by
  rw [foldlM_of_equiv slots absorb_slots, foldlM_both]
  exact and_congr foldlM_textSlot Iff.rfl

theorem faithful (room : Nat) : FaithfulAt .service ofBytes Encodes room := by
  refine .of_fills (fun bytes es hcarries => hcarries.foldEntries_eq absorb {}) fun s es => ?_
  have hmethods :=
    manyAt_iff .service 2 (fun r (_ : r < room) => Method.faithful r) rfl es s.methods
  rw [foldlM_absorb]
  constructor
  · intro h
    obtain ⟨hread, h₂⟩ := hmethods.mp h.methods
    exact ⟨⟨h.name, hread⟩, h.others.all (by simpa using h₂)⟩
  · rintro ⟨⟨hname, hread⟩, hall⟩
    exact ⟨hname, hmethods.mpr ⟨hread, fun e he _ => hall e he⟩, others_of_all hall⟩

end Service

namespace SchemaFile

structure Fills (room : Nat) (f : SchemaFile) (es : List Entry) : Prop where
  name : TextAt 1 es f.name
  package : TextAt 2 es f.package
  messages : ManyAt Message.Encodes room 4 es f.messages
  enums : ManyAt EnumDef.Encodes room 5 es f.enums
  services : ManyAt Service.Encodes room 6 es f.services
  others : Others .file [4, 5, 6] room es

def Encodes : (room : Nat) → SchemaFile → Bytes → Prop := Encoding Fills

def slots : SchemaFile ≃ String × String × List Message × List EnumDef × List Service where
  toFun f := (f.name, f.package, f.messages, f.enums, f.services)
  invFun x := ⟨x.1, x.2.1, x.2.2.1, x.2.2.2.1, x.2.2.2.2⟩
  left_inv _ := rfl
  right_inv _ := rfl

theorem absorb_slots (x : String × String × List Message × List EnumDef × List Service)
    (e : Entry) :
    absorb (slots.symm x) e =
      (both (textSlot 1) (both (textSlot 2) (both (manySlot 4 Message.ofBytes)
        (both (manySlot 5 EnumDef.ofBytes) (manySlot 6 Service.ofBytes)))) x e).map slots.symm := by
  unfold absorb
  split
  · next content => cases h : text? content <;> simp [slots, both, h]
  · next content => cases h : text? content <;> simp [slots, both, h]
  · next content => cases h : Message.ofBytes content <;> simp [slots, both, h]
  · next content => cases h : EnumDef.ofBytes content <;> simp [slots, both, h]
  · next content => cases h : Service.ofBytes content <;> simp [slots, both, h]
  · next h₁ h₂ h₄ h₅ h₆ =>
    simp [both, bytesSlot_pass h₁, bytesSlot_pass h₂, bytesSlot_pass h₄, bytesSlot_pass h₅,
      bytesSlot_pass h₆]

theorem foldlM_absorb {f : SchemaFile} : es.foldlM absorb {} = some f ↔
    TextAt 1 es f.name ∧ TextAt 2 es f.package ∧
      es.foldlM (manySlot 4 Message.ofBytes) [] = some f.messages ∧
      es.foldlM (manySlot 5 EnumDef.ofBytes) [] = some f.enums ∧
      es.foldlM (manySlot 6 Service.ofBytes) [] = some f.services := by
  rw [foldlM_of_equiv slots absorb_slots, foldlM_both, foldlM_both, foldlM_both, foldlM_both]
  exact and_congr foldlM_textSlot (and_congr foldlM_textSlot Iff.rfl)

theorem faithful (room : Nat) : FaithfulAt .file ofBytes Encodes room := by
  refine .of_fills (fun bytes es hcarries => hcarries.foldEntries_eq absorb {}) fun f es => ?_
  have hmessages :=
    manyAt_iff .file 4 (fun r (_ : r < room) => Message.faithful r) rfl es f.messages
  have henums := manyAt_iff .file 5 (fun r (_ : r < room) => EnumDef.faithful r) rfl es f.enums
  have hservices :=
    manyAt_iff .file 6 (fun r (_ : r < room) => Service.faithful r) rfl es f.services
  rw [foldlM_absorb]
  constructor
  · intro h
    obtain ⟨hread₄, h₄⟩ := hmessages.mp h.messages
    obtain ⟨hread₅, h₅⟩ := henums.mp h.enums
    obtain ⟨hread₆, h₆⟩ := hservices.mp h.services
    exact ⟨⟨h.name, h.package, hread₄, hread₅, hread₆⟩,
      h.others.all (by simpa using ⟨h₄, h₅, h₆⟩)⟩
  · rintro ⟨⟨hname, hpackage, hread₄, hread₅, hread₆⟩, hall⟩
    have hat : ∀ k, ∀ e ∈ es, e.number = k →
        Shape.file.admitsEntry (Shape.below room) e = true := fun k e he _ => hall e he
    exact ⟨hname, hpackage, hmessages.mpr ⟨hread₄, hat 4⟩, henums.mpr ⟨hread₅, hat 5⟩,
      hservices.mpr ⟨hread₆, hat 6⟩, others_of_all hall⟩

end SchemaFile

namespace Plugin.Request

structure Fills (room : Nat) (q : Request) (es : List Entry) : Prop where
  requested : contentsAt 1 es = q.requested.map utf8
  parameter : TextAt 2 es q.parameter
  files : ManyAt SchemaFile.Encodes room 15 es q.files
  others : Others .request [15] room es

/-- A request on the wire, with messages and groups at most `room` deep in it. -/
def Encodes : (room : Nat) → Request → Bytes → Prop := Encoding Fills

def slots : Request ≃ List String × String × List SchemaFile where
  toFun q := (q.requested, q.parameter, q.files)
  invFun x := ⟨x.1, x.2.1, x.2.2⟩
  left_inv _ := rfl
  right_inv _ := rfl

theorem absorb_slots (x : List String × String × List SchemaFile) (e : Entry) :
    absorb (slots.symm x) e =
      (both (manySlot 1 text?) (both (textSlot 2) (manySlot 15 SchemaFile.ofBytes)) x e).map
        slots.symm := by
  unfold absorb
  split
  · next content => cases h : text? content <;> simp [slots, both, h]
  · next content => cases h : text? content <;> simp [slots, both, h]
  · next content => cases h : SchemaFile.ofBytes content <;> simp [slots, both, h]
  · next h₁ h₂ h₁₅ => simp [both, bytesSlot_pass h₁, bytesSlot_pass h₂, bytesSlot_pass h₁₅]

theorem foldlM_absorb {q : Request} : es.foldlM absorb {} = some q ↔
    contentsAt 1 es = q.requested.map utf8 ∧ TextAt 2 es q.parameter ∧
      es.foldlM (manySlot 15 SchemaFile.ofBytes) [] = some q.files := by
  rw [foldlM_of_equiv slots absorb_slots, foldlM_both, foldlM_both]
  exact and_congr foldlM_textsSlot (and_congr foldlM_textSlot Iff.rfl)

theorem faithful (room : Nat) : FaithfulAt .request (foldEntries absorb {}) Encodes room := by
  refine .of_fills (fun bytes es hcarries => hcarries.foldEntries_eq absorb {}) fun q es => ?_
  have hfiles :=
    manyAt_iff .request 15 (fun r (_ : r < room) => SchemaFile.faithful r) rfl es q.files
  rw [foldlM_absorb]
  constructor
  · intro h
    obtain ⟨hread, h₁₅⟩ := hfiles.mp h.files
    exact ⟨⟨h.requested, h.parameter, hread⟩, h.others.all (by simpa using h₁₅)⟩
  · rintro ⟨⟨hrequested, hparameter, hread⟩, hall⟩
    exact ⟨hrequested, hparameter, hfiles.mpr ⟨hread, fun e he _ => hall e he⟩,
      others_of_all hall⟩

/-- A request is read from exactly those bytes that encode it and are not too deep. -/
theorem ofBytes_eq_some_iff {q : Request} :
    ofBytes bytes = some q ↔ q.Encodes Shape.depthLimit bytes := by
  rw [faithful Shape.depthLimit q bytes, ofBytes, Shape.wellFormed]
  split_ifs with h <;> simp [h]

end Plugin.Request

end ProtoStubs
