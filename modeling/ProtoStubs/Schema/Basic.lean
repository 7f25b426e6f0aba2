import ProtoStubs.Schema.Kind

/-!
Schema files: messages, enumerations and services, as a compiled descriptor gives them.
-/

namespace ProtoStubs

structure Field where
  name : String := ""
  kind : Coded Kind := .member .double
  label : Coded Label := .member .optional
  /-- The full name of the type of an enumeration or message field. -/
  typeName : String := ""
deriving Repr, DecidableEq

def Field.isRepeated (f : Field) : Bool := f.label.meaning? == some .repeated

structure EnumDef where
  name : String := ""
  values : List String := []
deriving Repr, DecidableEq

structure Message where
  name : String := ""
  fields : List Field := []
  nested : List Message := []
  enums : List EnumDef := []
  /-- A map entry stands for the key and value of a map field and is never declared. -/
  mapEntry : Bool := false
deriving Repr

instance : Inhabited Message := ⟨{}⟩

mutual

def Message.decEq : (m n : Message) → Decidable (m = n)
  | ⟨name, fields, nested, enums, mapEntry⟩, ⟨name', fields', nested', enums', mapEntry'⟩ =>
      match Message.decEqAll nested nested' with
      | isTrue h =>
          decidable_of_iff (name = name' ∧ fields = fields' ∧ enums = enums' ∧ mapEntry = mapEntry')
            (by simp [h])
      | isFalse h => isFalse fun heq => h (Message.mk.inj heq).2.2.1

def Message.decEqAll : (ms ns : List Message) → Decidable (ms = ns)
  | [], [] => isTrue rfl
  | [], _ :: _ => isFalse nofun
  | _ :: _, [] => isFalse nofun
  | m :: ms, n :: ns =>
      match m.decEq n, Message.decEqAll ms ns with
      | isTrue h, isTrue hrest => isTrue (by rw [h, hrest])
      | isFalse h, _ => isFalse fun heq => h (List.cons.inj heq).1
      | _, isFalse h => isFalse fun heq => h (List.cons.inj heq).2

end

instance : DecidableEq Message := Message.decEq

structure Method where
  name : String := ""
  input : String := ""
  output : String := ""
  clientStreaming : Bool := false
  serverStreaming : Bool := false
deriving Repr, DecidableEq

structure Service where
  name : String := ""
  methods : List Method := []
deriving Repr, DecidableEq

structure SchemaFile where
  /-- The path under which other files import this one. -/
  name : String := ""
  package : String := ""
  messages : List Message := []
  enums : List EnumDef := []
  services : List Service := []
deriving Repr, DecidableEq

def Method.isStreaming (m : Method) : Bool := m.clientStreaming || m.serverStreaming

end ProtoStubs
