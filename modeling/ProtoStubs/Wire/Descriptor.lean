import ProtoStubs.Schema.Basic
import ProtoStubs.Wire.Entry
import ProtoStubs.Wire.Shape

/-!
Compiled schema files on the wire. Of repeated entries for one text, number or flag the last one
counts; messages, fields, enumerations, services, methods and values add up in their order.
-/

namespace ProtoStubs

open Wire

namespace Field

def absorb (f : Field) : Entry → Option Field
  | ⟨1, .bytes content⟩ => (text? content).map fun s => { f with name := s }
  | ⟨4, .varint n⟩ => some { f with label := codedOr f.label n }
  | ⟨5, .varint n⟩ => some { f with kind := codedOr f.kind n }
  | ⟨6, .bytes content⟩ => (text? content).map fun s => { f with typeName := s }
  | _ => some f

def ofBytes : Bytes → Option Field := foldEntries absorb {}

def entries (f : Field) : List Entry :=
  [.text 1 f.name, .coded 4 f.label, .coded 5 f.kind, .text 6 f.typeName]

end Field

namespace EnumDef

def absorbValue (name : String) : Entry → Option String
  | ⟨1, .bytes content⟩ => text? content
  | _ => some name

def absorb (e : EnumDef) : Entry → Option EnumDef
  | ⟨1, .bytes content⟩ => (text? content).map fun s => { e with name := s }
  | ⟨2, .bytes content⟩ =>
      (foldEntries absorbValue "" content).map fun v => { e with values := e.values ++ [v] }
  | _ => some e

def ofBytes : Bytes → Option EnumDef := foldEntries absorb {}

def entries (e : EnumDef) : List Entry :=
  .text 1 e.name :: e.values.map fun v => .nested 2 [.text 1 v]

end EnumDef

namespace Message

def absorbOption (mapEntry : Bool) : Entry → Option Bool
  | ⟨7, .varint n⟩ => some (n != 0)
  | _ => some mapEntry

/-- `inner` reads the messages nested in this one. -/
def absorb (inner : Bytes → Option Message) (m : Message) : Entry → Option Message
  | ⟨1, .bytes content⟩ => (text? content).map fun s => { m with name := s }
  | ⟨2, .bytes content⟩ => (Field.ofBytes content).map fun f => { m with fields := m.fields ++ [f] }
  | ⟨3, .bytes content⟩ => (inner content).map fun n => { m with nested := m.nested ++ [n] }
  | ⟨4, .bytes content⟩ => (EnumDef.ofBytes content).map fun e => { m with enums := m.enums ++ [e] }
  | ⟨7, .bytes content⟩ =>
      (foldEntries absorbOption m.mapEntry content).map fun b => { m with mapEntry := b }
  | _ => some m

/-- Reads a message in which messages are nested less than `depth` deep. -/
def ofBytesWithin : (depth : Nat) → Bytes → Option Message
  | 0 => fun _ => none
  | depth + 1 => foldEntries (absorb (ofBytesWithin depth)) {}

/-- Each message has more bytes than one nested in it, so its bytes bound the depth. -/
def ofBytes (bytes : Bytes) : Option Message := ofBytesWithin (bytes.length + 1) bytes

theorem absorb_congr {inner inner' : Bytes → Option Message} {e : Entry}
    (h : inner e.content = inner' e.content) (m : Message) :
    absorb inner m e = absorb inner' m e := by
  unfold absorb
  split
  · rfl
  · rfl
  · exact congrArg _ h
  · rfl
  · rfl
  · rfl

theorem ofBytesWithin_eq {depth depth' : Nat} {bytes : Bytes} (h : bytes.length < depth)
    (h' : bytes.length < depth') : ofBytesWithin depth bytes = ofBytesWithin depth' bytes := by
  induction depth generalizing depth' bytes with
  | zero => omega
  | succ depth ih =>
    cases depth' with
    | zero => omega
    | succ depth' =>
      apply foldEntries_congr
      intro e hlt
      exact absorb_congr (ih (by omega) (by omega))

/-- How a message is read does not depend on the bound. -/
theorem ofBytes_eq (bytes : Bytes) : ofBytes bytes = foldEntries (absorb ofBytes) {} bytes := by
  apply foldEntries_congr
  intro e hlt
  exact absorb_congr (ofBytesWithin_eq hlt (Nat.lt_succ_self _))

mutual

/-- Only a map entry has options. -/
def entries : Message → List Entry
  | ⟨name, fields, nested, enums, mapEntry⟩ =>
      .text 1 name :: fields.map (fun f => .nested 2 f.entries) ++ nestedEntries nested ++
        enums.map (fun e => .nested 4 e.entries) ++
        (if mapEntry then [.nested 7 [.flag 7 true]] else [])

def nestedEntries : List Message → List Entry
  | [] => []
  | m :: rest => .nested 3 m.entries :: nestedEntries rest

end

end Message

namespace Method

def absorb (m : Method) : Entry → Option Method
  | ⟨1, .bytes content⟩ => (text? content).map fun s => { m with name := s }
  | ⟨2, .bytes content⟩ => (text? content).map fun s => { m with input := s }
  | ⟨3, .bytes content⟩ => (text? content).map fun s => { m with output := s }
  | ⟨5, .varint n⟩ => some { m with clientStreaming := n != 0 }
  | ⟨6, .varint n⟩ => some { m with serverStreaming := n != 0 }
  | _ => some m

def ofBytes : Bytes → Option Method := foldEntries absorb {}

def entries (m : Method) : List Entry :=
  [.text 1 m.name, .text 2 m.input, .text 3 m.output, .flag 5 m.clientStreaming,
    .flag 6 m.serverStreaming]

end Method

namespace Service

def absorb (s : Service) : Entry → Option Service
  | ⟨1, .bytes content⟩ => (text? content).map fun name => { s with name := name }
  | ⟨2, .bytes content⟩ =>
      (Method.ofBytes content).map fun m => { s with methods := s.methods ++ [m] }
  | _ => some s

def ofBytes : Bytes → Option Service := foldEntries absorb {}

def entries (s : Service) : List Entry :=
  .text 1 s.name :: s.methods.map fun m => .nested 2 m.entries

end Service

namespace SchemaFile

def absorb (f : SchemaFile) : Entry → Option SchemaFile
  | ⟨1, .bytes content⟩ => (text? content).map fun s => { f with name := s }
  | ⟨2, .bytes content⟩ => (text? content).map fun s => { f with package := s }
  | ⟨4, .bytes content⟩ =>
      (Message.ofBytes content).map fun m => { f with messages := f.messages ++ [m] }
  | ⟨5, .bytes content⟩ => (EnumDef.ofBytes content).map fun e => { f with enums := f.enums ++ [e] }
  | ⟨6, .bytes content⟩ =>
      (Service.ofBytes content).map fun s => { f with services := f.services ++ [s] }
  | _ => some f

def ofBytes : Bytes → Option SchemaFile := foldEntries absorb {}

def entries (f : SchemaFile) : List Entry :=
  Entry.text 1 f.name :: Entry.text 2 f.package :: f.messages.map (Entry.nested 4 ·.entries) ++
    f.enums.map (Entry.nested 5 ·.entries) ++ f.services.map (Entry.nested 6 ·.entries)

end SchemaFile

structure DescriptorSet where
  files : List SchemaFile := []
deriving Repr

namespace DescriptorSet

def absorb (d : DescriptorSet) : Entry → Option DescriptorSet
  | ⟨1, .bytes content⟩ => (SchemaFile.ofBytes content).map fun f => ⟨d.files ++ [f]⟩
  | _ => some d

/-- A set is read only if all that is in it is well-formed. -/
def ofBytes (bytes : Bytes) : Option DescriptorSet :=
  if Shape.descriptorSet.wellFormed bytes then foldEntries absorb {} bytes else none

def entries (d : DescriptorSet) : List Entry := d.files.map fun f => .nested 1 f.entries

def toBytes (d : DescriptorSet) : Bytes := writeEntries d.entries

end DescriptorSet

end ProtoStubs
