import ProtoStubs.Fault
import ProtoStubs.Layout
import ProtoStubs.Note
import ProtoStubs.Schema.Names
import ProtoStubs.TypeScript.Basic

/-!
The outline of a schema file: the blocks of its module in the order in which they are written,
with the types still named as the schema names them, and between the blocks the notes and refusals
that come up on the way. An outline depends on the schema alone and not on other files.
-/

namespace ProtoStubs

inductive Reference where
  | type (fullName : String)
  /-- The type of a field whose kind has none of its own. -/
  | unmapped (field : String) (kind : Coded Kind)
  /-- The type of the value of a map entry without a value. -/
  | missingValue
deriving Repr, DecidableEq

inductive Item where
  | note (n : Note)
  | refuse (f : Fault)
  | block (b : Block Reference)
deriving Repr, DecidableEq

namespace Field

/-- The type of one value of a field. Numbers of 64 bits, and bytes, are written as strings. -/
def elementType (f : Field) : TypeExpr Reference :=
  match f.kind.meaning? with
  | some .int32 | some .uint32 | some .fixed32 | some .sint32 | some .sfixed32 | some .float
  | some .double => .number
  | some .bool => .boolean
  | some .enum | some .message => .named (.type f.typeName)
  | some .string | some .bytes | some .int64 | some .uint64 | some .sint64 | some .fixed64
  | some .sfixed64 => .string
  | some .group | none => .named (.unmapped f.name f.kind)

def plainType (f : Field) : TypeExpr Reference :=
  if f.isRepeated then .array f.elementType else f.elementType

/-- The type of a field of a message with the map entries `index`. A field that points to a map
entry holds a record of the entry's values, also where the field is repeated. -/
def type (index : Table String Message) (f : Field) : TypeExpr Reference :=
  match f.kind.meaning?, index.get? f.typeName with
  | some .message, some entry =>
      .record (match entry.fields[1]? with
        | some value => value.plainType
        | none => .named .missingValue)
  | _, _ => f.plainType

end Field

def EnumDef.block {ρ : Type} (outer : String) (e : EnumDef) : Block ρ :=
  .enum (outer ++ e.name) e.values

/-- An enumeration without values is left out. -/
def EnumDef.outline (outer : String) (e : EnumDef) : List Item :=
  if e.values.isEmpty then [.note (.emptyEnum (outer ++ e.name))] else [.block (e.block outer)]

mutual

/-- What is nested in a message comes before it: messages, then enumerations. `outer` is the flat
name and `scope` the list of names of the messages around it. -/
def Message.outline (package outer : String) (scope : List String) : Message → List Item
  | ⟨name, fields, nested, enums, mapEntry⟩ =>
      let index := Message.entryIndex package scope ⟨name, fields, nested, enums, mapEntry⟩
      Message.outlines package (outer ++ name) (scope ++ [name]) nested ++
        enums.flatMap (EnumDef.outline (outer ++ name)) ++
        [.block (.interface (outer ++ name) (fields.map fun f => (f.name, f.type index)))]

/-- The outlines of the messages that are no map entries. -/
def Message.outlines (package outer : String) (scope : List String) : List Message → List Item
  | [] => []
  | m :: rest =>
      (if m.mapEntry then [] else m.outline package outer scope) ++
        Message.outlines package outer scope rest

end

/-- The route that the client and the server stub of a method share. -/
def route (package service method : String) : String :=
  (if package = "" then "" else package ++ ".") ++ service ++ "/" ++ method

def Service.outline (package : String) (role : Role) (s : Service) : List Item :=
  (s.methods.flatMap fun m =>
    (if m.isStreaming then [Item.note (.streamingMethod s.name m.name)] else []) ++
      [Item.block (.stub role m.name (route package s.name m.name) (.named (.type m.input))
        (.named (.type m.output)))]) ++
    [Item.block (.exports (s.methods.map (·.name)))]

def Role.helperNames : Role → List String
  | .client => ["webapi"]
  | .server => ["Express", "webapi"]

/-- The declarations of a file must leave the names of the helpers alone. -/
def SchemaFile.helperClash (f : SchemaFile) (role : Role) : List Item :=
  match role.helperNames.filter (· ∈ f.declared.map (·.flatName)) with
  | [] => []
  | names => [.refuse (.helperClash f.name names)]

/-- Only the first service of a file has stubs. -/
def SchemaFile.serviceOutline (f : SchemaFile) (role : Role) : List Item :=
  match f.services with
  | [] => []
  | s :: dropped =>
      (if dropped.isEmpty then []
        else [.note (.droppedServices f.name s.name (dropped.map (·.name)))]) ++
        f.helperClash role ++ s.outline f.package role

def SchemaFile.outline (f : SchemaFile) (role : Role) : List Item :=
  f.enums.flatMap (EnumDef.outline "") ++ Message.outlines f.package "" [] f.messages ++
    f.serviceOutline role

end ProtoStubs
