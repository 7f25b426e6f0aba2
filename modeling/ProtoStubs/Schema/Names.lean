import ProtoStubs.Schema.Basic
import ProtoStubs.Table

/-!
The names a schema file declares. Every enumeration and message has a full name, which schema
files refer to it by, and a flat name, which joins the names of the messages around it with its
own. Map entries, and all that is nested in them, declare nothing.
-/

namespace ProtoStubs

/-- A package and the names below it, each after a dot; empty parts are left out. -/
def fullName (package : String) (names : List String) : String :=
  "." ++ ".".intercalate ((package :: names).filter (· ≠ ""))

structure Declared where
  fullName : String
  flatName : String
deriving Repr, DecidableEq

def Declared.ofPath (package : String) (path : List String) : Declared :=
  ⟨ProtoStubs.fullName package path, String.join path⟩

def EnumDef.declared (package : String) (scope : List String) (e : EnumDef) : Declared :=
  .ofPath package (scope ++ [e.name])

mutual

/-- A message is declared before what is nested in it, and nested messages before enumerations. -/
def Message.declared (package : String) (scope : List String) : Message → List Declared
  | ⟨name, _, nested, enums, mapEntry⟩ =>
      if mapEntry then []
      else
        .ofPath package (scope ++ [name]) ::
          (Message.declaredIn package (scope ++ [name]) nested ++
            enums.map (EnumDef.declared package (scope ++ [name])))

def Message.declaredIn (package : String) (scope : List String) : List Message → List Declared
  | [] => []
  | m :: rest => m.declared package scope ++ Message.declaredIn package scope rest

end

def SchemaFile.declared (f : SchemaFile) : List Declared :=
  f.enums.map (EnumDef.declared f.package []) ++ Message.declaredIn f.package [] f.messages

def ordinaryIn (ms : List Message) : List Message := ms.filter (!·.mapEntry)

def Message.mapEntries (m : Message) : List Message := m.nested.filter (·.mapEntry)

/-- The map entries of a message under their full names; `scope` names the messages around it. -/
def Message.entryIndex (package : String) (scope : List String) (m : Message) :
    Table String Message :=
  .ofList (m.mapEntries.map fun e => (fullName package (scope ++ [m.name, e.name]), e))

end ProtoStubs
