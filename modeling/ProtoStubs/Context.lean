import ProtoStubs.FreeName
import ProtoStubs.Layout
import ProtoStubs.Schema.Names
import ProtoStubs.TypeScript.Basic

/-!
What a generation knows: the schema files registered so far, the types they define, and the
symbols under which each file reaches types of other files. All three only ever grow at the end.
A name that no other file defined before belongs to the file that is registered first. A type of
another file is bound, when a file first asks for it, to a symbol that nothing in the asking file's
module goes by.
-/

namespace ProtoStubs

structure Definition where
  fullName : String
  file : String
  flatName : String
  modulePath : String
deriving Repr, DecidableEq

/-- A symbol of the file `user` for a type of another file. -/
structure Binding where
  user : String
  typeName : String
  origin : String
  symbol : String
  /-- The module the symbol is imported from; none if that module has no path. -/
  specifier : Option String
deriving Repr, DecidableEq

structure Context where
  /-- The directory against which paths are made absolute. -/
  directory : String := "/"
  files : List SchemaFile := []
  definitions : List Definition := []
  bindings : List Binding := []
deriving Repr

def reservedNames : List String := ["webapi", "Express"]

namespace Context

def file? (c : Context) (name : String) : Option SchemaFile := c.files.find? (·.name == name)

def definition? (c : Context) (typeName : String) : Option Definition :=
  c.definitions.find? (·.fullName == typeName)

def bindingsOf (c : Context) (user : String) : List Binding := c.bindings.filter (·.user == user)

def symbol? (c : Context) (user typeName : String) : Option String :=
  ((c.bindingsOf user).find? (·.typeName == typeName)).map (·.symbol)

/-- The names that a new symbol of `user` must not have. -/
def taken (c : Context) (user : String) : List String :=
  reservedNames ++ ((c.definitions.filter (·.file == user)).map (·.flatName)) ++
    (c.bindingsOf user).map (·.symbol)

/-- A file that is not registered is placed as one without a package. -/
def modulePathOf (c : Context) (name : String) : String :=
  match c.file? name with
  | some f => f.modulePath
  | none => Layout.modulePath "" name

/-- The types `user` imports, module by module, in the order in which they were first asked for. -/
def importsOf (c : Context) (user : String) : Table String (List Import) :=
  (c.bindingsOf user).foldl (fun t b =>
    match b.specifier with
    | some specifier => t.push specifier ⟨b.origin, b.symbol⟩
    | none => t) {}

def define (c : Context) (f : SchemaFile) (d : Declared) : Context :=
  { c with definitions := c.definitions ++ [⟨d.fullName, f.name, d.flatName, f.modulePath⟩] }

/-- Enters the names that a file declares. A name that is defined already stays as it is. -/
def defineAll (c : Context) (f : SchemaFile) : List Declared → Context
  | [] => c
  | d :: rest =>
      match c.definition? d.fullName with
      | some _ => c.defineAll f rest
      | none => (c.define f d).defineAll f rest

/-- The names among those that a file declares that are defined when their turn comes, with the
file that defines them. -/
def duplicates (c : Context) (f : SchemaFile) : List Declared → List (String × String)
  | [] => []
  | d :: rest =>
      match c.definition? d.fullName with
      | some first => (d.fullName, first.file) :: c.duplicates f rest
      | none => (c.define f d).duplicates f rest

def addFile (c : Context) (f : SchemaFile) : Context := { c with files := c.files ++ [f] }

def bind (c : Context) (b : Binding) : Context := { c with bindings := c.bindings ++ [b] }

end Context

end ProtoStubs
