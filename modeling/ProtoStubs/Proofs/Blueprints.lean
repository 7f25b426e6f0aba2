import ProtoStubs.Proofs.Declarations

/-!
The whole text of a module. What stands in a module is read off the schema file once the symbols of
its types, the imports and the path to the helper are known. All but the role is the blueprint of
the module, and the role decides how each stub is written and whether the framework is imported.
-/

namespace ProtoStubs

/-- One method as both roles see it: the types of its input and output by their symbols. -/
structure Stub where
  method : String
  route : String
  input : String
  output : String
deriving Repr, DecidableEq

namespace Stub

def block (role : Role) (s : Stub) : Block String :=
  .stub role s.method s.route (.named s.input) (.named s.output)

def printed (role : Role) (s : Stub) : String :=
  Printed.stub role s.method s.route s.input s.output

theorem text_block (role : Role) (s : Stub) : (s.block role).text = s.printed role :=
  Block.text_stub role s.method s.route (.named s.input) (.named s.output)

end Stub

/-- A module but for its role. -/
structure Blueprint where
  source : String
  /-- The types of other modules, under the specifiers of these. -/
  imports : List (String × List Import)
  /-- The specifier of the helper, empty if it is not imported. -/
  helper : String
  /-- The texts of the enumerations and interfaces. -/
  declarations : List String
  stubs : List Stub
  /-- The functions that are exported by default, if there is a service. -/
  exports : Option (List String)
deriving Repr, DecidableEq

namespace Blueprint

/-- Only a server with a service imports the framework. -/
def frameworkLines (b : Blueprint) : Role → List String
  | .client => []
  | .server => if b.exports.isSome then ["import \x7b Express \x7d from \"express\";"] else []

def helperLines (b : Blueprint) : List String :=
  if b.helper = "" then [] else ["import webapi from \"" ++ b.helper ++ "\";"]

def importLines (b : Blueprint) (role : Role) : List String :=
  b.imports.map (fun e => Printed.imports e.1 e.2) ++ b.frameworkLines role ++ b.helperLines

/-- The sections of the module in a role. All imports are one section. -/
def sections (b : Blueprint) (role : Role) : List String :=
  Printed.banner b.source ::
    ((if b.importLines role = [] then [] else ["\n".intercalate (b.importLines role)]) ++
      (b.declarations ++ b.stubs.map (Stub.printed role) ++
        (b.exports.map Printed.exports).toList))

def text (b : Blueprint) (role : Role) : String := "\n\n".intercalate (b.sections role)

end Blueprint

def Service.stubs (package : String) (symbol : String → String) (s : Service) : List Stub :=
  s.methods.map fun m =>
    ⟨m.name, route package s.name m.name, symbol m.input, symbol m.output⟩

namespace SchemaFile

/-- What the modules of a file share. Services after the first have no part in it. -/
def blueprint (f : SchemaFile) (imports : Table String (List Import)) (helper : String)
    (symbol : String → String) : Blueprint where
  source := f.name
  imports := imports.entries
  helper := helper
  declarations :=
    ((f.sitesBy .innermostFirst).filter Site.isWritten).map (Site.printed f.package symbol)
  stubs := (f.services.head?.map fun s => s.stubs f.package symbol).getD []
  exports := f.services.head?.map fun s => s.methods.map (·.name)

def blueprintIn (f : SchemaFile) (helper : Option String) (c : Context) : Blueprint :=
  f.blueprint (c.importsOf f.name)
    (if f.services.isEmpty then "" else (helper.map (Layout.helperPath f.package)).getD "")
    fun t => (c.symbolFor? f.name t).getD ""

end SchemaFile

section Text

variable (c : Context)

theorem Context.blocksFor_helperClash (f : SchemaFile) (role : Role) :
    c.blocksFor f.name (f.helperClash role) = [] := by
  unfold SchemaFile.helperClash
  split <;> rfl

theorem Service.blocksFor_outline (package user : String) (role : Role) (s : Service) :
    c.blocksFor user (s.outline package role) =
      (s.stubs package fun t => (c.symbolFor? user t).getD "").map (Stub.block role) ++
        [Block.exports (s.methods.map (·.name))] := by
  rw [outline, Context.blocksFor_append]
  refine congrArg (· ++ _) ?_
  rw [stubs, List.map_map, Context.blocksFor, List.filterMap_flatMap, List.map_flatMap,
    ← List.flatMap_pure_eq_map]
  refine List.flatMap_congr fun m _ => ?_
  cases m.isStreaming <;> rfl

namespace SchemaFile

variable (f : SchemaFile) (options : Options)

/-- The stubs of a module, and the list of them, come after the declarations. -/
theorem blocks_moduleIn :
    (f.moduleIn options c).blocks = c.blocksFor f.name f.declarations ++
      ((f.blueprintIn options.helper c).stubs.map (Stub.block options.role) ++
        ((f.blueprintIn options.helper c).exports.map Block.exports).toList) := by
  change c.blocksFor f.name (f.outline options.role) = _
  rw [outline_eq, Context.blocksFor_append]
  refine congrArg (c.blocksFor f.name f.declarations ++ ·) ?_
  unfold serviceOutline blueprintIn blueprint
  cases f.services with
  | nil => rfl
  | cons s dropped =>
    rw [Context.blocksFor_append, Context.blocksFor_append, Context.blocksFor_helperClash,
      Service.blocksFor_outline]
    cases dropped.isEmpty <;> rfl

theorem importLines_moduleIn :
    (f.moduleIn options c).importLines =
      (f.blueprintIn options.helper c).importLines options.role := by
  unfold Module.importLines Blueprint.importLines Blueprint.helperLines moduleIn blueprintIn
    blueprint helperSpecifier
  cases options.role <;> cases f.services <;> rfl

theorem texts_declarations :
    (c.blocksFor f.name f.declarations).map Block.text =
      (f.blueprintIn options.helper c).declarations := by
  rw [Context.blocksFor, blocks_declarations, List.map_map, List.map_map]
  exact List.map_congr_left fun s _ => s.text_block f.package _

/-- The text of a module is that of its blueprint in the role of the module. -/
theorem text_moduleIn :
    (f.moduleIn options c).text = (f.blueprintIn options.helper c).text options.role := by
  have hstubs : Block.text ∘ Stub.block options.role = Stub.printed options.role :=
    funext (Stub.text_block options.role)
  have hexports : ∀ methods : Option (List String),
      (methods.map Block.exports).toList.map Block.text =
        (methods.map Printed.exports).toList := by
    intro methods
    cases methods with
    | none => rfl
    | some names => exact congrArg (fun text => [text]) (Block.text_exports names)
  rw [Module.text_eq, blocks_moduleIn, importLines_moduleIn, List.map_append, List.map_append,
    texts_declarations c f options, List.map_map, hstubs, hexports, Blueprint.text,
    Blueprint.sections, List.cons_append, List.append_assoc (Blueprint.declarations _)]
  rfl

end SchemaFile

end Text

section Sections

variable {f : SchemaFile} (imports : Table String (List Import)) (helper : String)
  (symbol : String → String) (role : Role)

/-- Each message that is reached has its interface in the module. -/
theorem Message.Reached.printed_mem {scope : List String} {m : Message}
    (h : Reached [] f.messages scope m) :
    m.printed f.package symbol scope ∈ (f.blueprint imports helper symbol).sections role := by
  have hblock : m.interface f.package (String.join (scope ++ [m.name])) scope ∈
      f.declarations.filterMap Item.block? :=
    Item.mem_blocks.mpr (List.mem_append_right _ (h.block_mem f.package))
  rw [f.blocks_declarations] at hblock
  obtain ⟨s, hs, heq⟩ := List.mem_map.mp hblock
  have hsame : s.printed f.package symbol = m.printed f.package symbol scope := by
    rw [← s.text_block, heq, m.text_interface]
  refine List.mem_cons_of_mem _ (List.mem_append_right _ (List.mem_append_left _ ?_))
  exact List.mem_append_left _ (List.mem_map.mpr ⟨s, hs, hsame⟩)

/-- Each method of the first service has its stub in the module. -/
theorem Service.stub_mem {s : Service} {m : Method} (hs : f.services.head? = some s)
    (hm : m ∈ s.methods) :
    Printed.stub role m.name (route f.package s.name m.name) (symbol m.input) (symbol m.output) ∈
      (f.blueprint imports helper symbol).sections role := by
  have hstub : ⟨m.name, route f.package s.name m.name, symbol m.input, symbol m.output⟩ ∈
      (f.blueprint imports helper symbol).stubs := by
    rw [SchemaFile.blueprint, hs]
    exact List.mem_map_of_mem hm
  have hprinted := List.mem_map_of_mem (f := Stub.printed role) hstub
  refine List.mem_cons_of_mem _ (List.mem_append_right _ (List.mem_append_left _ ?_))
  exact List.mem_append_right _ hprinted

end Sections

/-- The text of a module that was made, by its own imports and path to the helper. -/
theorem SchemaFile.text_of_made {f : SchemaFile} {options : Options} {c : Context} {m : Module}
    (h : ((Step.moduleOf f options).run c).result = .ok m) :
    ∃ symbol, m.text = (f.blueprint m.imports m.helper symbol).text options.role := by
  obtain ⟨_, _, rfl⟩ := Step.moduleOf_made h
  exact ⟨_, f.text_moduleIn _ options⟩

end ProtoStubs
