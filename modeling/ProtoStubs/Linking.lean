import ProtoStubs.Outline
import ProtoStubs.Session

/-!
Linking turns an outline into the blocks of a module: each reference is replaced by the symbol it
goes by in the file that makes it.
-/

namespace ProtoStubs.Step

/-- The type that a reference in the file `user` stands for. A kind without a type of its own is a
string, and is refused in strict mode. -/
def link (strict : Bool) (user : String) : Reference → Step (TypeExpr String)
  | .type fullName => do return .named (← resolve fullName user)
  | .unmapped field kind =>
      if strict then fail (.unsupportedKind field user kind)
      else do
        note (.mappedToString field user kind)
        return .string
  | .missingValue => fail .missingEntryValue

def linkItems (strict : Bool) (user : String) : List Item → Step (List (Block String))
  | [] => return []
  | .note n :: rest => do
      note n
      linkItems strict user rest
  | .refuse f :: _ => fail f
  | .block b :: rest => do
      let linked ← b.bindM (link strict user)
      return linked :: (← linkItems strict user rest)

/-- The specifier of the helper in a module of `package`, which is empty if there is nothing to
import. From inside a package there is no way to a helper that has no path. -/
def helperOf (package : String) : Option String → Step String
  | some helper => return Layout.helperPath package helper
  | none => if package = "" then return "" else fail .noHelper

/-- The module of a schema file, which is registered if it is not yet. The imports are those known
once all blocks are linked. -/
def moduleOf (f : SchemaFile) (options : Options) : Step Module := do
  register f
  let blocks ← linkItems options.strict f.name (f.outline options.role)
  let hasService := !f.services.isEmpty
  let helper ← if hasService then helperOf f.package options.helper else pure ""
  return {
    source := f.name
    imports := (← current).importsOf f.name
    framework := hasService && options.role == .server
    helper := helper
    blocks := blocks }

end ProtoStubs.Step
