import ProtoStubs.Path
import ProtoStubs.Schema.Basic

/-!
Where generated modules lie. There is one directory for each segment of the package, and the
module is named after its schema file.
-/

namespace ProtoStubs

namespace Layout

def segments (package : String) : List String :=
  if package = "" then [] else Text.split '.' package

/-- The path of the module of a schema file, without its ending. -/
def modulePath (package name : String) : String :=
  (segments package ++ [Path.stem (Path.fileName name)]).foldl Path.join ""

/-- How the module `target` is imported from the module `user`. There is no way to import a
module with the empty path. -/
def specifier? (directory user target : String) : Option String :=
  if target = "" then none
  else
    let start := Path.parent user
    let way := Path.relative directory (if start = "" then "." else start) target
    some (if "../".toList.isPrefixOf way.toList then way else "./" ++ way)

/-- The path of the helper module from a module of `package`: up one directory for each segment,
then along `helper`. -/
def helperPath (package helper : String) : String :=
  if package = "" then helper
  else
    Path.normalize (Path.join (String.join (List.replicate (segments package).length "../")) helper)

end Layout

def SchemaFile.modulePath (f : SchemaFile) : String := Layout.modulePath f.package f.name

def SchemaFile.outputPath (f : SchemaFile) : String := f.modulePath ++ ".ts"

end ProtoStubs
