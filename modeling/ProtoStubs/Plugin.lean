import ProtoStubs.Generation

/-!
The generator as a plugin of a schema compiler: a request with a parameter text, the compiled
files and the names of those to generate is answered with the generated files, or with the text of
what went wrong.
-/

namespace ProtoStubs.Plugin

structure Request where
  requested : List String := []
  parameter : String := ""
  files : List SchemaFile := []
deriving Repr, DecidableEq

structure Response where
  error : Option String := none
  files : List (String × String) := []
deriving Repr, DecidableEq

/-- Schema files may have optional fields with presence. -/
def supportedFeatures : Nat := 1

def answer (directory : String) (request : Request) : Except Fault (List (String × String)) := do
  let options ← Options.parse request.parameter
  let made ← (generate directory request.files request.requested options).result
  return made.entries.map fun e => (e.1, e.2 ++ "\n")

/-- Diagnosed faults become the error text of the response. -/
def respond (directory : String) (request : Request) : Except Fault Response :=
  match answer directory request with
  | .ok files => .ok { files := files }
  | .error fault => if fault.isDiagnosed then .ok { error := some fault.message } else .error fault

end ProtoStubs.Plugin
