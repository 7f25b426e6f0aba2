import ProtoStubs.Linking
import ProtoStubs.TypeScript.Text

/-!
Generation: all schema files are registered, then the modules of the requested ones are made, one
after another in one session.
-/

namespace ProtoStubs.Step

def registerAll : List SchemaFile → Step Unit
  | [] => pure ()
  | f :: rest => do
      register f
      registerAll rest

/-- The requested modules under their output paths, added to those that are there already. -/
def render (options : Options) (made : Table String String) :
    List String → Step (Table String String)
  | [] => return made
  | name :: rest => do
      let f ← orFail (.missingDescriptor name) (file name)
      let m ← moduleOf f options
      note (.rendered name f.outputPath)
      render options (made.put f.outputPath m.text) rest

def generate (files : List SchemaFile) (requested : List String) (options : Options) :
    Step (Table String String) := do
  registerAll files
  render options {} requested

end ProtoStubs.Step

namespace ProtoStubs

def generate (directory : String) (files : List SchemaFile) (requested : List String)
    (options : Options) : Logged (Table String String) :=
  (Step.generate files requested options).start directory

end ProtoStubs
