import ProtoStubs.Linking
import ProtoStubs.TypeScript.Text

/-!
Transcripts: what can be asked of a session, one call after another on one context. A call that
fails does not end the transcript.
-/

namespace ProtoStubs

inductive Call where
  | register (f : SchemaFile)
  | file (name : String)
  | resolve (typeName user : String)
  | imports (user : String)
  | module (f : SchemaFile) (options : Options)
  | moduleNamed (name : String) (options : Options)
  | fieldType (f : Field) (index : Table String Message) (user : String) (strict : Bool)
  | messages (ms : List Message) (package user outer : String) (scope : List String) (strict : Bool)
  | service (s : Service) (package user : String) (role : Role)
deriving Repr

inductive Answer where
  | done
  | declared (names : List Declared)
  | imports (table : Table String (List Import))
  | text (s : String)
  | blocks (texts : List String)
deriving Repr

/-- Blocks by themselves are whole lines. -/
def Block.lines (b : Block String) : String := b.text ++ "\n"

namespace Call

def perform : Call → Step Answer
  | .register f => do
      Step.register f
      return .done
  | .file name => do return .declared (← Step.file name).declared
  | .resolve typeName user => do return .text (← Step.resolve typeName user)
  | .imports user => do return .imports ((← Step.current).importsOf user)
  | .module f options => do return .text (← Step.moduleOf f options).text
  | .moduleNamed name options => do
      return .text (← Step.moduleOf (← Step.file name) options).text
  | .fieldType f index user strict => do
      return .text (← (f.type index).bindM (Step.link strict user)).text
  | .messages ms package user outer scope strict => do
      let blocks ← Step.linkItems strict user (Message.outlines package outer scope ms)
      return .blocks (blocks.map Block.lines)
  | .service s package user role => do
      let blocks ← Step.linkItems false user (s.outline package role)
      return .blocks (blocks.map Block.lines)

end Call

def transcript (c : Context) : List Call → List (Logged Answer)
  | [] => []
  | call :: rest =>
      let o := call.perform.run c
      o.toLogged :: transcript o.context rest

end ProtoStubs
