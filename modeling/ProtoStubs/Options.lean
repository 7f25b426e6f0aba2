import ProtoStubs.Fault
import ProtoStubs.Text.Basic

/-!
Options of the generator, and the parameter text that sets them: pieces between commas, each a
bare word or a key and a value around an equals sign. Blanks around pieces, keys and values do not
count, empty pieces are skipped, and of repeated options the last one wins.
-/

namespace ProtoStubs

inductive Role where
  | client | server
deriving Repr, DecidableEq

def Role.name : Role → String
  | .client => "client"
  | .server => "server"

def Role.ofName? (name : String) : Option Role := [Role.client, .server].find? (·.name == name)

structure Options where
  role : Role := .client
  /-- The helper module, as seen from the root of the generated modules, if there is one. -/
  helper : Option String := some "webapi"
  /-- Refuse fields whose kind has no type of its own. -/
  strict : Bool := false
deriving Repr, DecidableEq

namespace Options

/-- The key and the value of a piece, or the bare word. -/
def keyValue (piece : String) : String × Option String :=
  match Text.cut '=' piece with
  | (_, none) => (piece, none)
  | (key, some value) => (Text.trim key, some (Text.trim value))

def set (o : Options) (piece : String) : Except Fault Options :=
  match keyValue piece with
  | ("client", none) => .ok { o with role := .client }
  | ("server", none) => .ok { o with role := .server }
  | ("strict", none) => .ok { o with strict := true }
  | ("role", value) =>
      match value.bind Role.ofName? with
      | some role => .ok { o with role := role }
      | none => .error (.unknownRole value)
  | ("webapi_path", some value) =>
      if value = "" then .error (.unknownOption piece) else .ok { o with helper := some value }
  | _ => .error (.unknownOption piece)

def pieces (parameter : String) : List String :=
  ((Text.split ',' parameter).map Text.trim).filter (· ≠ "")

def parse (parameter : String) : Except Fault Options :=
  (pieces parameter).foldlM set {}

end Options

end ProtoStubs
