import ProtoStubs.Options
import ProtoStubs.Table

/-!
The parts of a generated module. Type expressions and blocks are built over the references `ρ`
they make: a block of a schema file refers to types by what the schema says of them, a block of a
module by the symbols in scope. `bindM` takes the one to the other.
-/

namespace ProtoStubs

inductive TypeExpr (ρ : Type) where
  | number
  | boolean
  | string
  | named (reference : ρ)
  | array (element : TypeExpr ρ)
  | record (value : TypeExpr ρ)
deriving Repr, DecidableEq

/-- One declaration or function of a module, or the list of its functions. -/
inductive Block (ρ : Type) where
  | enum (name : String) (members : List String)
  | interface (name : String) (fields : List (String × TypeExpr ρ))
  | stub (role : Role) (name route : String) (input output : TypeExpr ρ)
  | exports (names : List String)
deriving Repr, DecidableEq

/-- A type that a module imports: its name in its own module, and the name it goes by here. -/
structure Import where
  origin : String
  symbol : String
deriving Repr, DecidableEq

structure Module where
  /-- The schema file the module is made from. -/
  source : String
  /-- The imported types of each module, under the specifier of that module. -/
  imports : Table String (List Import) := {}
  /-- Whether the server framework is imported. -/
  framework : Bool := false
  /-- The specifier of the helper, empty if it is not imported. -/
  helper : String := ""
  blocks : List (Block String) := []
deriving Repr, DecidableEq

variable {ρ σ : Type} {m : Type → Type} [Monad m]

def TypeExpr.bindM (f : ρ → m (TypeExpr σ)) : TypeExpr ρ → m (TypeExpr σ)
  | .number => pure .number
  | .boolean => pure .boolean
  | .string => pure .string
  | .named r => f r
  | .array t => do return .array (← t.bindM f)
  | .record t => do return .record (← t.bindM f)

/-- The references of a block are taken in the order in which they are written. -/
def Block.bindM (f : ρ → m (TypeExpr σ)) : Block ρ → m (Block σ)
  | .enum name members => pure (.enum name members)
  | .interface name fields => do
      return .interface name (← fields.mapM fun field => do return (field.1, ← field.2.bindM f))
  | .stub role name route input output => do
      return .stub role name route (← input.bindM f) (← output.bindM f)
  | .exports names => pure (.exports names)

end ProtoStubs
