import ProtoStubs.Schema.Kind

/-!
Notes written to the log while modules are generated.
-/

namespace ProtoStubs

inductive Level where
  | debug | warning
deriving Repr, DecidableEq

def Level.name : Level → String
  | .debug => "DEBUG"
  | .warning => "WARNING"

inductive Note where
  | duplicateType (typeName first second : String)
  | imported (user typeName symbol specifier : String)
  | mappedToString (field user : String) (kind : Coded Kind)
  | emptyEnum (name : String)
  | streamingMethod (service method : String)
  | droppedServices (file kept : String) (dropped : List String)
  | rendered (name outputPath : String)
deriving Repr, DecidableEq

namespace Note

def level : Note → Level
  | .duplicateType .. | .droppedServices .. => .warning
  | _ => .debug

def channel : Note → String
  | .duplicateType .. | .imported .. => "protoc_webapi_ts.resolver"
  | .mappedToString .. => "protoc_webapi_ts.typemap"
  | .emptyEnum .. => "protoc_webapi_ts.generator.ts_declarations"
  | .streamingMethod .. => "protoc_webapi_ts.generator.ts_service"
  | .droppedServices .. | .rendered .. => "protoc_webapi_ts.generator.ts_file"

def message : Note → String
  | .duplicateType typeName first second =>
      s!"Type {typeName} defined in both {first} and {second}; keeping the first"
  | .imported user typeName symbol specifier =>
      s!"{user}: {typeName} imported as {symbol} from {specifier}"
  | .mappedToString field user kind =>
      s!"Field {field} in {user}: type " ++ kind.describe ++ " mapped to string"
  | .emptyEnum name => s!"Skipping enum {name} without values"
  | .streamingMethod service method =>
      s!"{service}.{method} is streaming; rendered as a unary stub"
  | .droppedServices file kept dropped =>
      s!"{file} declares " ++ toString (dropped.length + 1) ++
        s!" services; only {kept} is rendered (dropped: " ++ ", ".intercalate dropped ++ ")"
  | .rendered name outputPath => s!"Rendered {name} -> {outputPath}"

def line (n : Note) : String := n.level.name ++ " " ++ n.channel ++ ": " ++ n.message

end Note

end ProtoStubs
