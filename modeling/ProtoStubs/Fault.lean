import ProtoStubs.Schema.Kind

/-!
What can go wrong. Diagnosed faults are told to the user as text by the plugin and by the command
line; the others stop the program.
-/

namespace ProtoStubs

inductive Fault where
  | unresolvedType (typeName user : String)
  | unsupportedKind (field user : String) (kind : Coded Kind)
  | unknownRole (value : Option String)
  | unknownOption (option : String)
  | moduleCollision (first second modulePath : String)
  | helperClash (file : String) (names : List String)
  | missingDescriptor (name : String)
  | compilerNotFound
  | compilerFailed (output : String)
  | outsideIncludes (path : String) (includes : List String)
  /-- A module with the empty path cannot be imported. -/
  | emptyModulePath
  /-- A map entry has no second field. -/
  | missingEntryValue
  | unregisteredFile (name : String)
  | malformedBytes
  /-- A file stands where a directory is to be made. -/
  | fileInTheWay
  /-- A path leads through a file. -/
  | notADirectory
  /-- A directory stands where a file is to be written. -/
  | directoryInTheWay
  /-- A path has a NUL in it. -/
  | nulInPath
  /-- A path, or a name in it, is longer than any file can have. -/
  | nameTooLong
  /-- There is no path to the schema files. -/
  | noInput
  /-- There is no path to the generated modules. -/
  | noOutput
  /-- There is no path to the helper module. -/
  | noHelper
deriving Repr, DecidableEq

namespace Fault

def isDiagnosed : Fault → Bool
  | .unresolvedType .. | .unsupportedKind .. | .unknownRole .. | .unknownOption ..
  | .moduleCollision .. | .helperClash .. | .missingDescriptor .. | .compilerNotFound
  | .compilerFailed .. | .outsideIncludes .. => true
  | _ => false

def message : Fault → String
  | .unresolvedType typeName user =>
      s!"Unresolved type '{typeName}' referenced from '{user}'. " ++
        "No registered schema file defines it."
  | .unsupportedKind field user kind =>
      s!"Field '{field}' in '{user}' has unsupported type " ++ kind.describe
  | .unknownRole value =>
      "Unknown role '" ++ value.getD "None" ++ "'. Expected one of: client, server"
  | .unknownOption option => s!"Unknown generator option '{option}'"
  | .moduleCollision first second modulePath =>
      s!"'{first}' and '{second}' both generate module '{modulePath}'"
  | .helperClash file names =>
      s!"'{file}' declares " ++ ", ".intercalate names ++
        ", which clashes with the service helper imports"
  | .missingDescriptor name => s!"No descriptor supplied for '{name}'"
  | .compilerNotFound =>
      "'protoc' not found. Please install Protocol Buffers compiler and ensure it is in PATH."
  | .compilerFailed output => "protoc failed: " ++ output
  | .outsideIncludes path includes =>
      s!"'{path}' is not under any include directory: " ++ ", ".intercalate includes
  | .emptyModulePath => "no path specified"
  | .missingEntryValue => "tuple index out of range"
  | .unregisteredFile name => name
  | .malformedBytes => "malformed bytes"
  | .fileInTheWay => "a file stands where a directory is needed"
  | .notADirectory => "the path leads through a file"
  | .directoryInTheWay => "a directory stands where a file is to be written"
  | .nulInPath => "embedded null byte"
  | .nameTooLong => "a path or a name in it is too long"
  | .noInput => "stat: path should be string, bytes, os.PathLike or integer, not list"
  | .noOutput => "expected str, bytes or os.PathLike object, not list"
  | .noHelper => "join() argument must be str, bytes, or os.PathLike object, not 'list'"

end Fault

end ProtoStubs
