import ProtoStubs.CommandLine.Arguments
import ProtoStubs.CommandLine.Disk
import ProtoStubs.Generation
import ProtoStubs.Text.Basic
import ProtoStubs.Wire.Descriptor

/-!
The generator as a command. It looks for schema files, has them compiled, generates their modules
and writes them. The run is planned first, up to the compiler; what comes of the compilation then
completes it.
-/

namespace ProtoStubs.CommandLine

/-- The first occurrences of the texts that are not empty. -/
def distinct (items : List String) : List String := (items.filter (· ≠ "")).eraseDups

/-- Whether a path lies at or below a directory `i`. -/
def holds (directory i path : String) : Bool :=
  let home := Path.absolute directory i
  Path.common (Path.absolute directory path) home == home

/-- The name under which a schema file is imported: its path from the first include directory that
it lies under. -/
def importName (directory : String) (includes : List String) (path : String) :
    Except Fault String :=
  match includes.find? (holds directory · path) with
  | some i =>
      .ok (Path.relative directory (Path.absolute directory i) (Path.absolute directory path))
  | none => .error (.outsideIncludes path includes)

/-- Whether a path ends as that of a schema file, in letters of either case. -/
def isSchemaPath (path : String) : Bool :=
  ".proto".toList.isSuffixOf ((Path.fileName path).toList.map Char.toLower)

def schemaFiles (disk : Disk) (directory path : String) : List String :=
  ((disk.filesUnder directory path).filter isSchemaPath).mergeSort fun a b => decide (¬b < a)

inductive Compilation where
  | notFound
  | failed (output : Wire.Bytes)
  | finished (descriptors : Wire.Bytes)
deriving Repr, DecidableEq

structure Report where
  /-- The exit status, or the fault that stopped the program. -/
  status : Except Fault Nat
  stdout : String := ""
  stderr : String := ""
  commands : List (List String) := []
  /-- The paths and texts of the files that were written, in their order. -/
  written : List (String × String) := []
  disk : Disk

/-- A run that has come to its compilation. -/
structure Job where
  arguments : Arguments
  directory : String
  files : List String
  includes : List String
  names : List String
deriving Repr

inductive Plan where
  | done (r : Report)
  | compile (j : Job)

def listing (written : List (String × String)) : String :=
  if written.isEmpty then ""
  else "Generated:\n" ++ "\n".intercalate (written.map (·.1)) ++ "\n"

/-- The end of a run after a fault. Diagnosed faults are told. -/
def Report.ofFault (disk : Disk) (fault : Fault) : Report :=
  if fault.isDiagnosed then
    { status := .ok 1, stderr := "FATAL: " ++ fault.message ++ "\n", disk := disk }
  else { status := .error fault, disk := disk }

/-- The options in one line. How it is broken at the width of a terminal, and the help on each
option below it, are left out. -/
def usage : String :=
  "usage: protoc-webapi-ts [-h] --proto PROTO --out OUT [--server] [--webapi-path WEBAPI_PATH] " ++
    "[--strict] [-I INCLUDES] [-v]\n"

/-- The run up to the compiler. Of a usage error only the message is told: the usage line that goes
before it is left out. -/
def plan (directory : String) (disk : Disk) (arguments : List String) : Plan :=
  match Arguments.parse arguments with
  | .error .help => .done { status := .ok 0, stdout := usage, disk := disk }
  | .error (.usage e) =>
      .done {
        status := .ok 2
        stderr := "protoc-webapi-ts: error: " ++ e.message ++ "\n"
        disk := disk }
  | .ok a =>
      match a.proto with
      | none => .done (.ofFault disk .noInput)
      | some path =>
          let (files, home) :=
            if disk.isDirectory directory path then (schemaFiles disk directory path, path)
            else ([path], Path.parent (Path.absolute directory path))
          if files.isEmpty then
            .done {
              status := .ok 0
              stdout := "No .proto files found under directory: " ++ path ++ "\n"
              disk := disk }
          else
            let includes := distinct (a.includes ++ [home])
            match files.mapM (importName directory includes) with
            | .error fault => .done (.ofFault disk fault)
            | .ok names => .compile ⟨a, directory, files, includes, names⟩

namespace Job

def command (j : Job) (output : String) : List String :=
  ["protoc", "--include_imports", "--descriptor_set_out=" ++ output] ++
    j.includes.flatMap (["-I", ·]) ++ j.files

def log (j : Job) (notes : List Note) : String :=
  let shown := notes.filter fun n => j.arguments.verbose || n.level == .warning
  String.join (shown.map (·.line ++ "\n"))

def target (out outputPath : String) : String := Path.tidy (Path.join out outputPath)

def outputs (out : String) (modules : Table String String) : List (String × String) :=
  modules.entries.map fun e => (target out e.1, e.2 ++ "\n")

def generated (j : Job) (compiled : Compilation) : Logged (Table String String) :=
  match compiled with
  | .notFound => ⟨.error .compilerNotFound, []⟩
  | .failed output => ⟨.error (.compilerFailed (Text.ofBytesDropping output)), []⟩
  | .finished descriptors =>
      match DescriptorSet.ofBytes descriptors with
      | none => ⟨.error .malformedBytes, []⟩
      | some set => generate j.directory set.files j.names j.arguments.options

def targets (j : Job) (compiled : Compilation) : List String :=
  match (j.generated compiled).result, j.arguments.out with
  | .ok modules, some out => (outputs out modules).map (·.1)
  | _, _ => []

/-- The rest of a run, from the outcome of the compilation on. -/
def complete (j : Job) (disk : Disk) (compiled : Compilation) : Report :=
  let made := j.generated compiled
  let report : Report :=
    match made.result, j.arguments.out with
    | .error fault, _ => .ofFault disk fault
    | .ok _, none => .ofFault disk .noOutput
    | .ok modules, some out =>
        let outcome := disk.writeAll j.directory (outputs out modules)
        let report : Report :=
          match outcome.fault with
          | some fault => .ofFault outcome.disk fault
          | none => { status := .ok 0, stdout := listing outcome.written, disk := outcome.disk }
        { report with written := outcome.written }
  { report with stderr := j.log made.notes ++ report.stderr }

end Job

/-- A whole run, with a compiler that puts its descriptor set at `output`. -/
def run (directory : String) (disk : Disk) (output : String) (compiled : Compilation)
    (arguments : List String) : Report :=
  match plan directory disk arguments with
  | .done r => r
  | .compile j => { j.complete disk compiled with commands := [j.command output] }

end ProtoStubs.CommandLine
