import ProtoStubs.CommandLine.Run
import ProtoStubs.Wire.Exchange

/-!
The program. Under a name that starts with `protoc-gen-` it is a plugin: it reads a request from
standard input and writes the response to standard output. Under any other name it is a command.
It starts no other program: the descriptor set of the schema compiler comes in on standard input.
-/

namespace ProtoStubs.Main

open CommandLine

def look (place : Place) (disk : Disk) : IO Disk := do
  let here := (← IO.currentDir) / ("/" ++ "/".intercalate place)
  if ← here.isDir then return disk.put place .directory
  if ← here.pathExists then return disk.put place (.file "")
  return disk

/-- Notes what is at a place and on the way to it. -/
def approach (place : Place) (disk : Disk) : IO Disk :=
  (List.range (place.length + 1)).foldlM (fun disk n => look (place.take n) disk) disk

/-- Notes all that is below a place. -/
partial def survey (place : Place) (disk : Disk) : IO Disk := do
  let here := (← IO.currentDir) / ("/" ++ "/".intercalate place)
  if ← here.isDir then
    let mut disk := disk
    for entry in ← here.readDir do
      let place := place ++ [entry.fileName]
      disk ← survey place (← look place disk)
    return disk
  return disk

def writeFile (path text : String) : IO Unit := do
  let parent := Path.parent path
  if parent ≠ "" then IO.FS.createDirAll parent
  IO.FS.writeFile path text

def command (directory : String) (arguments : List String) : IO UInt32 := do
  let disk ← match Arguments.parse arguments with
    | .ok ⟨some path, _, _, _, _⟩ =>
        let place := Path.places directory path
        survey place (← approach place {})
    | _ => pure {}
  let report ← match plan directory disk arguments with
    | .done report => pure report
    | .compile job =>
        let descriptors ← (← IO.getStdin).readBinToEnd
        let compiled := Compilation.finished descriptors.data.toList
        let disk ← (job.targets compiled).foldlM
          (fun disk path => approach (Path.places directory path) disk) disk
        pure (job.complete disk compiled)
  for (path, text) in report.written do writeFile path text
  IO.print report.stdout
  IO.eprint report.stderr
  match report.status with
  | .ok status => return status.toUInt32
  | .error fault =>
      IO.eprintln fault.message
      return 1

def plugin (directory : String) : IO UInt32 := do
  let request ← (← IO.getStdin).readBinToEnd
  match Plugin.exchange directory request.data.toList with
  | .ok response =>
      (← IO.getStdout).write ⟨response.toArray⟩
      return 0
  | .error fault =>
      IO.eprintln fault.message
      return 1

end ProtoStubs.Main

def main (arguments : List String) : IO UInt32 := do
  let directory := (← IO.currentDir).toString
  let name := (← IO.appPath).fileName.getD ""
  if "protoc-gen-".toList.isPrefixOf name.toList then ProtoStubs.Main.plugin directory
  else ProtoStubs.Main.command directory arguments
