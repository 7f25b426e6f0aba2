import ProtoStubs.Fault
import ProtoStubs.Path
import ProtoStubs.Table

/-!
Files and directories. A place is the list of names that leads to it from the root, which is
always a directory. A path leads to a place name by name, and every name but the last must be that
of a directory. Names have at most 255 bytes, paths at most 4095, and no NUL is in them.
-/

namespace ProtoStubs.CommandLine

abbrev Place := List String

inductive Node where
  | directory
  | file (text : String)
deriving Repr, DecidableEq

inductive Obstacle where
  | absent
  | file
  | longName
deriving Repr, DecidableEq

structure Disk where
  nodes : Table Place Node := {}
deriving Repr, DecidableEq

namespace Disk

def get? (d : Disk) (place : Place) : Option Node :=
  if place.isEmpty then some .directory else d.nodes.get? place

def put (d : Disk) (place : Place) (node : Node) : Disk := ⟨d.nodes.put place node⟩

def step (d : Disk) (place : Place) (name : String) : Except Obstacle Place :=
  match d.get? place with
  | none => .error .absent
  | some (.file _) => .error .file
  | some .directory =>
      if name = "" || name = "." then .ok place
      else if name = ".." then .ok place.dropLast
      else if 255 < name.utf8ByteSize then .error .longName
      else .ok (place ++ [name])

/-- The place where a list of names leads; there need not be anything at it. -/
def walk (d : Disk) (start : Place) (names : List String) : Except Obstacle Place :=
  names.foldlM d.step start

def startOf (directory path : String) : Place :=
  if Path.isAbsolute path then [] else Path.components directory

def checkPath (path : String) : Except Fault Unit :=
  if '\x00' ∈ path.toList then .error .nulInPath
  else if 4095 < path.utf8ByteSize then .error .nameTooLong
  else .ok ()

def isDirectory (d : Disk) (directory path : String) : Bool :=
  match checkPath path, d.walk (startOf directory path) (Text.split '/' path) with
  | .ok _, .ok place => path ≠ "" && d.get? place == some .directory
  | _, _ => false

/-- The files below a directory, by the names that lead to them from there. -/
def filesBelow (d : Disk) (place : Place) : List Place :=
  d.nodes.entries.filterMap fun e =>
    match e.2 with
    | .file _ => if place.isPrefixOf e.1 then some (e.1.drop place.length) else none
    | .directory => none

def filesUnder (d : Disk) (directory path : String) : List String :=
  match d.walk (startOf directory path) (Text.split '/' path) with
  | .ok place => (d.filesBelow place).map fun names => Path.join path ("/".intercalate names)
  | .error _ => []

inductive Making where
  | made (d : Disk)
  | present
  | fileInTheWay
  | stopped (o : Obstacle)

def makeDirectory (d : Disk) (start : Place) (before : List String) (last : String) : Making :=
  match d.walk start (before ++ [last]) with
  | .error o => .stopped o
  | .ok place =>
      match d.get? place with
      | some .directory => .present
      | some (.file _) => .fileInTheWay
      | none => .made (d.put place .directory)

/-- Makes a directory, given by its names from the last to the first, together with those above it
that are not there. -/
def makeDirectories (d : Disk) (start : Place) : List String → Except Fault Disk
  | [] => .ok d
  | last :: above =>
      match d.makeDirectory start above.reverse last with
      | .made d => .ok d
      | .present => .ok d
      | .fileInTheWay => .error .fileInTheWay
      | .stopped .file => .error .notADirectory
      | .stopped .longName => .error .nameTooLong
      | .stopped .absent => do
          let d ← d.makeDirectories start above
          match d.makeDirectory start above.reverse last with
          | .made d => return d
          | .present => return d
          | .fileInTheWay => throw .fileInTheWay
          | .stopped .longName => throw .nameTooLong
          | .stopped _ => throw .notADirectory

/-- Writes a file, and makes the directories around it. -/
def write (d : Disk) (directory path text : String) : Except Fault Disk := do
  let start := startOf directory path
  let names := Path.components path
  checkPath (Path.parent path)
  let d ← d.makeDirectories start names.reverse.tail
  checkPath path
  match d.walk start names with
  | .error .longName => throw .nameTooLong
  | .error _ => throw .notADirectory
  | .ok place =>
      if d.get? place = some .directory then throw .directoryInTheWay
      else return d.put place (.file text)

/-- What comes of writing files: those that were written before the first that could not be. -/
structure Writing where
  disk : Disk
  written : List (String × String) := []
  fault : Option Fault := none
deriving Repr, DecidableEq

def writeAll (d : Disk) (directory : String) : List (String × String) → Writing
  | [] => { disk := d }
  | (path, text) :: rest =>
      match d.write directory path text with
      | .error fault => { disk := d, fault := some fault }
      | .ok d =>
          let w := d.writeAll directory rest
          { w with written := (path, text) :: w.written }

/-- A disk with some empty files in a directory; a path that ends with a slash is a directory. -/
def plant (directory : String) (paths : List String) : Disk :=
  let add (d : Disk) (place : Place) : Disk :=
    if (d.get? place).isSome then d else d.put place .directory
  let around (place : Place) : List Place := (List.range (place.length + 1)).map place.take
  paths.foldl (fun d path =>
    let place := Path.components directory ++ Path.components path
    if path.toList.getLast? == some '/' then (around place).foldl add d
    else ((around place.dropLast).foldl add d).put place (.file ""))
    ((around (Path.components directory)).foldl add {})

end Disk

end ProtoStubs.CommandLine
