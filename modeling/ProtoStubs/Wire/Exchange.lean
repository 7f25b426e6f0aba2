import ProtoStubs.Plugin
import ProtoStubs.Wire.Descriptor

/-!
Requests to the plugin and its responses on the wire.
-/

namespace ProtoStubs.Plugin

open Wire

namespace Request

def absorb (r : Request) : Entry → Option Request
  | ⟨1, .bytes content⟩ => (text? content).map fun s => { r with requested := r.requested ++ [s] }
  | ⟨2, .bytes content⟩ => (text? content).map fun s => { r with parameter := s }
  | ⟨15, .bytes content⟩ =>
      (SchemaFile.ofBytes content).map fun f => { r with files := r.files ++ [f] }
  | _ => some r

/-- A request is read only if all that is in it is well-formed. -/
def ofBytes (bytes : Bytes) : Option Request :=
  if Shape.request.wellFormed bytes then foldEntries absorb {} bytes else none

def entries (r : Request) : List Entry :=
  r.requested.map (Entry.text 1) ++ [Entry.text 2 r.parameter] ++
    r.files.map (Entry.nested 15 ·.entries)

def toBytes (r : Request) : Bytes := writeEntries r.entries

end Request

namespace Response

def entries (r : Response) : List Entry :=
  r.error.toList.map (Entry.text 1) ++ [Entry.mk 2 (.varint supportedFeatures)] ++
    r.files.map fun f => Entry.nested 15 [.text 1 f.1, .text 15 f.2]

def toBytes (r : Response) : Bytes := writeEntries r.entries

end Response

def exchange (directory : String) (request : Bytes) : Except Fault Bytes :=
  match Request.ofBytes request with
  | none => .error .malformedBytes
  | some r => (respond directory r).map Response.toBytes

end ProtoStubs.Plugin
