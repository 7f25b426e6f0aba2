import ProtoStubs.Wire.Token

/-!
The shapes of the messages in compiled schema files and in requests. A shape says which entries of
a message hold messages in turn, and which hold runs of numbers. All of them must be well-formed,
also those that are never read, and neither messages nor groups may be nested too deep.
-/

namespace ProtoStubs.Wire

inductive Shape where
  | request
  | descriptorSet
  | file
  | message
  | extensionRange
  | field
  | oneof
  | enum
  | enumValue
  | service
  | method
  | fileOptions
  | messageOptions
  | extensionRangeOptions
  | fieldOptions
  | oneofOptions
  | enumOptions
  | enumValueOptions
  | serviceOptions
  | methodOptions
  | uninterpretedOption
  | sourceInfo
  | location
  /-- A message with neither messages nor runs of numbers in it. -/
  | flat
deriving Repr, DecidableEq

inductive Part where
  | message (s : Shape)
  | numbers
deriving Repr, DecidableEq

namespace Shape

def parts : Shape → List (Nat × Part)
  | .request => [(3, .message .flat), (15, .message .file), (17, .message .file)]
  | .descriptorSet => [(1, .message .file)]
  | .file =>
      [(4, .message .message), (5, .message .enum), (6, .message .service), (7, .message .field),
        (8, .message .fileOptions), (9, .message .sourceInfo), (10, .numbers), (11, .numbers)]
  | .message =>
      [(2, .message .field), (3, .message .message), (4, .message .enum),
        (5, .message .extensionRange), (6, .message .field), (7, .message .messageOptions),
        (8, .message .oneof), (9, .message .flat)]
  | .extensionRange => [(3, .message .extensionRangeOptions)]
  | .field => [(8, .message .fieldOptions)]
  | .oneof => [(2, .message .oneofOptions)]
  | .enum => [(2, .message .enumValue), (3, .message .enumOptions), (4, .message .flat)]
  | .enumValue => [(3, .message .enumValueOptions)]
  | .service => [(2, .message .method), (3, .message .serviceOptions)]
  | .method => [(4, .message .methodOptions)]
  | .fileOptions => [(50, .message .flat), (999, .message .uninterpretedOption)]
  | .messageOptions => [(12, .message .flat), (999, .message .uninterpretedOption)]
  | .extensionRangeOptions =>
      [(2, .message .flat), (50, .message .flat), (999, .message .uninterpretedOption)]
  | .fieldOptions =>
      [(19, .numbers), (20, .message .flat), (21, .message .flat), (22, .message .flat),
        (999, .message .uninterpretedOption)]
  | .oneofOptions => [(1, .message .flat), (999, .message .uninterpretedOption)]
  | .enumOptions => [(7, .message .flat), (999, .message .uninterpretedOption)]
  | .enumValueOptions =>
      [(2, .message .flat), (4, .message .flat), (999, .message .uninterpretedOption)]
  | .serviceOptions => [(34, .message .flat), (999, .message .uninterpretedOption)]
  | .methodOptions => [(35, .message .flat), (999, .message .uninterpretedOption)]
  | .uninterpretedOption => [(2, .message .flat)]
  | .sourceInfo => [(1, .message .location)]
  | .location => [(1, .numbers), (2, .numbers)]
  | .flat => []

/-- Whether an entry is well-formed; `inner` is asked about a message in it. -/
def admitsEntry (inner : Shape → Bytes → Bool) (s : Shape) : Entry → Bool
  | ⟨number, .bytes content⟩ =>
      match s.parts.lookup number with
      | some (.message part) => inner part content
      | some .numbers => (Varint.scan content).isSome
      | none => true
  | _ => true

/-- Whether a message is well-formed with groups at most `room` deep; `inner` is asked about the
messages in it. -/
def admitsWith (room : Nat) (inner : Shape → Bytes → Bool) (s : Shape) (bytes : Bytes) : Bool :=
  match Token.scan bytes with
  | none => false
  | some tokens =>
      Token.nestWithin room 0 tokens &&
        match Entry.ofTokens [] tokens with
        | none => false
        | some entries => entries.all (admitsEntry inner s)

/-- Whether a message is well-formed, with messages and groups together at most `room` deep in
it. -/
def admits : (room : Nat) → Shape → Bytes → Bool
  | 0 => admitsWith 0 fun _ _ => false
  | room + 1 => admitsWith (room + 1) (admits room)

def depthLimit : Nat := 100

def wellFormed (s : Shape) (bytes : Bytes) : Bool := s.admits depthLimit bytes

end Shape

end ProtoStubs.Wire
