/-!
The kinds and labels a field can have, with their numbers and names in a schema descriptor. A
descriptor may also carry a bare number: it means the member with that number if there is one,
and it is written as the number it is.
-/

namespace ProtoStubs

inductive Kind where
  | double | float | int64 | uint64 | int32 | fixed64 | fixed32 | bool | string | group
  | message | bytes | uint32 | enum | sfixed32 | sfixed64 | sint32 | sint64
deriving Repr, DecidableEq

inductive Label where
  | optional | required | repeated
deriving Repr, DecidableEq

class Numbered (α : Type) where
  /-- What the enumeration is called. -/
  title : String
  members : List α
  number : α → Int
  name : α → String

def Kind.number : Kind → Int
  | .double => 1 | .float => 2 | .int64 => 3 | .uint64 => 4 | .int32 => 5 | .fixed64 => 6
  | .fixed32 => 7 | .bool => 8 | .string => 9 | .group => 10 | .message => 11 | .bytes => 12
  | .uint32 => 13 | .enum => 14 | .sfixed32 => 15 | .sfixed64 => 16 | .sint32 => 17 | .sint64 => 18

def Kind.name : Kind → String
  | .double => "DOUBLE" | .float => "FLOAT" | .int64 => "INT64" | .uint64 => "UINT64"
  | .int32 => "INT32" | .fixed64 => "FIXED64" | .fixed32 => "FIXED32" | .bool => "BOOL"
  | .string => "STRING" | .group => "GROUP" | .message => "MESSAGE" | .bytes => "BYTES"
  | .uint32 => "UINT32" | .enum => "ENUM" | .sfixed32 => "SFIXED32" | .sfixed64 => "SFIXED64"
  | .sint32 => "SINT32" | .sint64 => "SINT64"

instance : Numbered Kind where
  title := "FieldKind"
  members := [.double, .float, .int64, .uint64, .int32, .fixed64, .fixed32, .bool, .string, .group,
    .message, .bytes, .uint32, .enum, .sfixed32, .sfixed64, .sint32, .sint64]
  number := Kind.number
  name := Kind.name

def Label.number : Label → Int
  | .optional => 1 | .required => 2 | .repeated => 3

def Label.name : Label → String
  | .optional => "OPTIONAL" | .required => "REQUIRED" | .repeated => "REPEATED"

instance : Numbered Label where
  title := "FieldLabel"
  members := [.optional, .required, .repeated]
  number := Label.number
  name := Label.name

/-- A value of an enumeration as a descriptor gives it. -/
inductive Coded (α : Type) where
  | member (a : α)
  | number (n : Int)
deriving Repr, DecidableEq

namespace Coded

variable {α : Type} [Numbered α]

def member? (n : Int) : Option α := (Numbered.members : List α).find? (Numbered.number · == n)

/-- A number is read as its member, and kept if it has none. -/
def ofNumber (n : Int) : Coded α :=
  match (member? n : Option α) with
  | some a => .member a
  | none => .number n

def meaning? : Coded α → Option α
  | .member a => some a
  | .number n => member? n

/-- A member is written with its enumeration, name and number; a bare number in decimal. -/
def describe : Coded α → String
  | .member a =>
      "<" ++ Numbered.title α ++ "." ++ Numbered.name a ++ ": " ++
        toString (Numbered.number a) ++ ">"
  | .number n => toString n

end Coded

end ProtoStubs
