import ProtoStubs.Text.Characters

/-!
Texts: cutting them at a character, dropping the blanks around them, reading bytes as text where
some may not be UTF-8, and putting texts between quotes. The pieces of `split` are joined back by
`String.intercalate`; a text without the character is its own single piece.
-/

namespace ProtoStubs.Text

def split (sep : Char) (s : String) : List String :=
  (s.toList.splitOn sep).map String.ofList

/-- What stands before the first `sep`, and what follows it if there is one. -/
def cut (sep : Char) (s : String) : String × Option String :=
  let before := s.toList.takeWhile (· ≠ sep)
  match s.toList.dropWhile (· ≠ sep) with
  | [] => (String.ofList before, none)
  | _ :: after => (String.ofList before, some (String.ofList after))

def trim (s : String) : String :=
  String.ofList ((s.toList.dropWhile isBlank).reverse.dropWhile isBlank).reverse

/-- The character at the front of some bytes, and how many bytes it takes. -/
def character? (bytes : List UInt8) : Option (String × Nat) :=
  [1, 2, 3, 4].findSome? fun n =>
    if n ≤ bytes.length then (String.fromUTF8? ⟨(bytes.take n).toArray⟩).map (·, n) else none

def charactersUpTo : (count : Nat) → List UInt8 → List String
  | 0, _ => []
  | _, [] => []
  | count + 1, b :: rest =>
      match character? (b :: rest) with
      | some (c, n) => c :: charactersUpTo count (rest.drop (n - 1))
      | none => charactersUpTo count rest

/-- The text that is left when all bytes that belong to no character are dropped. -/
def ofBytesDropping (bytes : List UInt8) : String :=
  String.join (charactersUpTo bytes.length bytes)

/-- A number in hexadecimal digits, at least `width` of them. -/
def hexDigits (width n : Nat) : List Char :=
  let digits := Nat.toDigits 16 n
  List.replicate (width - digits.length) '0' ++ digits

def escape (quote c : Char) : List Char :=
  if c = '\\' || c = quote then ['\\', c]
  else if c = '\n' then ['\\', 'n']
  else if c = '\r' then ['\\', 'r']
  else if c = '\t' then ['\\', 't']
  else if !isHidden c then [c]
  else if c.toNat < 0x100 then '\\' :: 'x' :: hexDigits 2 c.toNat
  else if c.toNat < 0x10000 then '\\' :: 'u' :: hexDigits 4 c.toNat
  else '\\' :: 'U' :: hexDigits 8 c.toNat

/-- The text between single quotes, or between double quotes if it holds a single quote and no
double one. -/
def quoted (s : String) : String :=
  let quote := if '\'' ∈ s.toList ∧ '"' ∉ s.toList then '"' else '\''
  String.ofList (quote :: s.toList.flatMap (escape quote) ++ [quote])

end ProtoStubs.Text
