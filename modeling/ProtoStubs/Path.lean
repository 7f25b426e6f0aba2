import ProtoStubs.Text.Basic

/-!
Slash-separated paths as texts. A path is absolute if it starts with a slash, and exactly two
leading slashes are kept apart from one. Components that are empty or a single dot name nothing;
`normalize` also cancels a name against the two dots after it.
-/

namespace ProtoStubs.Path

def isAbsolute (p : String) : Bool := p.toList.head? == some '/'

/-- The slashes a path keeps in front of its first component. -/
def root (p : String) : String :=
  match p.toList with
  | '/' :: '/' :: '/' :: _ => "/"
  | '/' :: '/' :: _ => "//"
  | '/' :: _ => "/"
  | _ => ""

/-- The components of a path that name something. -/
def components (p : String) : List String :=
  (Text.split '/' p).filter fun n => n ≠ "" && n ≠ "."

/-- The empty path is the directory itself. -/
def orDot (p : String) : String := if p = "" then "." else p

/-- One component more on a stack of components, the last one first. Two dots cancel the name
before them; in front of an absolute path they vanish. -/
def descend (anchored : Bool) (stack : List String) (name : String) : List String :=
  if name ≠ ".." || (!anchored && stack.isEmpty) || stack.head? == some ".." then name :: stack
  else stack.tail

def collapse (anchored : Bool) (names : List String) : List String :=
  (names.foldl (descend anchored) []).reverse

/-- The path without empty components, single dots, and names cancelled by two dots. -/
def normalize (p : String) : String :=
  orDot (root p ++ "/".intercalate (collapse (isAbsolute p) (components p)))

/-- The path without empty components and single dots; two dots stay. -/
def tidy (p : String) : String :=
  orDot (root p ++ "/".intercalate (components p))

/-- `b` as seen from the directory `a`. An absolute `b` stands for itself. -/
def join (a b : String) : String :=
  if isAbsolute b then b
  else if a = "" || a.toList.getLast? == some '/' then a ++ b
  else a ++ "/" ++ b

def absolute (directory p : String) : String :=
  normalize (if isAbsolute p then p else join directory p)

def places (directory p : String) : List String :=
  (Text.split '/' (absolute directory p)).filter (· ≠ "")

/-- The way from one list of names to another: up out of what they do not share, then down. -/
def between : List String → List String → List String
  | a :: start, b :: target =>
      if a = b then between start target
      else List.replicate (start.length + 1) ".." ++ b :: target
  | start, target => List.replicate start.length ".." ++ target

/-- The path of `target` as seen from the directory `start`; a single dot if they are the same. -/
def relative (directory start target : String) : String :=
  orDot ("/".intercalate (between (places directory start) (places directory target)))

def shared : List String → List String → List String
  | a :: as, b :: bs => if a = b then a :: shared as bs else []
  | _, _ => []

def common (p q : String) : String :=
  "/" ++ "/".intercalate (shared (components p) (components q))

def parent (p : String) : String :=
  let head := p.toList.reverse.dropWhile (· ≠ '/')
  let names := head.dropWhile (· == '/')
  String.ofList (if names.isEmpty then head else names).reverse

def fileName (p : String) : String :=
  String.ofList (p.toList.reverse.takeWhile (· ≠ '/')).reverse

/-- A file name up to its last dot. Dots in front of all other characters do not count. -/
def stem (name : String) : String :=
  match name.toList.reverse.dropWhile (· ≠ '.') with
  | [] => name
  | _ :: before => if before.any (· ≠ '.') then String.ofList before.reverse else name

end ProtoStubs.Path
