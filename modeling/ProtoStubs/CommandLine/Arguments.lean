import ProtoStubs.Options
import ProtoStubs.Text.Basic

/-!
The arguments of the command line. Long switches start with two dashes and may be shortened to any
beginning that only one of them has; a value follows as the next argument or after an equals sign.
Short switches have one dash and one letter; several flags may share a dash, and a value may
follow its letter directly. Before any switch is obeyed every argument is sorted: an argument that
could be two switches is refused at once, and one that could be a switch is never a value. Two
dashes alone divide switches from what is none; attached to a switch they stand for no value.
-/

namespace ProtoStubs.CommandLine

inductive Switch where
  | help | proto | out | server | helper | strict | includes | verbose
deriving Repr, DecidableEq

namespace Switch

def spellings : List (String × Switch) :=
  [("-h", .help), ("--help", .help), ("--proto", .proto), ("--out", .out), ("--server", .server),
    ("--webapi-path", .helper), ("--strict", .strict), ("-I", .includes), ("--include", .includes),
    ("-v", .verbose), ("--verbose", .verbose)]

def ofSpelling? (spelling : String) : Option Switch :=
  (spellings.find? (·.1 == spelling)).map (·.2)

/-- All spellings of a switch. -/
def title (s : Switch) : String :=
  "/".intercalate ((spellings.filter (·.2 == s)).map (·.1))

def takesValue : Switch → Bool
  | .proto | .out | .helper | .includes => true
  | .help | .server | .strict | .verbose => false

end Switch

inductive UsageError where
  | ambiguous (argument : String) (spellings : List String)
  | expectedValue (s : Switch)
  | ignoredValue (s : Switch) (value : String)
  | missing (switches : List Switch)
  | unrecognized (arguments : List String)
deriving Repr, DecidableEq

def UsageError.message : UsageError → String
  | .ambiguous argument spellings =>
      s!"ambiguous option: {argument} could match " ++ ", ".intercalate spellings
  | .expectedValue s => "argument " ++ s.title ++ ": expected one argument"
  | .ignoredValue s value =>
      "argument " ++ s.title ++ ": ignored explicit argument " ++ Text.quoted value
  | .missing switches =>
      "the following arguments are required: " ++ ", ".intercalate (switches.map Switch.title)
  | .unrecognized arguments => "unrecognized arguments: " ++ " ".intercalate arguments

/-- What an argument can be: for one, a switch by its letter or by its long name, with what is
attached to it. -/
inductive Word where
  | plain
  | divider
  | unknown
  | letter (s : Switch) (attached : Option String)
  | name (s : Switch) (attached : Option String)
deriving Repr, DecidableEq

namespace Word

def ofSpelling (spelling : String) (s : Switch) (attached : Option String) : Word :=
  if "--".toList.isPrefixOf spelling.toList then .name s attached else .letter s attached

/-- The spellings an argument can stand for, with what it attaches to them. -/
def candidates (argument : String) : List (String × Word) :=
  match argument.toList with
  | '-' :: '-' :: _ =>
      let (start, value) := Text.cut '=' argument
      (Switch.spellings.filter fun e => start.toList.isPrefixOf e.1.toList).map
        fun e => (e.1, .name e.2 value)
  | first :: second :: rest =>
      (Switch.spellings.filter (·.1 == String.ofList [first, second])).map
        fun e => (e.1, .letter e.2 (some (String.ofList rest)))
  | _ => []

/-- A dash and a decimal number; a line feed at the end does not count. -/
def isNegativeNumber (argument : String) : Bool :=
  let body := if argument.toList.getLast? == some '\n' then argument.toList.dropLast
    else argument.toList
  match body with
  | '-' :: digits =>
      let whole := digits.takeWhile Text.isDigit
      match digits.dropWhile Text.isDigit with
      | [] => !whole.isEmpty
      | '.' :: fraction => !fraction.isEmpty && fraction.all Text.isDigit
      | _ => false
  | _ => false

def classify (argument : String) : Except UsageError Word :=
  if argument.toList.head? != some '-' then .ok .plain
  else
    match Switch.ofSpelling? argument, Text.cut '=' argument with
    | some s, _ => .ok (ofSpelling argument s none)
    | none, (start, value) =>
        if argument = "-" then .ok .plain
        else
          match Switch.ofSpelling? start, value with
          | some s, some v => .ok (ofSpelling start s (some v))
          | _, _ =>
              match candidates argument with
              | [(_, word)] => .ok word
              | _ :: _ :: _ => .error (.ambiguous argument ((candidates argument).map (·.1)))
              | [] =>
                  .ok (if isNegativeNumber argument || ' ' ∈ argument.toList then .plain
                    else .unknown)

/-- Sorts all arguments. After a divider every argument is plain. -/
def classifyAll : List String → Except UsageError (List (String × Word))
  | [] => .ok []
  | argument :: rest =>
      if argument = "--" then .ok ((argument, .divider) :: rest.map (·, .plain))
      else do
        let word ← classify argument
        return (argument, word) :: (← classifyAll rest)

end Word

/-- How the switches of one argument end: with no more, with the value of one, or with one whose
value is the next argument. -/
inductive Ending where
  | nothing
  | value (s : Switch) (value : String)
  | following (s : Switch)
deriving Repr, DecidableEq

structure Demand where
  flags : List Switch := []
  ending : Ending := .nothing
deriving Repr, DecidableEq

namespace Demand

def unattached (s : Switch) : Demand :=
  if s.takesValue then { ending := .following s } else { flags := [s] }

/-- A flag takes no value. -/
def attached (s : Switch) (value : String) : Except UsageError Demand :=
  if s.takesValue then .ok { ending := .value s value } else .error (.ignoredValue s value)

/-- What is attached to a letter is the value of its switch, or, after a flag, begins with the
letter of a further switch. -/
def letters (s : Switch) : List Char → Except UsageError Demand
  | [] => attached s ""
  | c :: tail =>
      match s.takesValue, Switch.ofSpelling? (String.ofList ['-', c]) with
      | false, some next => do
          let demand ← if tail.isEmpty then .ok (unattached next) else letters next tail
          return { demand with flags := s :: demand.flags }
      | _, _ => attached s (String.ofList (c :: tail))

end Demand

def Word.demand? : Word → Option (Except UsageError Demand)
  | .letter s (some value) => some (Demand.letters s value.toList)
  | .name s (some value) => some (Demand.attached s value)
  | .letter s none | .name s none => some (.ok (.unattached s))
  | .plain | .divider | .unknown => none

/-- What the arguments have set so far, and which of them nothing was made of. -/
structure Settings where
  /-- The switches that were given a value, or two dashes in its place. -/
  given : List Switch := []
  proto : Option String := none
  out : Option String := none
  options : Options := {}
  includes : List String := []
  verbose : Bool := false
  left : List String := []
  /-- A switch that waits for its value, after flags that are set once it has one. -/
  waiting : Option (List Switch × Switch) := none
deriving Repr, DecidableEq

inductive Stop where
  | help
  | usage (e : UsageError)
deriving Repr, DecidableEq

namespace Settings

def setFlag (a : Settings) : Switch → Except Stop Settings
  | .help => .error .help
  | .server => .ok { a with options := { a.options with role := .server } }
  | .strict => .ok { a with options := { a.options with strict := true } }
  | .verbose => .ok { a with verbose := true }
  | .proto | .out | .helper | .includes => .ok a

/-- Two dashes are no value. -/
def valueOf? (text : String) : Option String := if text = "--" then none else some text

def setValue (a : Settings) (s : Switch) (text : String) : Settings :=
  let value := valueOf? text
  let a := { a with given := a.given ++ [s] }
  match s with
  | .proto => { a with proto := value }
  | .out => { a with out := value }
  | .helper => { a with options := { a.options with helper := value } }
  | .includes => { a with includes := a.includes ++ value.toList }
  | .help | .server | .strict | .verbose => a

def leave (a : Settings) (argument : String) : Settings := { a with left := a.left ++ [argument] }

def obey (a : Settings) (argument : String × Word) : Except Stop Settings :=
  match a.waiting, argument.2 with
  | some (flags, s), .plain => do
      let a ← flags.foldlM setFlag { a with waiting := none }
      return a.setValue s argument.1
  | some (_, s), _ => .error (.usage (.expectedValue s))
  | none, word =>
      match word.demand? with
      | none => .ok (a.leave argument.1)
      | some (.error e) => .error (.usage e)
      | some (.ok demand) =>
          match demand.ending with
          | .nothing => demand.flags.foldlM setFlag a
          | .value s value => do return (← demand.flags.foldlM setFlag a).setValue s value
          | .following s => .ok { a with waiting := some (demand.flags, s) }

def obeyAll (words : List (String × Word)) : Except Stop Settings := do
  let a ← words.foldlM obey {}
  match a.waiting with
  | some (_, s) => .error (.usage (.expectedValue s))
  | none => return a

end Settings

structure Arguments where
  proto : Option String
  out : Option String
  options : Options
  includes : List String
  verbose : Bool
deriving Repr, DecidableEq

namespace Arguments

def ofSettings (a : Settings) : Except UsageError Arguments :=
  match [Switch.proto, .out].filter (· ∉ a.given) with
  | [] =>
      if a.left.isEmpty then .ok ⟨a.proto, a.out, a.options, a.includes, a.verbose⟩
      else .error (.unrecognized a.left)
  | missing => .error (.missing missing)

def parse (arguments : List String) : Except Stop Arguments := do
  let words ← (Word.classifyAll arguments).mapError .usage
  let settings ← Settings.obeyAll words
  (ofSettings settings).mapError .usage

end Arguments

end ProtoStubs.CommandLine
