import ProcessDrill.CommandLine.Integer
import ProcessDrill.Config
import ProcessDrill.Text.Plain
/-!
# Options

* `Settings` is what the arguments ask for; `Settings.config` fills in what they leave out.
* `parse` reads arguments from left to right. A value that stands apart from its option is judged only
  when the next option, or the end, is reached; a value joined to its option by `=` is judged at once.
  The first complaint, or the first request for help or the version, ends the reading.
-/

namespace ProcessDrill.CommandLine

set_option autoImplicit false

/-! ## Names -/

inductive ValueOption where
  | seed | nameCapacity | fileBound | pidBound
  deriving DecidableEq, Repr

namespace ValueOption

def all : List ValueOption :=
  [seed, nameCapacity, fileBound, pidBound]

def word : ValueOption → String
  | seed => "seed"
  | nameCapacity => "name-capacity"
  | fileBound => "file-bound"
  | pidBound => "pid-bound"

def usage : ValueOption → String
  | seed => "--seed <SEED>"
  | nameCapacity => "--name-capacity <NAME_CAPACITY>"
  | fileBound => "--file-bound <FILE_BOUND>"
  | pidBound => "--pid-bound <PID_BOUND>"

end ValueOption

inductive Flag where
  | verbose | help | version
  deriving DecidableEq, Repr

namespace Flag

def all : List Flag :=
  [verbose, help, version]

def word : Flag → String
  | verbose => "verbose"
  | help => "help"
  | version => "version"

def letter : Flag → Char
  | verbose => 'v'
  | help => 'h'
  | version => 'V'

def usage : Flag → String
  | verbose => "--verbose..."
  | help => "--help"
  | version => "--version"

end Flag

/-! ## Complaints -/

inductive ValueFault where
  | notInteger (fault : Integer.Fault)
  | outOfRange (n : Int)
  deriving DecidableEq, Repr

def ValueFault.message : ValueFault → String
  | notInteger fault => fault.message
  | outOfRange n => Text.signed n ++ " is not in 0..=4294967295"

inductive Complaint where
  | unexpectedArgument (text : String)
  | unexpectedValue (value : String) (flag : Flag)
  | valueMissing (option : ValueOption)
  | repeated (option : ValueOption)
  | invalidValue (value : String) (option : ValueOption) (fault : ValueFault)
  deriving DecidableEq, Repr

def Complaint.message : Complaint → String
  | unexpectedArgument text => "error: unexpected argument '" ++ Text.plain text ++ "' found"
  | unexpectedValue value flag =>
    "error: unexpected value '" ++ Text.plain value ++ "' for '" ++ flag.usage ++
      "' found; no more were expected"
  | valueMissing option =>
    "error: a value is required for '" ++ option.usage ++ "' but none was supplied"
  | repeated option =>
    "error: the argument '" ++ option.usage ++ "' cannot be used multiple times"
  | invalidValue value option fault =>
    "error: invalid value '" ++ Text.plain value ++ "' for '" ++ option.usage ++ "': " ++
      fault.message

inductive Detour where
  | complaint (complaint : Complaint)
  | help
  | version
  deriving DecidableEq, Repr

/-! ## Settings -/

structure Settings where
  seed : Option UInt64 := none
  nameCapacity : Option Nat := none
  fileBound : Option UInt32 := none
  pidBound : Option UInt32 := none
  verbosity : Nat := 0
  deriving DecidableEq, Repr

namespace Settings

def config (settings : Settings) : Config where
  nameCapacity := settings.nameCapacity.getD ({} : Config).nameCapacity
  fileNameBound := settings.fileBound.getD ({} : Config).fileNameBound
  pidBound := settings.pidBound.getD ({} : Config).pidBound

def has (settings : Settings) : ValueOption → Bool
  | .seed => settings.seed.isSome
  | .nameCapacity => settings.nameCapacity.isSome
  | .fileBound => settings.fileBound.isSome
  | .pidBound => settings.pidBound.isSome

def bound (text : String) : Except ValueFault UInt32 :=
  match Integer.signed text.toList with
  | .error fault => .error (.notInteger fault)
  | .ok n => if 0 ≤ n ∧ n ≤ 4294967295 then .ok n.toNat.toUInt32 else .error (.outOfRange n)

def number (text : String) : Except ValueFault Nat :=
  (Integer.unsigned text.toList).mapError .notInteger

def set (settings : Settings) (option : ValueOption) (text : String) :
    Except ValueFault Settings := do
  match option with
  | .seed => pure { settings with seed := some (← number text).toUInt64 }
  | .nameCapacity => pure { settings with nameCapacity := some (← number text) }
  | .fileBound => pure { settings with fileBound := some (← bound text) }
  | .pidBound => pure { settings with pidBound := some (← bound text) }

/-- Judges an option together with what was given as its value: that there is one, that the option
is new, and that the value is of use. -/
def assign (settings : Settings) (option : ValueOption) : Option String → Except Detour Settings
  | none => .error (.complaint (.valueMissing option))
  | some text =>
    if settings.has option then .error (.complaint (.repeated option))
    else (settings.set option text).mapError fun fault =>
      .complaint (.invalidValue text option fault)

end Settings

/-! ## Reading -/

/-- Where the reading of arguments stands: what is settled, and an option whose value stands apart
or is still to come. -/
structure Reading where
  settled : Settings := {}
  open? : Option (ValueOption × Option String) := none
  deriving DecidableEq, Repr

namespace Reading

def settle (r : Reading) : Except Detour Settings :=
  match r.open? with
  | none => .ok r.settled
  | some (option, value?) => r.settled.assign option value?

def raise (r : Reading) (flag : Flag) : Except Detour Reading := do
  let settings ← r.settle
  match flag with
  | .verbose => pure { settled := { settings with verbosity := settings.verbosity + 1 } }
  | .help => throw .help
  | .version => throw .version

def long (r : Reading) (word : String) (value? : Option String) : Except Detour Reading :=
  match ValueOption.all.find? (·.word == word), Flag.all.find? (·.word == word) with
  | some option, _ => do
    let settings ← r.settle
    match value? with
    | some value => pure { settled := ← settings.assign option (some value) }
    | none => pure { settled := settings, open? := some (option, none) }
  | none, some flag =>
    match value? with
    | some value => throw (.complaint (.unexpectedValue value flag))
    | none => r.raise flag
  | none, none => throw (.complaint (.unexpectedArgument ("--" ++ word)))

def letters (r : Reading) : List Char → Except Detour Reading
  | [] => .ok r
  | c :: rest =>
    match Flag.all.find? (·.letter == c) with
    | some flag => do (← r.raise flag).letters rest
    | none => .error (.complaint (.unexpectedArgument (String.ofList ['-', c])))

def plain (r : Reading) (text : String) : Except Detour Reading :=
  match r.open? with
  | some (option, none) => .ok { r with open? := some (option, some text) }
  | _ => .error (.complaint (.unexpectedArgument text))

def splitWord (text : List Char) : String × Option String :=
  (String.ofList (text.takeWhile (· != '=')),
    match text.dropWhile (· != '=') with
    | [] => none
    | _ :: value => some (String.ofList value))

/-- Reads the arguments that are left. Two dashes alone end the options, and nothing may follow. -/
def finish (r : Reading) : List String → Except Detour Settings
  | [] => r.settle
  | text :: rest =>
    match text.toList with
    | ['-', '-'] =>
      match rest with
      | [] => r.settle
      | extra :: _ => throw (.complaint (.unexpectedArgument extra))
    | '-' :: '-' :: word => do
      (← r.long (splitWord word).1 (splitWord word).2).finish rest
    | '-' :: c :: more => do
      (← r.letters (c :: more)).finish rest
    | _ => do
      (← r.plain text).finish rest

end Reading

def parse (arguments : List String) : Except Detour Settings :=
  ({} : Reading).finish arguments

end ProcessDrill.CommandLine
