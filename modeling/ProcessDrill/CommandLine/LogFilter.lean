import ProcessDrill.Log
import ProcessDrill.Pattern.Reader
/-!
# Which log records are printed

A filter has a threshold for every source and may have others for sources whose names begin in a
certain way; the longest such beginning decides. It may also ask for a pattern in the message.
`LogFilter.extend` adds the directives of a text in which commas separate a level on its own, a
beginning with `=` and a level, or a beginning alone; a pattern stands behind a slash.
-/

namespace ProcessDrill.CommandLine

set_option autoImplicit false

abbrev Threshold : Type :=
  Option Log.Level

structure LogFilter where
  usual : Threshold
  special : List (String × Threshold) := []
  pattern : Option Pattern.Expr := none
  deriving DecidableEq, Repr

namespace LogFilter

/-! ## Use -/

def passes (level : Log.Level) : Threshold → Bool
  | none => false
  | some least => level.detail ≤ least.detail

/-- The pair with the longer name; of two equally long ones the later. -/
def longer (a : Option (String × Threshold)) (b : String × Threshold) :
    Option (String × Threshold) :=
  match a with
  | none => some b
  | some a => if a.1.length ≤ b.1.length then some b else some a

def threshold (filter : LogFilter) (name : String) : Threshold :=
  match (filter.special.filter fun s => s.1.toList.isPrefixOf name.toList).foldl longer none with
  | some (_, threshold) => threshold
  | none => filter.usual

def allows (filter : LogFilter) (record : Log.Record) : Bool :=
  passes record.level (filter.threshold record.source.name) &&
    filter.pattern.all (·.occursIn record.message)

/-! ## Directives -/

def split (separator : Char) : List Char → List (List Char)
  | [] => [[]]
  | c :: rest =>
    match split separator rest with
    | [] => [[]]
    | piece :: pieces => if c = separator then [] :: piece :: pieces else (c :: piece) :: pieces

def threshold? (text : List Char) : Option Threshold :=
  let name := String.ofList (text.map Char.toUpper)
  if name = "OFF" then some none
  else ([.error, .warn, .info, .debug, .trace] : List Log.Level).find? (·.name == name) |>.map some

def insert (filter : LogFilter) (name : String) (threshold : Threshold) : LogFilter :=
  if filter.special.any (·.1 == name) then
    { filter with
      special := filter.special.map fun s => if s.1 == name then (name, threshold) else s }
  else { filter with special := filter.special ++ [(name, threshold)] }

/-- The filter after one directive; one that makes no sense changes nothing. -/
def direct (filter : LogFilter) (directive : List Char) : LogFilter :=
  match split '=' directive with
  | [[]] => filter
  | [text] =>
    match threshold? text with
    | some threshold => { filter with usual := threshold }
    | none => filter.insert (String.ofList text) (some .trace)
  | [name, level] =>
    if Text.trim level = [] then filter.insert (String.ofList name) (some .trace)
    else
      match threshold? (Text.trim level) with
      | some threshold => filter.insert (String.ofList name) threshold
      | none => filter
  | _ => filter

def directed (filter : LogFilter) (directives : List Char) (pattern : Option Pattern.Expr) :
    LogFilter :=
  { ((split ',' directives).map Text.trim).foldl direct filter with pattern }

/-- The filter after all directives of a text and with its pattern, if there is one that can be read. A
text with two slashes says nothing. -/
def extend (filter : LogFilter) (text : String) : LogFilter :=
  match split '/' text.toList with
  | [directives] => filter.directed directives none
  | [directives, pattern] => filter.directed directives (Pattern.ofString? (String.ofList pattern))
  | _ => { filter with pattern := none }

end LogFilter

end ProcessDrill.CommandLine
