/-!
# Log records

A record has a level, the part of the program it comes from, and a message of one line.
-/

namespace ProcessDrill.Log

set_option autoImplicit false

inductive Level where
  | error | warn | info | debug | trace
  deriving DecidableEq, Repr

namespace Level

def name : Level → String
  | error => "ERROR"
  | warn => "WARN"
  | info => "INFO"
  | debug => "DEBUG"
  | trace => "TRACE"

/-- How much a level tells: zero is left for telling nothing. -/
def detail : Level → Nat
  | error => 1
  | warn => 2
  | info => 3
  | debug => 4
  | trace => 5

end Level

inductive Source where
  | program
  | drill
  | exercise
  deriving DecidableEq, Repr

def Source.name : Source → String
  | program => "proctest"
  | drill => "proctest::harness"
  | exercise => "proctest::cases"

structure Record where
  level : Level
  source : Source
  message : String
  deriving DecidableEq, Repr

end ProcessDrill.Log
