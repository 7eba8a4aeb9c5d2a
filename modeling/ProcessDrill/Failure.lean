import ProcessDrill.Errno
import ProcessDrill.Text.Decimal
/-!
# Failures

`InputError` says why an answer could not be used; it is reported and the drill goes on. `Failure`
adds the two failures that end a drill or keep it from starting: a console that does not work, and a
configuration that is refused.
-/

namespace ProcessDrill

set_option autoImplicit false

inductive InputError where
  | closed
  | notInteger (text : String)
  /-- A name of `length` bytes leaves no room for its terminator in `capacity` bytes. -/
  | nameTooLong (length capacity : Nat)
  deriving DecidableEq, Repr

def InputError.message : InputError → String
  | closed => "input ended before a value was entered"
  | notInteger text => "'" ++ text ++ "' is not an integer"
  | nameTooLong length capacity =>
    "name is " ++ Text.decimal length ++ " bytes but the buffer holds " ++ Text.decimal capacity ++
      " bytes including the NUL"

inductive Failure where
  | input (e : InputError)
  | console (e : Errno)
  | config (reason : String)
  deriving DecidableEq, Repr

namespace Failure

def message : Failure → String
  | input e => e.message
  | console e => "console: " ++ e.name
  | config reason => "invalid configuration: " ++ reason

def cause? : Failure → Option Errno
  | console e => some e
  | _ => none

end Failure

end ProcessDrill
