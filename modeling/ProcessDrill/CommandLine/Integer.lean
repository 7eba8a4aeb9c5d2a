import ProcessDrill.Text.Decimal
/-!
# Integers in arguments

Decimal digits after an optional sign, within the range of a 64-bit word with or without sign. Text is
judged from left to right, so of a foreign character and a value out of range the one that comes first
is named.
-/

namespace ProcessDrill.CommandLine.Integer

set_option autoImplicit false

inductive Fault where
  | empty
  | invalidDigit
  | tooLarge
  | tooSmall
  deriving DecidableEq, Repr

def Fault.message : Fault → String
  | empty => "cannot parse integer from empty string"
  | invalidDigit => "invalid digit found in string"
  | tooLarge => "number too large to fit in target type"
  | tooSmall => "number too small to fit in target type"

/-- Reads digits behind those that gave `value`. A value above `limit` is the fault `beyond`. -/
def digits (limit : Nat) (beyond : Fault) (value : Nat) : List Char → Except Fault Nat
  | [] => .ok value
  | c :: rest =>
    if '0' ≤ c ∧ c ≤ '9' then
      let next := value * 10 + (c.toNat - '0'.toNat)
      if next ≤ limit then digits limit beyond next rest else .error beyond
    else .error .invalidDigit

def magnitude (limit : Nat) (beyond : Fault) : List Char → Except Fault Nat
  | [] => .error .invalidDigit
  | text => digits limit beyond 0 text

def unsigned : List Char → Except Fault Nat
  | [] => .error .empty
  | '+' :: text => magnitude 18446744073709551615 .tooLarge text
  | text => magnitude 18446744073709551615 .tooLarge text

def signed : List Char → Except Fault Int
  | [] => .error .empty
  | '+' :: text => (magnitude 9223372036854775807 .tooLarge text).map Int.ofNat
  | '-' :: text => (magnitude 9223372036854775808 .tooSmall text).map fun n => -Int.ofNat n
  | text => (magnitude 9223372036854775807 .tooLarge text).map Int.ofNat

end ProcessDrill.CommandLine.Integer
