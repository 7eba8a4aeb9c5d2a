/-!
# Integers as typed

An optional sign, then `0x` or `0X` and hexadecimal digits, or `0` and octal digits, or decimal
digits. Main definition: `Numeral.parse`, which gives a value exactly when the whole text has that
form and the value fits 32 bits with sign.
-/

namespace ProcessDrill.Numeral

set_option autoImplicit false

def splitSign : List Char → Bool × List Char
  | '-' :: rest => (true, rest)
  | '+' :: rest => (false, rest)
  | text => (false, text)

def splitRadix : List Char → Nat × List Char
  | '0' :: 'x' :: digits => (16, digits)
  | '0' :: 'X' :: digits => (16, digits)
  | '0' :: d :: digits => (8, d :: digits)
  | digits => (10, digits)

def digitValue? (radix : Nat) (c : Char) : Option Nat :=
  let value? :=
    if '0' ≤ c ∧ c ≤ '9' then some (c.toNat - '0'.toNat)
    else if 'a' ≤ c ∧ c ≤ 'f' then some (c.toNat - 'a'.toNat + 10)
    else if 'A' ≤ c ∧ c ≤ 'F' then some (c.toNat - 'A'.toNat + 10)
    else none
  value?.filter (· < radix)

def positional (radix : Nat) (digits : List Nat) : Nat :=
  digits.foldl (fun value d => value * radix + d) 0

/-- The magnitude of one digit or more, as a 64-bit word, if it is below the word's sign bit. -/
def magnitude? (radix : Nat) (text : List Char) : Option Int64 := do
  let digits ← text.mapM (digitValue? radix)
  if digits.isEmpty then none
  else if positional radix digits ≤ 9223372036854775807 then
    some (Int64.ofNat (positional radix digits))
  else none

def narrow? (value : Int64) : Option Int32 :=
  if -2147483648 ≤ value ∧ value ≤ 2147483647 then some value.toInt32 else none

def parse (text : List Char) : Option Int32 := do
  let (negative, unsigned) := splitSign text
  let (radix, digits) := splitRadix unsigned
  let magnitude ← magnitude? radix digits
  narrow? (if negative then -magnitude else magnitude)

end ProcessDrill.Numeral
