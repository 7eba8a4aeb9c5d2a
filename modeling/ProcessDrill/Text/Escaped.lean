/-!
# Escaped bytes

`Text.escape` shows any byte string as printable ASCII: tab, line feed, carriage return, quotes and
backslash by a backslash and one character, other printable bytes as themselves, and all else as
`\x` with two hexadecimal digits.
-/

namespace ProcessDrill.Text

set_option autoImplicit false

def hexDigit (n : Nat) : Char :=
  Nat.digitChar (n % 16)

def escapeByte (b : UInt8) : List Char :=
  if b = 0x09 then ['\\', 't']
  else if b = 0x0a then ['\\', 'n']
  else if b = 0x0d then ['\\', 'r']
  else if b = 0x22 then ['\\', '\x22']
  else if b = 0x27 then ['\\', '\x27']
  else if b = 0x5c then ['\\', '\\']
  else if 0x20 ≤ b ∧ b ≤ 0x7e then [Char.ofNat b.toNat]
  else ['\\', 'x', hexDigit (b.toNat / 16), hexDigit b.toNat]

def escape (bytes : List UInt8) : String :=
  String.ofList (bytes.flatMap escapeByte)

end ProcessDrill.Text
