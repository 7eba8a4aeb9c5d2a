import ProcessDrill.Text.Utf8
/-!
# Text without control sequences

`Text.plain` is what a text leaves where it is not shown by a terminal: escape sequences and control
characters are taken out, and blanks stay. A blank inside a sequence is shown, and so is all that
follows it up to the next control character; the sequence goes on from there.
-/

namespace ProcessDrill.Text

set_option autoImplicit false

inductive Sequence where
  | ground
  | escape
  | escapeMore
  | command
  | deviceEntry
  | deviceParameters
  | deviceMore
  | string
  | title
  deriving DecidableEq, Repr

namespace Sequence

/-- What follows an ASCII character of this number. The escape character begins a sequence and the
characters 18 and 1a (hexadecimal) end one, wherever they stand; no other control character makes a
difference, but for a bell that ends a title. -/
def next (s : Sequence) (n : Nat) : Sequence :=
  if n = 0x1b then escape
  else if n = 0x18 ∨ n = 0x1a then ground
  else if n < 0x20 then if s = title ∧ n = 0x07 then ground else s
  else if n = 0x7f then s
  else
    match s with
    | ground => ground
    | escape =>
      if n < 0x30 then escapeMore
      else if n = 0x50 then deviceEntry
      else if n = 0x58 ∨ n = 0x5e ∨ n = 0x5f then string
      else if n = 0x5b then command
      else if n = 0x5d then title
      else ground
    | escapeMore => if n < 0x30 then escapeMore else ground
    | command => if n < 0x40 then command else ground
    | deviceEntry =>
      if n < 0x30 then deviceMore else if n < 0x40 then deviceParameters else string
    | deviceParameters =>
      if n < 0x30 then deviceMore else if n < 0x3c then deviceParameters else string
    | deviceMore => if n < 0x30 then deviceMore else string
    | string => string
    | title => title

/-- What follows a character beyond ASCII. A string ends with the byte 9c, also within the bytes of a
character. -/
def nextForeign (s : Sequence) (c : Char) : Sequence :=
  if s = string ∧ (String.utf8EncodeChar c).contains 0x9c then ground else s

/-- Whether a blank is shown here though it stands inside a sequence. -/
def showsBlanks : Sequence → Bool
  | ground | escape | escapeMore | command => true
  | _ => false

end Sequence

def isBlankCode (n : Nat) : Bool :=
  n == 0x20 || n == 0x09 || n == 0x0a || n == 0x0c || n == 0x0d

def isGraphicCode (n : Nat) : Bool :=
  0x20 ≤ n && n < 0x7f

/-- What is shown of a text that begins inside `s`, where `showing` tells whether the character before
it was shown. -/
def plainFrom (s : Sequence) (showing : Bool) : List Char → List Char
  | [] => []
  | c :: rest =>
    let n := c.toNat
    if 0x80 ≤ n then
      if showing || s == .ground then c :: plainFrom .ground true rest
      else plainFrom (s.nextForeign c) false rest
    else if showing && (isGraphicCode n || isBlankCode n) then c :: plainFrom s true rest
    else if s == .ground && isGraphicCode n then c :: plainFrom s true rest
    else if s.showsBlanks && n < 0x20 && isBlankCode n then c :: plainFrom s true rest
    else plainFrom (s.next n) false rest

def plain (text : String) : String :=
  String.ofList (plainFrom .ground false text.toList)

end ProcessDrill.Text
