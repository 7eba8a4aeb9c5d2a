/-!
# Blanks and spaces

`Text.isBlank` holds of the five bytes that separate typed tokens: space, tab, line feed, form feed
and carriage return. The vertical tab is not among them. `Text.isSpace` holds of the characters that
are white space wherever they occur in text.
-/

namespace ProcessDrill.Text

set_option autoImplicit false

def isBlank (b : UInt8) : Bool :=
  b == 0x20 || b == 0x09 || b == 0x0a || b == 0x0c || b == 0x0d

def isInk (b : UInt8) : Bool :=
  !isBlank b

def spaceRanges : List (Nat × Nat) :=
  [(0x09, 0x0d), (0x20, 0x20), (0x85, 0x85), (0xa0, 0xa0), (0x1680, 0x1680), (0x2000, 0x200a),
   (0x2028, 0x2029), (0x202f, 0x202f), (0x205f, 0x205f), (0x3000, 0x3000)]

def isSpace (c : Char) : Bool :=
  spaceRanges.any fun (lowest, highest) => lowest ≤ c.toNat && c.toNat ≤ highest

def trim (text : List Char) : List Char :=
  ((text.dropWhile isSpace).reverse.dropWhile isSpace).reverse

end ProcessDrill.Text
