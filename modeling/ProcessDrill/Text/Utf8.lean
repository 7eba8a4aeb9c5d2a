/-!
# UTF-8

* `Utf8.encode` writes a string as bytes.
* `Utf8.pieces` cuts any byte string into characters and broken pieces; a broken piece is the
  longest run of bytes that begins a character but cannot go on to complete it, and at least one
  byte.
* `Utf8.decode?` reads bytes that are UTF-8 throughout, `Utf8.decodeLossy` reads any bytes and puts
  one U+FFFD in the place of every broken piece.
-/

namespace ProcessDrill.Utf8

set_option autoImplicit false

def encode (s : String) : List UInt8 :=
  s.toList.flatMap String.utf8EncodeChar

@[simp]
theorem encode_append (s t : String) : encode (s ++ t) = encode s ++ encode t := by
  simp [encode]

/-! ## Reading -/

/-- What one step of a reader finds: a character, or bytes that are none. -/
inductive Piece where
  | scalar (c : Char)
  | broken
  deriving DecidableEq, Repr

/-- What the first byte of a character of several bytes promises: how many bytes follow it, the
range of the second one, and the bits of the character that the first one holds. -/
structure Lead where
  following : Nat
  lowest : UInt8
  highest : UInt8
  bits : Nat
  deriving DecidableEq, Repr

/-- The first bytes that open a character of several bytes. The range of the second byte leaves out
overlong forms, surrogates and values above U+10FFFF. -/
def Lead.of? (b : UInt8) : Option Lead :=
  if b < 0xc2 then none
  else if b < 0xe0 then some ⟨1, 0x80, 0xbf, b.toNat - 0xc0⟩
  else if b = 0xe0 then some ⟨2, 0xa0, 0xbf, 0⟩
  else if b = 0xed then some ⟨2, 0x80, 0x9f, 0xd⟩
  else if b < 0xf0 then some ⟨2, 0x80, 0xbf, b.toNat - 0xe0⟩
  else if b = 0xf0 then some ⟨3, 0x90, 0xbf, 0⟩
  else if b < 0xf4 then some ⟨3, 0x80, 0xbf, b.toNat - 0xf0⟩
  else if b = 0xf4 then some ⟨3, 0x80, 0x8f, 4⟩
  else none

def isContinuation (b : UInt8) : Bool :=
  0x80 ≤ b && b ≤ 0xbf

def extend (value : Nat) (b : UInt8) : Nat :=
  value * 64 + (b.toNat - 0x80)

def pieces : List UInt8 → List Piece
  | [] => []
  | a :: s =>
    if a < 0x80 then .scalar (Char.ofNat a.toNat) :: pieces s
    else match Lead.of? a with
      | none => .broken :: pieces s
      | some l => match s with
        | [] => [.broken]
        | b :: t =>
          if l.lowest ≤ b ∧ b ≤ l.highest then
            if l.following = 1 then .scalar (Char.ofNat (extend l.bits b)) :: pieces t
            else match t with
              | [] => [.broken]
              | c :: u =>
                if isContinuation c then
                  if l.following = 2 then
                    .scalar (Char.ofNat (extend (extend l.bits b) c)) :: pieces u
                  else match u with
                    | [] => [.broken]
                    | d :: v =>
                      if isContinuation d then
                        .scalar (Char.ofNat (extend (extend (extend l.bits b) c) d)) :: pieces v
                      else .broken :: pieces (d :: v)
                else .broken :: pieces (c :: u)
          else .broken :: pieces (b :: t)

def Piece.char? : Piece → Option Char
  | .scalar c => some c
  | .broken => none

def Piece.shown : Piece → Char
  | .scalar c => c
  | .broken => '\uFFFD'

def decode? (bytes : List UInt8) : Option (List Char) :=
  (pieces bytes).mapM Piece.char?

/-- The characters of any byte string, each broken piece shown as U+FFFD. -/
def decodeLossy (bytes : List UInt8) : List Char :=
  (pieces bytes).map Piece.shown

end ProcessDrill.Utf8
