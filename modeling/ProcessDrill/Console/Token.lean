import ProcessDrill.Console
import ProcessDrill.Failure
import ProcessDrill.Numeral
import ProcessDrill.Text.Blank
/-!
# Typed tokens

Input is taken token by token; a token is a run of bytes without blanks. `Console.readToken` uses up
the blanks before a token, the whole token, and one blank after it. It keeps no more bytes than it
is allowed to and counts the rest. `Console.readInt` and `Console.readName` say what a token must be
to serve as an integer or as a name.
-/

namespace ProcessDrill

set_option autoImplicit false

/-- A token as far as it was kept. -/
structure Token where
  bytes : List UInt8 := []
  length : Nat := 0
  deriving DecidableEq, Repr

namespace Token

/-- The token with more bytes typed, of which no more are kept than `limit` leaves room for. -/
def extend (token : Token) (limit : Nat) (more : List UInt8) : Token where
  bytes := token.bytes ++ more.take (limit - token.bytes.length)
  length := token.length + more.length

def complete? (token : Token) : Option (List UInt8) :=
  if token.bytes.length = token.length then some token.bytes else none

def shown (token : Token) : String :=
  String.ofList (Utf8.decodeLossy token.bytes) ++
    if token.bytes.length < token.length then "..." else ""

def int? (token : Token) : Option Int32 := do
  let bytes ← token.complete?
  let text ← Utf8.decode? bytes
  Numeral.parse text

end Token

namespace Console

variable {σ : Type}

/-- Drops blanks until a token stands first among the pending bytes, and tells whether one does.
Asks for more input only when nothing is pending, and at most `reads` times. -/
def skipBlanks (host : Host σ) (reads : Nat) : Session σ Bool := do
  let ink := (← get).pending.dropWhile Text.isBlank
  modify fun c => { c with pending := ink }
  if !ink.isEmpty then pure true
  else if (← get).atEnd then pure false
  else
    match reads with
    | 0 => throw .outOfPatience
    | reads + 1 => if ← refill host then skipBlanks host reads else pure false

/-- Moves bytes from the input to the token up to the next blank, which is dropped. -/
def takeInk (host : Host σ) (limit : Nat) (reads : Nat) (token : Token) : Session σ Token := do
  let pending := (← get).pending
  let token := token.extend limit (pending.takeWhile Text.isInk)
  let blank := pending.dropWhile Text.isInk
  modify fun c => { c with pending := blank.drop 1 }
  if !blank.isEmpty then pure token
  else if (← get).atEnd then pure token
  else
    match reads with
    | 0 => throw .outOfPatience
    | reads + 1 => if ← refill host then takeInk host limit reads token else pure token

def readToken (host : Host σ) (limit : Nat) : Session σ (Except InputError Token) := do
  let reads := host.patience (← get).machine
  if ← skipBlanks host reads then
    let token ← takeInk host limit reads {}
    pure (.ok token)
  else pure (.error .closed)

def maxIntToken : Nat := 40

def readInt (host : Host σ) : Session σ (Except InputError Int32) := do
  match ← readToken host maxIntToken with
  | .error e => pure (.error e)
  | .ok token =>
    match token.int? with
    | some n => pure (.ok n)
    | none => pure (.error (.notInteger token.shown))

def readName (host : Host σ) (capacity : Nat) : Session σ (Except InputError (List UInt8)) := do
  match ← readToken host capacity with
  | .error e => pure (.error e)
  | .ok token =>
    if token.length < capacity then pure (.ok token.bytes)
    else pure (.error (.nameTooLong token.length capacity))

end Console

end ProcessDrill
