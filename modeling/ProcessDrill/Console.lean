import ProcessDrill.Buffer
import ProcessDrill.Host
import ProcessDrill.Text.Utf8
/-!
# The console of a session

* `Console σ` is a machine's state together with the input bytes that were read and not yet used.
* `Session σ` is a computation on a console; it ends early with a `Stop`.
* `Console.writeAll` offers the rest of its bytes until the machine has taken all of them.
* `Console.refill` asks for more input; a read of no bytes is the end of the input for good.
-/

namespace ProcessDrill

set_option autoImplicit false

structure Console (σ : Type) where
  machine : σ
  pending : List UInt8 := []
  atEnd : Bool := false
  deriving DecidableEq, Repr

inductive Fault where
  | emptyRange
  | outOfBounds
  deriving DecidableEq, Repr

/-- Why a session ends before its time. -/
inductive Stop where
  | console (e : Errno)
  /-- A call did not return. -/
  | neverReturned
  /-- A token went on for more reads than the session waits for. -/
  | outOfPatience
  /-- The random words ran out. -/
  | outOfWords
  | fault (fault : Fault)
  deriving DecidableEq, Repr

abbrev Session (σ α : Type) : Type :=
  EStateM Stop (Console σ) α

namespace Console

variable {σ : Type}

/-! ## Single calls -/

def ask (host : Host σ) (call : Call) : Session σ call.Answer := fun c =>
  match host.answer call c.machine with
  | (some a, s) => .ok a { c with machine := s }
  | (none, s) => .error .neverReturned { c with machine := s }

def log (host : Host σ) (level : Log.Level) (source : Log.Source) (message : String) :
    Session σ Unit :=
  modify fun c => { c with machine := host.log ⟨level, source, message⟩ c.machine }

/-! ## Output -/

/-- Writes all bytes, however few the machine takes at a time. A count beyond the bytes offered
stands for all of them; a count of none is an error. -/
def writeAll (host : Host σ) (bytes : List UInt8) : Session σ Unit := do
  if _ : bytes = [] then pure ()
  else
    match ← ask host (.write bytes) with
    | .error e => throw (.console e)
    | .ok 0 => throw (.console .eio)
    | .ok (n + 1) =>
      match _ : Buffer.sliceFrom? bytes (min (n + 1) bytes.length) with
      | none => throw (.fault .outOfBounds)
      | some rest => writeAll host rest
termination_by bytes.length
decreasing_by
  have := List.length_pos_iff.2 ‹bytes ≠ []›
  have := Buffer.length_sliceFrom? ‹_ = some rest›
  omega

def print (host : Host σ) (text : String) : Session σ Unit :=
  writeAll host (Utf8.encode text)

def printLine (host : Host σ) (text : String) : Session σ Unit := do
  print host text
  print host "\n"

/-! ## Input -/

def chunkSize : Nat := 64

/-- Reads one chunk behind the pending bytes and tells whether there was one. A count beyond the
buffer stands for all of it. -/
def refill (host : Host σ) : Session σ Bool := do
  let (result, stored) ← ask host (.read (Buffer.zeros chunkSize))
  match result with
  | .error e => throw (.console e)
  | .ok 0 =>
    modify fun c => { c with atEnd := true }
    pure false
  | .ok (n + 1) =>
    let buffer := Buffer.overlay stored (Buffer.zeros chunkSize)
    match Buffer.sliceTo? buffer (min (n + 1) chunkSize) with
    | none => throw (.fault .outOfBounds)
    | some chunk =>
      modify fun c => { c with pending := c.pending ++ chunk }
      pure true

end Console

end ProcessDrill
