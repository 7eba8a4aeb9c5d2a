import ProcessDrill.CommandLine.Program
import ProcessDrill.Machine
/-!
# The program at a terminal

A machine without processes stands behind the traps: programs cannot be started and children cannot be
waited for, an exit ends the process, and a halt ends it too. Whenever the program waits for input, a
further piece is read and the program is run again on all pieces so far; what it had printed before it
prints again in the same way, so only what is new is shown.
-/

namespace ProcessDrill.Terminal

set_option autoImplicit false

def machine (input : List Delivery) : Machine where
  reads := input
  execs := [-Errno.enosys.number]
  joins := [(-Errno.enosys.number, none)]
  exits := some .ends
  halts := .ends

def kernel : TrapHandler Machine :=
  { Machine.kernel with
    handle := fun trap m =>
      match trap, m.reads with
      | .read _ _, [] => (none, m)
      | _, _ => Machine.kernel.handle trap m }

def display (entries : List Entry) : IO Unit := do
  for entry in entries do
    match entry with
    | .out bytes =>
      let out ← IO.getStdout
      out.write (ByteArray.mk bytes.toArray)
      out.flush
    | .log record =>
      IO.eprintln ("[" ++ record.level.name ++ " " ++ record.source.name ++ "] " ++ record.message)
    | _ => pure ()

/-- Runs the program on the input so far, and again with more while it waits. -/
partial def converse (program : Machine → CommandLine.Outcome Machine) (input : List Delivery)
    (shown : Nat) : IO UInt32 := do
  let outcome := program (machine input)
  let journal := outcome.machine.journal
  display (journal.drop shown)
  if let some line := outcome.output then IO.println line
  if let some line := outcome.complaint then IO.eprintln line
  match outcome.code <|> outcome.machine.exitCode? with
  | some code => pure code.toUInt32
  | none =>
    let piece ← (← IO.getStdin).read 4096
    converse program (input ++ [.bytes piece.toList]) journal.length

end ProcessDrill.Terminal

open ProcessDrill in
def main (arguments : List String) : IO UInt32 := do
  let clock := (← IO.monoMsNow) / 1000
  let directives ← IO.getEnv "RUST_LOG"
  Terminal.converse
    (CommandLine.Program.run Terminal.kernel clock.toUInt64 directives arguments) [] 0
