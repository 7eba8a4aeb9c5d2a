import ProcessDrill.Config
import ProcessDrill.Console.Token
import ProcessDrill.Drill.Request
import ProcessDrill.Exercise
import ProcessDrill.Random.Draw
/-!
# A drill

A drill shows the menu, reads a selection, goes through the chosen exercise, and halts the machine.

* `Bench σ` is what drills share: the console and the random words that are left.
* `Drill.prepare` brings an exercise to the point of its request: it draws or asks for the argument.
* `Drill.run` is one drill. A bad answer is reported and the machine is still halted; only a
  console that fails ends a drill early.
* `Drill.series` is a number of drills on one bench, each beginning where the last one stopped.
-/

namespace ProcessDrill

set_option autoImplicit false

/-- What is carried from one drill to the next. -/
structure Bench (σ : Type) where
  console : Console σ
  words : List UInt32
  deriving DecidableEq, Repr

abbrev Drill (σ α : Type) : Type :=
  EStateM Stop (Bench σ) α

inductive Termination where
  | halted (exercise : Exercise)
  | haltRefused (exercise : Exercise) (e : Errno)
  | noSelection
  deriving DecidableEq, Repr

def Termination.text : Termination → String
  | halted x => "Halted \x7b selection: " ++ x.name ++ " \x7d"
  | haltRefused x e =>
    "HaltRefused \x7b selection: " ++ x.name ++ ", error: Os(" ++ e.name ++ ") \x7d"
  | noSelection => "NoSelection"

namespace Drill

variable {σ : Type}

/-! ## The bench -/

def atConsole {α : Type} (session : Session σ α) : Drill σ α := fun bench =>
  match session bench.console with
  | .ok a c => .ok a { bench with console := c }
  | .error stop c => .error stop { bench with console := c }

instance : MonadLift (EStateM Stop (Console σ)) (EStateM Stop (Bench σ)) where
  monadLift := atConsole

def draw (bound : UInt32) : Drill σ UInt32 := fun bench =>
  if bound = 0 then .error (.fault .emptyRange) bench
  else
    match Random.draw? bound bench.words with
    | some (value, words) => .ok value { bench with words }
    | none => .error .outOfWords { bench with words := [] }

/-! ## The course of a drill -/

def menuLine (x : Exercise) : String :=
  Text.signed x.number.toInt ++ ".  " ++ x.title

def showMenu (host : Host σ) : Session σ Unit :=
  Exercise.menu.forM fun x => Console.printLine host (menuLine x)

def readSelection (host : Host σ) : Session σ (Option Exercise) := do
  match ← Console.readInt host with
  | .error e =>
    Console.log host .warn .drill ("no usable selection: " ++ e.message)
    pure none
  | .ok choice =>
    match Exercise.ofNumber? choice with
    | some x => pure (some x)
    | none =>
      Console.log host .warn .drill
        ("selection " ++ Text.signed choice.toInt ++ " is not on the menu")
      pure none

def openingLine : Exercise → Option String
  | .missingFile => none
  | .nullArguments => some "Enter the name of a program that DOES exist."
  | .execFailure => some "I'm not actually sure how to cause an execution error. Sorry."
  | .strangerJoin =>
    some "I'm hoping that the rand method will return the PID of a non-child process."
  | .runProgram => some "Enter the name of a program that DOES exist."
  | .joinChild => some "Enter the pid of a program that IS a parent."
  | .exitProcess => some "Enter the exit status for this process."

def printOpening (host : Host σ) (x : Exercise) : Session σ Unit :=
  match openingLine x with
  | some line => Console.printLine host line
  | none => pure ()

def fileName (value : UInt32) : List UInt8 :=
  Utf8.encode (Text.decimal value.toNat)

/-- Brings an exercise to its request: draws what is random before anything is printed, prints the
line, and reads the answer where one is asked for. -/
def prepare (host : Host σ) (config : Config) (x : Exercise) :
    Drill σ (Except InputError (Option Request)) := do
  match x with
  | .missingFile =>
    let value ← draw config.fileNameBound
    pure (.ok (some (.exec (fileName value) .empty)))
  | .nullArguments =>
    printOpening host x
    let name ← Console.readName host config.nameCapacity
    pure (name.map fun name => some (.exec name (.null 1)))
  | .execFailure =>
    printOpening host x
    pure (.ok none)
  | .strangerJoin =>
    let value ← draw config.pidBound
    printOpening host x
    pure (.ok (some (.join ⟨value.toUInt64⟩)))
  | .runProgram =>
    printOpening host x
    let name ← Console.readName host config.nameCapacity
    pure (name.map fun name => some (.exec name .empty))
  | .joinChild =>
    printOpening host x
    let n ← Console.readInt host
    pure (n.map fun n => some (.join (.ofInt32 n)))
  | .exitProcess =>
    printOpening host x
    let n ← Console.readInt host
    pure (n.map fun n => some (.exit n))

/-- Goes through an exercise. A bad answer is noted in the log and on the console. -/
def exercise (host : Host σ) (config : Config) (x : Exercise) : Drill σ Unit := do
  match ← prepare host config x with
  | .ok (some request) => request.perform host
  | .ok none => pure ()
  | .error e =>
    Console.log host .warn .drill
      ("test case " ++ Text.signed x.number.toInt ++ " aborted: " ++ e.message)
    Console.printLine host ("error: " ++ e.message)

def halt (host : Host σ) (x : Exercise) : Session σ Termination := do
  Console.log host .debug .drill "halt()"
  match ← Console.ask host .halt with
  | .ok () => pure (.halted x)
  | .error e =>
    Console.log host .warn .drill ("halt refused: " ++ e.name)
    Console.printLine host ("halt() refused: " ++ e.name)
    pure (.haltRefused x e)

def run (host : Host σ) (config : Config) : Drill σ Termination := do
  showMenu host
  match ← readSelection host with
  | none => pure .noSelection
  | some x =>
    Console.log host .info .drill ("test case " ++ Text.signed x.number.toInt ++ ": " ++ x.title)
    exercise host config x
    halt host x

/-- A number of drills on one bench, each with its result and the bench it leaves behind. -/
def series (host : Host σ) (config : Config) :
    Nat → Bench σ → List (EStateM.Result Stop (Bench σ) Termination)
  | 0, _ => []
  | n + 1, bench =>
    match EStateM.run (run host config) bench with
    | .ok termination next => .ok termination next :: series host config n next
    | .error stop next => .error stop next :: series host config n next

end Drill

def Bench.new {σ : Type} (machine : σ) (words : List UInt32) (config : Config) :
    Except Failure (Bench σ) := do
  config.check
  pure { console := { machine }, words }

end ProcessDrill
