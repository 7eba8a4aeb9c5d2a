import ProcessDrill.Proofs.Plan.Parts
/-!
# The plan of a drill

Each part of a drill is a plan of its own, and following the plan is that part. Main statements:
* `follow_drill`, following `Plan.drill config` is `Drill.run`;
* `Drill.run_ok` and `Drill.run_error`, what a drill does, with `Drill.trace`, the record of it.
-/

namespace ProcessDrill

set_option autoImplicit false

variable {σ α β : Type}

namespace Plan

/-! ## The console -/

def token (limit : Nat) : Plan (Except InputError Token) :=
  single (.token limit)

def ask (call : Call) (process : call.isProcess = true) : Plan call.Answer :=
  single (.ask call process)

def log (level : Log.Level) (source : Log.Source) (message : String) : Plan Unit :=
  single (.log ⟨level, source, message⟩)

def draw (bound : UInt32) : Plan UInt32 :=
  single (.draw bound)

def print (text : String) : Plan Unit :=
  single (.write (Utf8.encode text))

def printLine (text : String) : Plan Unit := do
  print text
  print "\n"

def printLines : List String → Plan Unit
  | [] => pure ()
  | line :: lines => do
    printLine line
    printLines lines

def readInt : Plan (Except InputError Int32) := do
  return Token.asInt (← token Console.maxIntToken)

def readName (capacity : Nat) : Plan (Except InputError (List UInt8)) := do
  return Token.asName capacity (← token capacity)

section

variable (host : Host σ)

theorem follow_token (limit : Nat) :
    (token limit).follow host = Drill.atConsole (Console.readToken host limit) :=
  follow_single host _

theorem follow_ask (call : Call) (process : call.isProcess = true) :
    (ask call process).follow host = Drill.atConsole (Console.ask host call) :=
  follow_single host _

theorem follow_draw (bound : UInt32) : (draw bound).follow host = Drill.draw bound :=
  follow_single host _

theorem follow_print (text : String) :
    (print text).follow host = Drill.atConsole (Console.print host text) :=
  follow_single host _

theorem follow_log (level : Log.Level) (source : Log.Source) (message : String) :
    (log level source message).follow host =
      Drill.atConsole (Console.log host level source message) :=
  follow_single host _

theorem follow_printLine (text : String) :
    (printLine text).follow host = Drill.atConsole (Console.printLine host text) := by
  rw [printLine, follow_bind, Console.printLine, Drill.atConsole_bind]
  simp only [follow_print]

theorem follow_readInt :
    readInt.follow host = Drill.atConsole (Console.readInt host) := by
  rw [readInt, follow_bind, Console.readInt_eq, Drill.atConsole_bind, follow_token]
  rfl

theorem follow_readName (capacity : Nat) :
    (readName capacity).follow host = Drill.atConsole (Console.readName host capacity) := by
  rw [readName, follow_bind, Console.readName_eq, Drill.atConsole_bind, follow_token]
  rfl

theorem follow_printLines {ι : Type} (line : ι → String) (items : List ι) :
    (printLines (items.map line)).follow host =
      Drill.atConsole (items.forM fun item => Console.printLine host (line item)) := by
  induction items with
  | nil => rfl
  | cons item items ih =>
    rw [List.map_cons, printLines, follow_bind, follow_printLine, ih]
    exact (Drill.atConsole_bind _ _).symm

end

/-! ## The course of a drill -/

def selection : Plan (Option Exercise) := do
  match ← readInt with
  | .error e =>
    log .warn .drill ("no usable selection: " ++ e.message)
    pure none
  | .ok choice =>
    match Exercise.ofNumber? choice with
    | some x => pure (some x)
    | none =>
      log .warn .drill ("selection " ++ Text.signed choice.toInt ++ " is not on the menu")
      pure none

def opening (x : Exercise) : Plan Unit :=
  printLines (Drill.openingLine x).toList

/-- An exercise up to its request. -/
def prepare (config : Config) (x : Exercise) : Plan (Except InputError (Option Request)) := do
  match x with
  | .missingFile =>
    let value ← draw config.fileNameBound
    pure (.ok (some (.exec (Drill.fileName value) .empty)))
  | .nullArguments =>
    opening x
    let name ← readName config.nameCapacity
    pure (name.map fun name => some (.exec name (.null 1)))
  | .execFailure =>
    opening x
    pure (.ok none)
  | .strangerJoin =>
    let value ← draw config.pidBound
    opening x
    pure (.ok (some (.join ⟨value.toUInt64⟩)))
  | .runProgram =>
    opening x
    let name ← readName config.nameCapacity
    pure (name.map fun name => some (.exec name .empty))
  | .joinChild =>
    opening x
    let n ← readInt
    pure (n.map fun n => some (.join (.ofInt32 n)))
  | .exitProcess =>
    opening x
    let n ← readInt
    pure (n.map fun n => some (.exit n))

theorem isProcess_call (request : Request) : request.call.isProcess = true := by
  cases request <;> rfl

def request (request : Request) : Plan Unit := do
  log .debug .exercise request.announcement
  let answer ← ask request.call (isProcess_call request)
  log .info .exercise (request.finding answer)
  printLine (request.report answer)

/-- What becomes of an exercise that was brought to its request. -/
def settle (x : Exercise) : Except InputError (Option Request) → Plan Unit
  | .ok (some r) => request r
  | .ok none => pure ()
  | .error e => do
    log .warn .drill ("test case " ++ Text.signed x.number.toInt ++ " aborted: " ++ e.message)
    printLine ("error: " ++ e.message)

def halt (x : Exercise) : Plan Termination := do
  log .debug .drill "halt()"
  match ← ask .halt rfl with
  | .ok () => pure (.halted x)
  | .error e =>
    log .warn .drill ("halt refused: " ++ e.name)
    printLine ("halt() refused: " ++ e.name)
    pure (.haltRefused x e)

def chosen (config : Config) (x : Exercise) : Plan Termination := do
  log .info .drill ("test case " ++ Text.signed x.number.toInt ++ ": " ++ x.title)
  settle x (← prepare config x)
  halt x

def drill (config : Config) : Plan Termination := do
  printLines (Exercise.menu.map Drill.menuLine)
  match ← selection with
  | none => pure .noSelection
  | some x => chosen config x

/-! ## Following it -/

section

variable (host : Host σ) (config : Config) (x : Exercise)

theorem follow_selection :
    selection.follow host = Drill.atConsole (Drill.readSelection host) := by
  rw [selection, follow_bind, follow_readInt, Drill.readSelection, Drill.atConsole_bind]
  congr 1
  funext result
  cases result with
  | error e =>
    rw [follow_bind, follow_log, Drill.atConsole_bind]
    rfl
  | ok choice =>
    dsimp only
    cases Exercise.ofNumber? choice with
    | some x => rfl
    | none =>
      dsimp only
      rw [follow_bind, follow_log, Drill.atConsole_bind]
      rfl

theorem follow_opening :
    (opening x).follow host = Drill.atConsole (Drill.printOpening host x) := by
  rw [opening, Drill.printOpening]
  cases Drill.openingLine x with
  | none => rfl
  | some line =>
    show (printLine line >>= fun _ => Pure.pure ()).follow host = _
    rw [follow_bind, follow_printLine]
    exact bind_pure _

theorem follow_prepare : (prepare config x).follow host = Drill.prepare host config x := by
  cases x <;>
    simp only [prepare, Drill.prepare, follow_bind, follow_opening, follow_readName, follow_readInt,
      follow_draw] <;> rfl

theorem follow_request (r : Request) :
    (request r).follow host = Drill.atConsole (r.perform host) := by
  rw [request, Request.perform]
  simp only [follow_bind, follow_log, follow_ask, follow_printLine, Drill.atConsole_bind]

theorem follow_exercise :
    (prepare config x >>= settle x).follow host = Drill.exercise host config x := by
  rw [follow_bind, follow_prepare, Drill.exercise]
  congr 1
  funext result
  match result with
  | .ok (some r) => exact follow_request host r
  | .ok none => rfl
  | .error e =>
    rw [settle, follow_bind, follow_log]
    simp only [follow_printLine]
    rfl

theorem follow_halt : (halt x).follow host = Drill.atConsole (Drill.halt host x) := by
  have asked := follow_ask host .halt rfl
  rw [halt, Drill.halt]
  simp only [follow_bind, follow_log, asked, Drill.atConsole_bind]
  congr 1
  funext _
  congr 1
  funext answer
  cases answer with
  | ok done => rfl
  | error e =>
    simp only [follow_bind, follow_log, follow_printLine, Drill.atConsole_bind]
    rfl

theorem follow_drill : (drill config).follow host = Drill.run host config := by
  rw [drill, Drill.run, follow_bind, follow_printLines]
  congr 1
  funext _
  rw [follow_bind, follow_selection]
  congr 1
  funext selected
  match selected with
  | none => rfl
  | some x =>
    have exercise := follow_exercise host config x
    rw [follow_bind] at exercise
    simp only [chosen, follow_bind, follow_log, follow_halt, ← exercise, bind_assoc]
    rfl

end

end Plan

/-! ## The trace of a drill -/

namespace Drill

variable {host : Host σ} {config : Config} {bench after : Bench σ}

/-- All that happens between a drill and its machine, in order. -/
def trace (host : Host σ) (config : Config) (bench : Bench σ) : List Event :=
  match run host.recorded config bench.recorded with
  | .ok _ last => last.record
  | .error _ last => last.record

theorem run_recorded (host : Host σ) (config : Config) (bench : Bench σ) :
    Alike (Bench.Related fun s t => s.1 = t) (run host.recorded config bench.recorded)
      (run host config bench) := by
  rw [← Plan.follow_drill, ← Plan.follow_drill]
  exact (Plan.drill config).agree_follow (simulates_recorded host) _ _ ⟨⟨rfl, rfl, rfl⟩, rfl⟩

theorem trace_eq (host : Host σ) (config : Config) (bench : Bench σ) :
    trace host config bench = (Plan.drill config).trace host bench := by
  rw [trace, Plan.trace, Plan.follow_drill]
  cases run host.recorded config bench.recorded <;> rfl

theorem run_ok {t : Termination} (h : run host config bench = .ok t after) :
    (Plan.drill config).Along Step.Happens bench.stock (trace host config bench) t after.stock := by
  rw [trace_eq]
  rw [← Plan.follow_drill] at h
  exact Plan.happens_of_follow h

theorem run_error {stop : Stop} (h : run host config bench = .error stop after) :
    (Plan.drill config).Breaks host bench.stock (trace host config bench) stop after.stock := by
  rw [trace_eq]
  rw [← Plan.follow_drill] at h
  exact Plan.breaks_of_follow h

end Drill

end ProcessDrill
