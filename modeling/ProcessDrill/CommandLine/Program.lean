import ProcessDrill.CommandLine.LogFilter
import ProcessDrill.CommandLine.Options
import ProcessDrill.Drill
import ProcessDrill.Random.ChaCha
import ProcessDrill.Trap
/-!
# The program

`Program.run` reads the arguments and, if they ask for a drill, makes one drill through traps with the
random words of the seed. Its exit code is zero after a drill, whatever the drill found; one when the
console failed; two when the arguments or the configuration are refused.
-/

namespace ProcessDrill.CommandLine

set_option autoImplicit false

structure Outcome (σ : Type) where
  /-- The exit code; none if the drill was cut short by a call that did not return. -/
  code : Option UInt8
  output : Option String := none
  complaint : Option String := none
  machine : σ

/-- A kernel that is handed only those log records that a filter allows. -/
def LogFilter.apply {σ : Type} (filter : LogFilter) (kernel : TrapHandler σ) : TrapHandler σ :=
  { kernel with
    log := fun record s => if filter.allows record then kernel.log record s else s }

namespace Program

variable {σ : Type}

def summary : String :=
  "Exercise the exec/join/exit/halt syscalls"

def version : String :=
  "proctest 0.1.0"

def firstLine (text : String) : String :=
  let line := text.toList.takeWhile (· != '\n')
  let ended := line.length < text.toList.length
  String.ofList (if ended && line.getLast? == some '\r' then line.dropLast else line)

def threshold : Nat → Threshold
  | 0 => some .warn
  | 1 => some .info
  | 2 => some .debug
  | _ => some .trace

def logFilter (settings : Settings) (directives : Option String) : LogFilter :=
  ({ usual := threshold settings.verbosity } : LogFilter).extend (directives.getD "")

/-- How many blocks of random words are at hand for a drill, which draws at most once. -/
def blocks : Nat := 64

def log (kernel : TrapHandler σ) (level : Log.Level) (message : String) (s : σ) : σ :=
  kernel.log ⟨level, .program, message⟩ s

def drill (kernel : TrapHandler σ) (seed : UInt64) (config : Config) (s : σ) : Outcome σ :=
  let s := log kernel .info ("rng seed " ++ Text.decimal seed.toNat) s
  match Bench.new s (Random.ChaCha.words seed blocks) config with
  | .error e =>
    { code := some 2, machine := log kernel .error e.message s }
  | .ok bench =>
    match EStateM.run (Drill.run kernel.host config) bench with
    | .ok termination bench =>
      { code := some 0, machine := log kernel .debug termination.text bench.console.machine }
    | .error (.console e) bench =>
      { code := some 1
        machine := log kernel .error (Failure.console e).message bench.console.machine }
    | .error _ bench =>
      { code := none, machine := bench.console.machine }

/-- The whole program. The clock stands in for a seed that is not given. -/
def run (kernel : TrapHandler σ) (clock : UInt64) (directives : Option String)
    (arguments : List String) (s : σ) : Outcome σ :=
  match parse arguments with
  | .error (.complaint c) => { code := some 2, complaint := some (firstLine c.message), machine := s }
  | .error .help => { code := some 0, output := some summary, machine := s }
  | .error .version => { code := some 0, output := some version, machine := s }
  | .ok settings =>
    drill ((logFilter settings directives).apply kernel) (settings.seed.getD clock)
      settings.config s

end Program

end ProcessDrill.CommandLine
