import ProcessDrill.Trap
/-!
# A scripted machine

A machine that answers from queues and keeps a journal of what it was asked and what came of it.

* `Machine.read`, `Machine.write` and the others are its single services, with raw answers.
* `Machine.kernel` offers them behind traps, `Machine.direct` answers the calls of a drill itself. The
  two differ where traps lose something: behind traps a halt that comes back is a refusal, and a name
  with a zero byte never arrives.
* `Entry.merge` joins neighbouring pieces of output.
-/

namespace ProcessDrill

set_option autoImplicit false

/-! ## Scripts -/

inductive Delivery where
  | bytes (data : List UInt8)
  /-- One read that stores `data` as far as it fits and returns `ret` whatever it stored. -/
  | raw (data : List UInt8) (ret : Int64)
  deriving DecidableEq, Repr

inductive Acceptance where
  | all
  /-- Returns `ret` and takes as much as that says. -/
  | raw (ret : Int64)
  deriving DecidableEq, Repr

inductive Farewell where
  | returns (ret : Int64)
  | ends
  deriving DecidableEq, Repr

inductive Entry where
  | out (bytes : List UInt8)
  | write (ret : Int64)
  | read (ret : Int64)
  | exec (path : List UInt8) (argc : UInt64) (hasVector : Bool)
  | join (pid : UInt64)
  | exit (status : Int64)
  | halt
  /-- A read or write that is about to use another descriptor than it should. -/
  | descriptor (number : UInt64)
  | log (record : Log.Record)
  | exited
  | halted
  deriving DecidableEq, Repr

structure Machine where
  reads : List Delivery := []
  writes : List Acceptance := []
  writeMax : Option Nat := none
  execs : List Int64 := []
  joins : List (Int64 × Option Int32) := []
  exits : Option Farewell := none
  halts : Farewell := .returns (-1)
  journal : List Entry := []
  traps : Nat := 0
  deriving DecidableEq, Repr

namespace Machine

/-! ## Services -/

def note (m : Machine) (entries : List Entry) : Machine :=
  { m with journal := m.journal ++ entries }

def remark (expected descriptor : UInt64) : List Entry :=
  if descriptor = expected then [] else [.descriptor descriptor]

def exec (path : List UInt8) (argc : UInt64) (hasVector : Bool) (m : Machine) : Int64 × Machine :=
  (m.execs.headD (-2),
    { m with execs := m.execs.tail }.note [.exec path argc hasVector])

def join (pid : UInt64) (m : Machine) : (Int64 × Option Int32) × Machine :=
  (m.joins.headD (-1, none), { m with joins := m.joins.tail }.note [.join pid])

def exit (status : Int64) (m : Machine) : Option Int64 × Machine :=
  match m.exits with
  | none => (some status, m.note [.exit status])
  | some (.returns ret) => (some ret, m.note [.exit status])
  | some .ends => (none, m.note [.exit status, .exited])

def halt (m : Machine) : Option Int64 × Machine :=
  match m.halts with
  | .returns ret => (some ret, m.note [.halt])
  | .ends => (none, m.note [.halt, .halted])

/-- The return of a read into a buffer of this size, what it stores, and the deliveries that are
left. -/
def deliver (size : Nat) : List Delivery → Int64 × List UInt8 × List Delivery
  | [] => (0, [], [])
  | .raw data ret :: rest => (ret, data.take size, rest)
  | .bytes data :: rest =>
    if data.length ≤ size then (Int64.ofNat data.length, data, rest)
    else (Int64.ofNat size, data.take size, .bytes (data.drop size) :: rest)

def read (descriptor : UInt64) (size : Nat) (m : Machine) : (Int64 × List UInt8) × Machine :=
  let (ret, stored, reads) := deliver size m.reads
  let entries := remark standardInput descriptor ++ [Entry.read ret]
  ((ret, stored), { m with reads }.note entries)

def acceptance (m : Machine) (bytes : List UInt8) : Int64 :=
  match m.writes with
  | .raw ret :: _ => ret
  | _ => Int64.ofNat ((m.writeMax.getD bytes.length).min bytes.length)

/-- Takes output, as many bytes as the return says. The journal has nothing on a write that returns a
count and offered nothing. -/
def write (descriptor : UInt64) (bytes : List UInt8) (m : Machine) : Int64 × Machine :=
  let ret := m.acceptance bytes
  let outcome :=
    if ret ≤ 0 then [Entry.write ret]
    else if bytes.isEmpty then []
    else [Entry.out (bytes.take ret.toNatClampNeg)]
  let entries := remark standardOutput descriptor ++ outcome
  (ret, { m with writes := m.writes.tail }.note entries)

/-- How many reads it takes at most until the script delivers nothing more, the one that finds that
out included. -/
def readsLeft (m : Machine) : Nat :=
  (m.reads.map fun
    | .bytes data => data.length / 64 + 1
    | .raw _ _ => 1).foldr (· + ·) 1

/-! ## Behind traps -/

def pathName (path : List UInt8) : List UInt8 :=
  path.takeWhile (· != 0)

def handle (trap : Trap) (m : Machine) : Option Reply × Machine :=
  match trap with
  | .halt =>
    let (ret, m) := m.halt
    (ret.map fun ret => ⟨ret, [], none⟩, m)
  | .exit status =>
    let (ret, m) := m.exit status
    (ret.map fun ret => ⟨ret, [], none⟩, m)
  | .exec path argc argv =>
    let (ret, m) := m.exec (pathName path) argc argv.isSome
    (some ⟨ret, [], none⟩, m)
  | .join pid _ =>
    let ((ret, status), m) := m.join pid
    (some ⟨ret, [], status⟩, m)
  | .read descriptor buffer =>
    let ((ret, stored), m) := m.read descriptor buffer.length
    (some ⟨ret, stored, none⟩, m)
  | .write descriptor bytes =>
    let (ret, m) := m.write descriptor bytes
    (some ⟨ret, [], none⟩, m)

def kernel : TrapHandler Machine where
  handle trap m := handle trap { m with traps := m.traps + 1 }
  log record m := m.note [.log record]
  patience := readsLeft

/-- A trap with registers of the caller's choice: what it returns, and the registers the machine saw.
The machine only counts it. -/
def probe (frame : Frame) (ret : UInt64) (m : Machine) : (UInt64 × List UInt64) × Machine :=
  ((ret, frame.registers), { m with traps := m.traps + 1 })

/-! ## Without traps -/

def direct : Host Machine where
  answer
    | .exec name argv => fun m =>
      let (ret, m) := m.exec name argv.count (argv == .empty)
      (some ((Errno.ofReturn ret).map Pid.mk), m)
    | .join pid => fun m =>
      let ((ret, status), m) := m.join pid.raw
      (some ((Errno.ofReturn ret).map fun kind => ⟨status.getD 0, kind == 1⟩), m)
    | .exit status => fun m => m.exit status.toInt64
    | .halt => fun m =>
      let (ret, m) := m.halt
      (ret.map fun ret => (Errno.ofReturn ret).map fun _ => (), m)
    | .read buffer => fun m =>
      let ((ret, stored), m) := m.read standardInput buffer.length
      (some ((Errno.ofReturn ret).map UInt64.toNat, stored), m)
    | .write bytes => fun m =>
      let (ret, m) := m.write standardOutput bytes
      (some ((Errno.ofReturn ret).map UInt64.toNat), m)
  log record m := m.note [.log record]
  patience := readsLeft

def feed (m : Machine) (delivery : Delivery) : Machine :=
  { m with reads := m.reads ++ [delivery] }

/-- The exit code of a caller that the machine has ended: the low byte of the status it gave, or zero
if the machine was halted. -/
def exitCode? (m : Machine) : Option UInt8 :=
  match m.journal.reverse with
  | .exited :: .exit status :: _ => some status.toUInt64.toUInt8
  | .halted :: _ => some 0
  | _ => none

end Machine

/-! ## Journals -/

def Entry.record? : Entry → Option Log.Record
  | log record => some record
  | _ => none

def Entry.merge : List Entry → List Entry
  | [] => []
  | .out bytes :: rest =>
    match merge rest with
    | .out more :: rest => .out (bytes ++ more) :: rest
    | rest => .out bytes :: rest
  | entry :: rest => entry :: merge rest

end ProcessDrill
