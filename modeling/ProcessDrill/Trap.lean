import ProcessDrill.Buffer
import ProcessDrill.Host
/-!
# Traps

* `Service` lists what the kernel offers, with the numbers by which it is asked for.
* `Trap` is one entry into the kernel with all that the kernel is shown: numbers, and the memory that
  pointers lead to. `Trap.frame` is the same entry as it stands in the registers.
* `TrapHandler σ` is any kernel with states `σ`; it answers with raw words.
* The functions of namespace `Syscall` make one trap each and read its answer.
-/

namespace ProcessDrill

set_option autoImplicit false

/-! ## Entering the kernel -/

inductive Service where
  | halt | exit | exec | join | create | openFile | read | write | close | unlink
  deriving DecidableEq, Repr

namespace Service

def all : List Service :=
  [halt, exit, exec, join, create, openFile, read, write, close, unlink]

def number : Service → UInt64
  | halt => 0
  | exit => 1
  | exec => 2
  | join => 3
  | create => 4
  | openFile => 5
  | read => 6
  | write => 7
  | close => 8
  | unlink => 9

end Service

def standardInput : UInt64 := 0

def standardOutput : UInt64 := 1

structure Frame where
  number : UInt64
  arguments : List UInt64
  deriving DecidableEq, Repr

def Frame.registers (frame : Frame) : List UInt64 :=
  frame.number :: frame.arguments

inductive Trap where
  | halt
  | exit (status : Int64)
  /-- A pointer to a terminated path, a count of arguments, and a pointer to their vector, which is
  none if it is null. -/
  | exec (path : List UInt8) (argc : UInt64) (argv : Option (List (List UInt8)))
  /-- A pointer to a status word, which holds `word`. -/
  | join (pid : UInt64) (word : Int32)
  /-- A pointer to a buffer that may be written. -/
  | read (descriptor : UInt64) (buffer : List UInt8)
  | write (descriptor : UInt64) (bytes : List UInt8)
  deriving DecidableEq, Repr

namespace Trap

def service : Trap → Service
  | halt => .halt
  | exit _ => .exit
  | exec _ _ _ => .exec
  | join _ _ => .join
  | read _ _ => .read
  | write _ _ => .write

/-- The registers, when the memory that the first pointer leads to stands at `address` and an
argument vector at `vector`. -/
def frame (address vector : UInt64) (trap : Trap) : Frame where
  number := trap.service.number
  arguments :=
    match trap with
    | halt => []
    | exit status => [status.toUInt64]
    | exec _ argc argv => [address, argc, if argv.isSome then vector else 0]
    | join pid _ => [pid, address]
    | read descriptor buffer => [descriptor, address, buffer.length.toUInt64]
    | write descriptor bytes => [descriptor, address, bytes.length.toUInt64]

end Trap

/-- What a trap leaves behind: a raw return, bytes at the front of a read's buffer, and a new value
of a join's status word. -/
structure Reply where
  ret : Int64
  stored : List UInt8 := []
  status : Option Int32 := none
  deriving DecidableEq, Repr

structure TrapHandler (σ : Type) where
  handle : Trap → σ → Option Reply × σ
  log : Log.Record → σ → σ
  patience : σ → Nat

/-! ## System calls -/

namespace Syscall

variable {σ : Type}

def enter {α : Type} (kernel : TrapHandler σ) (trap : Trap) (decode : Reply → α) (s : σ) :
    Option α × σ :=
  let (reply, t) := kernel.handle trap s
  (reply.map decode, t)

/-- Stops the machine. A kernel that comes back has refused, whatever it returned. -/
def halt (kernel : TrapHandler σ) : σ → Option Errno × σ :=
  enter kernel .halt fun reply =>
    match Errno.ofReturn reply.ret with
    | .ok _ => .eperm
    | .error e => e

/-- Ends the process. What a kernel returns that only notes the status is handed on. -/
def exit (kernel : TrapHandler σ) (status : Int32) : σ → Option Int64 × σ :=
  enter kernel (.exit status.toInt64) (·.ret)

def execRaw (kernel : TrapHandler σ) (path : List UInt8) (argc : UInt64)
    (argv : Option (List (List UInt8))) : σ → Option (Except Errno Pid) × σ :=
  enter kernel (.exec path argc argv) fun reply => (Errno.ofReturn reply.ret).map Pid.mk

def exec (kernel : TrapHandler σ) (path : List UInt8) : σ → Option (Except Errno Pid) × σ :=
  execRaw kernel (path ++ [0]) 0 (some [])

/-- Waits for a child. The status word is zero unless the kernel stores another value, and the child
ended of itself exactly when the kernel returns one. -/
def join (kernel : TrapHandler σ) (pid : Pid) : σ → Option (Except Errno Joined) × σ :=
  enter kernel (.join pid.raw 0) fun reply =>
    (Errno.ofReturn reply.ret).map fun kind => ⟨reply.status.getD 0, kind == 1⟩

def read (kernel : TrapHandler σ) (descriptor : UInt64) (buffer : List UInt8) :
    σ → Option (Except Errno Nat × List UInt8) × σ :=
  enter kernel (.read descriptor buffer) fun reply =>
    ((Errno.ofReturn reply.ret).map UInt64.toNat, reply.stored)

def write (kernel : TrapHandler σ) (descriptor : UInt64) (bytes : List UInt8) :
    σ → Option (Except Errno Nat) × σ :=
  enter kernel (.write descriptor bytes) fun reply => (Errno.ofReturn reply.ret).map UInt64.toNat

end Syscall

/-! ## The machine behind the traps -/

/-- The machine that a drill sees through traps. A name with a zero byte in it has no terminated
form, so it is refused without a trap. A halt that comes back is a refusal. -/
def TrapHandler.host {σ : Type} (kernel : TrapHandler σ) : Host σ where
  answer
    | .exec name argv =>
      if name.contains 0 then fun s => (some (.error .einval), s)
      else
        match argv with
        | .empty => Syscall.exec kernel name
        | .null count => Syscall.execRaw kernel (name ++ [0]) count none
    | .join pid => Syscall.join kernel pid
    | .exit status => Syscall.exit kernel status
    | .halt => fun s =>
      let (refusal, t) := Syscall.halt kernel s
      (refusal.map .error, t)
    | .read buffer => Syscall.read kernel standardInput buffer
    | .write bytes => Syscall.write kernel standardOutput bytes
  log := kernel.log
  patience := kernel.patience

end ProcessDrill
