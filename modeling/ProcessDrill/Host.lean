import ProcessDrill.Log
import ProcessDrill.Pid
import ProcessDrill.Errno
/-!
# The host

* `Call` is what a drill may ask of the machine it runs on, `Call.Answer` what it is told.
* `Host σ` is any machine with states `σ`: how it answers each call, and what a log record does to
  it. Nothing is assumed of the answers.
* `Host.recorded` is the same machine, keeping beside its state every call with its answer and every
  log record, in order.
-/

namespace ProcessDrill

set_option autoImplicit false

inductive Argv where
  | empty
  /-- A claim of `count` arguments, and no vector. -/
  | null (count : UInt64)
  deriving DecidableEq, Repr

def Argv.count : Argv → UInt64
  | empty => 0
  | null count => count

inductive Call where
  | exec (name : List UInt8) (argv : Argv)
  | join (pid : Pid)
  | exit (status : Int32)
  | halt
  | read (buffer : List UInt8)
  | write (bytes : List UInt8)
  deriving DecidableEq, Repr

/-- What a call is answered with. A read tells its count or error, and what it put at the front of
the buffer; the two need not agree. An exit that comes back hands over any word. -/
abbrev Call.Answer : Call → Type
  | exec _ _ => Except Errno Pid
  | join _ => Except Errno Joined
  | exit _ => Int64
  | halt => Except Errno Unit
  | read _ => Except Errno Nat × List UInt8
  | write _ => Except Errno Nat

structure Host (σ : Type) where
  /-- The answer to a call, or none if the call never returns. -/
  answer : (call : Call) → σ → Option call.Answer × σ
  log : Log.Record → σ → σ
  /-- How many reads a session in this state waits for before it gives up on a token. -/
  patience : σ → Nat

/-! ## Recording -/

/-- One thing that happened between a session and its machine. -/
inductive Event where
  | answered (call : Call) (answer : call.Answer)
  | unanswered (call : Call)
  | logged (record : Log.Record)

def Host.recorded {σ : Type} (host : Host σ) : Host (σ × List Event) where
  answer call := fun (s, past) =>
    match host.answer call s with
    | (some a, t) => (some a, t, past ++ [.answered call a])
    | (none, t) => (none, t, past ++ [.unanswered call])
  log record := fun (s, past) => (host.log record s, past ++ [.logged record])
  patience := fun (s, _) => host.patience s

namespace Host

variable {σ : Type} {host : Host σ} {call : Call} {s : σ}

theorem recorded_answer_some {a : call.Answer}
    (h : (host.answer call s).1 = some a) (past : List Event) :
    host.recorded.answer call (s, past) =
      (some a, (host.answer call s).2, past ++ [.answered call a]) := by
  simp only [recorded]
  generalize host.answer call s = answer at h
  obtain ⟨_, t⟩ := answer
  obtain rfl : _ = some a := h
  rfl

theorem recorded_answer_none (h : (host.answer call s).1 = none) (past : List Event) :
    host.recorded.answer call (s, past) =
      (none, (host.answer call s).2, past ++ [.unanswered call]) := by
  simp only [recorded]
  generalize host.answer call s = answer at h
  obtain ⟨_, t⟩ := answer
  obtain rfl : _ = none := h
  rfl

theorem recorded_answer_snd (host : Host σ) (call : Call) (s : σ) (past : List Event) :
    (host.recorded.answer call (s, past)).2.1 = (host.answer call s).2 := by
  cases h : (host.answer call s).1 with
  | some a => rw [recorded_answer_some h]
  | none => rw [recorded_answer_none h]

end Host

end ProcessDrill
