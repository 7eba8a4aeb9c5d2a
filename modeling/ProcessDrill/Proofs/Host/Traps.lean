import ProcessDrill.Proofs.Host.Simulation
import ProcessDrill.Trap
/-!
# Calls behind traps

A machine behind traps is a machine like any other.
* `Call.trap?` is the one trap that a call makes, `Call.frame?` this trap as it stands in the registers.
* `Call.Means` says what a raw reply to it means as an answer to the call.

Main statements: `TrapHandler.traps_of_call`, a call makes this trap and no other, and
`TrapHandler.answer_of_reply`, it is answered with what the reply means.
-/

namespace ProcessDrill

set_option autoImplicit false

/-! ## Raw returns -/

namespace Errno

/-- The error that a negative return names: the one of this number, or an invalid argument if there is none. -/
def Names (e : Errno) (ret : Int64) : Prop :=
  e.number.toInt = -ret.toInt ∨ e = .einval ∧ ∀ other : Errno, other.number.toInt ≠ -ret.toInt

theorem number_pos (e : Errno) : 1 ≤ e.number.toInt := by
  cases e <;> decide

theorem number_eq_neg_iff (e : Errno) (ret : Int64) : e.number = -ret ↔ e.number.toInt = -ret.toInt := by
  have low := Int64.le_toInt ret
  have high := Int64.toInt_lt ret
  have pos := e.number_pos
  have small := Int64.toInt_lt e.number
  rw [← Int64.toInt_inj, Int64.toInt_neg, Int.bmod_def]
  omega

theorem names_ofNumber (ret : Int64) : (ofNumber (-ret)).Names ret := by
  rw [ofNumber]
  cases found : all.find? (·.number == -ret) with
  | some e =>
    have same : e.number = -ret := by simpa using List.find?_some found
    exact .inl ((e.number_eq_neg_iff ret).1 same)
  | none =>
    refine .inr ⟨rfl, fun other same => ?_⟩
    have := List.find?_eq_none.1 found other other.mem_all
    simp [(other.number_eq_neg_iff ret).2 same] at this

theorem Names.unique {e other : Errno} {ret : Int64} (h : e.Names ret) (h' : other.Names ret) : e = other := by
  rcases h with same | ⟨rfl, none⟩
  · rcases h' with same' | ⟨-, none⟩
    · have number : e.number = other.number := Int64.toInt_inj.1 (same.trans same'.symm)
      rw [← ofNumber_number e, number, ofNumber_number]
    · exact absurd same (none e)
  · rcases h' with same' | ⟨rfl, -⟩
    · exact absurd same' (none other)
    · rfl

end Errno

/-- How a return is read: one that is not negative stands for `value`, a negative one for the error that it names. -/
def Decodes {α : Type} (ret : Int64) (value : α) (error : Errno → α) (answer : α) : Prop :=
  (0 ≤ ret → answer = value) ∧ (ret < 0 → ∃ e : Errno, e.Names ret ∧ answer = error e)

namespace Decodes

variable {α : Type} {ret : Int64}

theorem unique {value answer other : α} {error : Errno → α} (h : Decodes ret value error answer)
    (h' : Decodes ret value error other) : answer = other := by
  by_cases neg : ret < 0
  · obtain ⟨e, names, rfl⟩ := h.2 neg
    obtain ⟨e', names', rfl⟩ := h'.2 neg
    rw [names.unique names']
  · have nonneg := Int64.not_lt.1 neg
    exact (h.1 nonneg).trans (h'.1 nonneg).symm

theorem ofReturn (value : UInt64 → α) (ret : Int64) :
    Decodes ret (.ok (value ret.toUInt64)) .error ((Errno.ofReturn ret).map value) := by
  refine ⟨fun nonneg => ?_, fun neg => ⟨_, Errno.names_ofNumber ret, ?_⟩⟩
  · rw [Errno.ofReturn_of_nonneg nonneg]
    rfl
  · rw [Errno.ofReturn_of_neg neg]
    rfl

theorem count (ret : Int64) :
    Decodes ret (.ok ret.toNatClampNeg) .error ((Errno.ofReturn ret).map UInt64.toNat) := by
  obtain ⟨value, error⟩ := ofReturn UInt64.toNat ret
  refine ⟨fun nonneg => ?_, error⟩
  rw [value nonneg, Int64.toNat_toUInt64_of_le nonneg]

theorem normal (status : Int32) (ret : Int64) :
    Decodes ret (.ok ⟨status, decide (ret = 1)⟩) .error
      ((Errno.ofReturn ret).map fun kind => Joined.mk status (kind == 1)) := by
  obtain ⟨value, error⟩ := ofReturn (fun kind => Joined.mk status (kind == 1)) ret
  refine ⟨fun nonneg => ?_, error⟩
  have one : (ret.toUInt64 == 1) = decide (ret = 1) := by
    have same : ret.toUInt64 = 1 ↔ ret = 1 := ⟨congrArg UInt64.toInt64, congrArg Int64.toUInt64⟩
    rw [Bool.eq_iff_iff, beq_iff_eq, decide_eq_true_iff]
    exact same
  rw [value nonneg, one]

theorem refusal (ret : Int64) :
    Decodes (α := Except Errno Unit) ret (.error .eperm) .error (.error (match Errno.ofReturn ret with
      | .ok _ => .eperm
      | .error e => e)) := by
  refine ⟨fun nonneg => ?_, fun neg => ⟨_, Errno.names_ofNumber ret, ?_⟩⟩
  · rw [Errno.ofReturn_of_nonneg nonneg]
  · rw [Errno.ofReturn_of_neg neg]

theorem map {β : Type} {value answer : α} {error : Errno → α} (h : Decodes ret value error answer) (f : α → β) :
    Decodes ret (f value) (fun e => f (error e)) (f answer) := by
  refine ⟨fun nonneg => congrArg f (h.1 nonneg), fun neg => ?_⟩
  obtain ⟨e, names, rfl⟩ := h.2 neg
  exact ⟨e, names, rfl⟩

end Decodes

/-! ## Traps of calls -/

namespace Call

/-- The trap that a call makes. A name with a zero byte makes none. -/
def trap? : Call → Option Trap
  | exec name argv =>
    if 0 ∈ name then none
    else
      match argv with
      | .empty => some (.exec (name ++ [0]) 0 (some []))
      | .null count => some (.exec (name ++ [0]) count none)
  | join pid => some (.join pid.raw 0)
  | exit status => some (.exit status.toInt64)
  | halt => some .halt
  | read buffer => some (.read 0 buffer)
  | write bytes => some (.write 1 bytes)

/-- The registers of the trap, when its memory stands at `address` and an argument vector at `vector`. -/
def frame? (address vector : UInt64) : Call → Option Frame
  | exec name argv =>
    if 0 ∈ name then none
    else
      match argv with
      | .empty => some ⟨2, [address, 0, vector]⟩
      | .null count => some ⟨2, [address, count, 0]⟩
  | join pid => some ⟨3, [pid.raw, address]⟩
  | exit status => some ⟨1, [status.toInt64.toUInt64]⟩
  | halt => some ⟨0, []⟩
  | read buffer => some ⟨6, [0, address, buffer.length.toUInt64]⟩
  | write bytes => some ⟨7, [1, address, bytes.length.toUInt64]⟩

/-- Only a name with a zero byte makes no trap. -/
theorem zero_of_no_trap {call : Call} (h : call.trap? = none) :
    ∃ name argv, call = .exec name argv ∧ 0 ∈ name := by
  cases call with
  | exec name argv =>
    by_cases zero : 0 ∈ name
    · exact ⟨name, argv, rfl, zero⟩
    · simp only [trap?, if_neg zero] at h
      cases argv <;> cases h
  | _ => cases h

/-- What a reply means as an answer. An exit hands over the return as it is, and a halt that returns is refused. -/
def Means : (call : Call) → Reply → call.Answer → Prop
  | exec _ _, reply, answer => Decodes reply.ret (.ok ⟨reply.ret.toUInt64⟩) .error answer
  | join _, reply, answer =>
    Decodes reply.ret (.ok ⟨reply.status.getD 0, decide (reply.ret = 1)⟩) .error answer
  | exit _, reply, answer => answer = reply.ret
  | halt, reply, answer => Decodes reply.ret (.error .eperm) .error answer
  | read _, reply, answer =>
    Decodes reply.ret (.ok reply.ret.toNatClampNeg, reply.stored) (fun e => (.error e, reply.stored)) answer
  | write _, reply, answer => Decodes reply.ret (.ok reply.ret.toNatClampNeg) .error answer

theorem Means.unique {call : Call} {reply : Reply} {answer other : call.Answer} (h : call.Means reply answer)
    (h' : call.Means reply other) : answer = other := by
  cases call with
  | exit status => exact Eq.trans h (Eq.symm h')
  | _ => exact Decodes.unique h h'

theorem frame_trap? (address vector : UInt64) (call : Call) :
    call.trap?.map (Trap.frame address vector) = call.frame? address vector := by
  cases call with
  | exec name argv =>
    by_cases zero : 0 ∈ name
    · simp only [trap?, frame?, if_pos zero, Option.map_none]
    · simp only [trap?, frame?, if_neg zero]
      cases argv <;> rfl
  | _ => rfl

end Call

/-! ## Machines behind traps -/

namespace TrapHandler

variable {σ : Type} (kernel : TrapHandler σ)

/-- The same kernel, keeping every trap. -/
def traced : TrapHandler (σ × List Trap) where
  handle trap := fun (s, past) =>
    let (reply, t) := kernel.handle trap s
    (reply, t, past ++ [trap])
  log record := fun (s, past) => (kernel.log record s, past)
  patience := fun (s, _) => kernel.patience s

theorem answer_of_zero {name : List UInt8} (h : 0 ∈ name) (argv : Argv) (s : σ) :
    kernel.host.answer (.exec name argv) s = (some (.error .einval), s) := by
  have zero : name.contains 0 = true := List.contains_iff_mem.2 h
  simp only [host, zero, if_true]

theorem enter_eq {α : Type} (trap : Trap) (decode : Reply → α) (s : σ) :
    Syscall.enter kernel trap decode s =
      ((kernel.handle trap s).1.map decode, (kernel.handle trap s).2) := rfl

/-- The vector that stands for a claim of arguments. -/
def vector : Argv → Option (List (List UInt8))
  | .empty => some []
  | .null _ => none

theorem answer_of_noZero {name : List UInt8} (h : 0 ∉ name) (argv : Argv) (s : σ) :
    kernel.host.answer (.exec name argv) s =
      Syscall.execRaw kernel (name ++ [0]) argv.count (vector argv) s := by
  have noZero : name.contains 0 = false := by simpa using h
  simp only [host, noZero]
  cases argv <;> rfl

/-- A call with a trap is answered with what the reply to it means, and the kernel is left as the trap leaves it. -/
theorem answer_of_reply {call : Call} {trap : Trap} (h : call.trap? = some trap) (s : σ) :
    ∃ decode : Reply → call.Answer, (∀ reply, call.Means reply (decode reply)) ∧
      kernel.host.answer call s = ((kernel.handle trap s).1.map decode, (kernel.handle trap s).2) := by
  cases call with
  | exec name argv =>
    by_cases zero : 0 ∈ name
    · simp only [Call.trap?, if_pos zero] at h
      cases h
    · refine ⟨_, fun reply => .ofReturn Pid.mk reply.ret, ?_⟩
      simp only [Call.trap?, if_neg zero] at h
      rw [kernel.answer_of_noZero zero]
      cases argv <;> cases h <;> rfl
  | join pid =>
    cases h
    exact ⟨_, fun reply => .normal (reply.status.getD 0) reply.ret, rfl⟩
  | exit status =>
    cases h
    exact ⟨_, fun reply => rfl, rfl⟩
  | halt =>
    cases h
    refine ⟨_, fun reply => .refusal reply.ret, ?_⟩
    simp only [host, Syscall.halt, Syscall.enter, Option.map_map]
    rfl
  | read buffer =>
    cases h
    exact ⟨_, fun reply => (Decodes.count reply.ret).map (·, reply.stored), rfl⟩
  | write bytes =>
    cases h
    exact ⟨_, fun reply => .count reply.ret, rfl⟩

/-- Keeping the traps changes no answer, and a call makes its trap and no other. -/
theorem answer_traced (call : Call) (s : σ) (past : List Trap) :
    kernel.traced.host.answer call (s, past) =
      ((kernel.host.answer call s).1, (kernel.host.answer call s).2, past ++ call.trap?.toList) := by
  cases made : call.trap? with
  | some trap =>
    obtain ⟨decode, means, answered⟩ := kernel.answer_of_reply made s
    obtain ⟨decode', means', answered'⟩ := kernel.traced.answer_of_reply made (s, past)
    obtain rfl : decode' = decode := funext fun reply => (means' reply).unique (means reply)
    rw [answered, answered']
    rfl
  | none =>
    obtain ⟨name, argv, rfl, zero⟩ := Call.zero_of_no_trap made
    rw [answer_of_zero _ zero, answer_of_zero _ zero, Option.toList_none, List.append_nil]

theorem traps_of_call (call : Call) (s : σ) (past : List Trap) :
    (kernel.traced.host.answer call (s, past)).2.2 = past ++ call.trap?.toList := by
  rw [answer_traced]

/-- A machine without traps that answers each call with what the reply to its trap means. -/
structure Backs {τ : Type} (seam : Host τ) (R : σ → τ → Prop) : Prop where
  answered : ∀ (call : Call) (trap : Trap) (s : σ) (t : τ), call.trap? = some trap → R s t →
    (∃ decode : Reply → call.Answer, (∀ reply, call.Means reply (decode reply)) ∧
      (seam.answer call t).1 = (kernel.handle trap s).1.map decode) ∧
    R (kernel.handle trap s).2 (seam.answer call t).2
  refused : ∀ (name : List UInt8) (argv : Argv) (s : σ) (t : τ), 0 ∈ name → R s t →
    (seam.answer (.exec name argv) t).1 = some (.error .einval) ∧ R s (seam.answer (.exec name argv) t).2
  log : ∀ (record : Log.Record) (s : σ) (t : τ), R s t → R (kernel.log record s) (seam.log record t)
  patience : ∀ (s : σ) (t : τ), R s t → kernel.patience s = seam.patience t

variable {kernel}

theorem Backs.simulates {τ : Type} {seam : Host τ} {R : σ → τ → Prop} (backs : kernel.Backs seam R) :
    kernel.host.Simulates seam R where
  answer := by
    intro call s t related
    cases made : call.trap? with
    | some trap =>
      obtain ⟨decode, means, answer⟩ := kernel.answer_of_reply made s
      obtain ⟨⟨decode', means', answer'⟩, next⟩ := backs.answered call trap s t made related
      obtain rfl : decode = decode' := funext fun reply => (means reply).unique (means' reply)
      rw [answer, answer']
      exact ⟨rfl, next⟩
    | none =>
      obtain ⟨name, argv, rfl, zero⟩ := Call.zero_of_no_trap made
      obtain ⟨answer', next⟩ := backs.refused name argv s t zero related
      rw [kernel.answer_of_zero zero, answer']
      exact ⟨rfl, next⟩
  log := backs.log
  patience := backs.patience

end TrapHandler

/-- The machine with what is lost behind traps: a name with a zero byte is refused unseen, and a halt that returns
is refused. -/
def Host.refusing {σ : Type} (host : Host σ) : Host σ where
  answer
    | .exec name argv =>
      if 0 ∈ name then fun s => (some (.error .einval), s) else host.answer (.exec name argv)
    | .halt => fun s =>
      let (answer, t) := host.answer .halt s
      (answer.map fun
        | .ok () => .error .eperm
        | .error e => .error e, t)
    | call => host.answer call
  log := host.log
  patience := host.patience

end ProcessDrill
