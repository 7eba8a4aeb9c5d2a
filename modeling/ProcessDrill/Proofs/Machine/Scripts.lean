import ProcessDrill.Machine
import ProcessDrill.Proofs.Host.Traps
import ProcessDrill.Proofs.Plan.Delivery
import ProcessDrill.Proofs.Plan.Truncation
/-!
# What the scripts of a machine decide

A scripted machine answers each kind of call from a script of its own. Main statements:
* `direct_recuts`: if nothing but pieces of input is scripted for reads, none of them empty, the machine delivers
  their bytes, and how they are cut makes no difference to the other answers;
* `direct_repaired`: nor does what is scripted for writes.
-/

namespace ProcessDrill

set_option autoImplicit false

namespace Delivery

def data : Delivery → List UInt8
  | bytes data => data
  | raw data _ => data

/-- Every read brings a piece of input, and no piece is empty. -/
def Feeding (reads : List Delivery) : Prop :=
  ∀ delivery ∈ reads, ∃ data, delivery = .bytes data ∧ data ≠ []

def input (reads : List Delivery) : List UInt8 :=
  reads.flatMap data

end Delivery

namespace Machine

open Delivery (Feeding input)

/-- The machine apart from the reads that are scripted and from what it has noted. -/
def unread (m : Machine) : Machine :=
  { m with reads := [], journal := [], traps := 0 }

/-- Two machines that deliver and differ only in what they deliver. -/
structure SameButReads (s t : Machine) : Prop where
  same : s.unread = t.unread
  feeding : Feeding s.reads
  feeding' : Feeding t.reads

/-! ## Calls that read nothing -/

theorem answer_unread {call : Call} (other : call.isRead = false) (m : Machine) :
    (direct.answer call m).1 = (direct.answer call m.unread).1 ∧
      (direct.answer call m).2.unread = (direct.answer call m.unread).2.unread := by
  obtain ⟨reads, writes, writeMax, execs, joins, exits, halts, journal, traps⟩ := m
  cases call with
  | exec name argv => exact ⟨rfl, rfl⟩
  | join pid => exact ⟨rfl, rfl⟩
  | exit status => rcases exits with _ | _ | _ <;> exact ⟨rfl, rfl⟩
  | halt => cases halts <;> exact ⟨rfl, rfl⟩
  | read buffer => cases other
  | write bytes => exact ⟨rfl, rfl⟩

theorem reads_answer {call : Call} (other : call.isRead = false) (m : Machine) :
    (direct.answer call m).2.reads = m.reads := by
  obtain ⟨reads, writes, writeMax, execs, joins, exits, halts, journal, traps⟩ := m
  cases call with
  | exit status => rcases exits with _ | _ | _ <;> rfl
  | halt => cases halts <;> rfl
  | read buffer => cases other
  | _ => rfl

/-! ## Reads -/

/-- A read brings the next piece of what is scripted, as much of it as fits, and nothing only if there is none. -/
theorem deliver_feeding {size : Nat} (room : 0 < size) {reads : List Delivery} (feeding : Feeding reads) :
    ∃ piece rest, deliver size reads = (Int64.ofNat piece.length, piece, rest) ∧ Feeding rest ∧
      piece.length ≤ size ∧ input reads = piece ++ input rest ∧ (piece = [] → input reads = []) := by
  cases reads with
  | nil => exact ⟨[], [], rfl, feeding, Nat.zero_le _, rfl, fun _ => rfl⟩
  | cons delivery rest =>
    obtain ⟨⟨data, rfl, nonempty⟩, later⟩ := List.forall_mem_cons.1 feeding
    rw [deliver]
    by_cases fits : data.length ≤ size
    · rw [if_pos fits]
      exact ⟨data, rest, rfl, later, fits, rfl, fun nothing => absurd nothing nonempty⟩
    · have short : (data.take size).length = size := List.length_take_of_le (by omega)
      have more : data.drop size ≠ [] := by
        rw [Ne, List.drop_eq_nil_iff]
        exact fits
      rw [if_neg fits]
      refine ⟨data.take size, .bytes (data.drop size) :: rest, by rw [short], ?_, Nat.le_of_eq short, ?_, ?_⟩
      · exact List.forall_mem_cons.2 ⟨⟨_, rfl, more⟩, later⟩
      · show data ++ input rest = data.take size ++ (data.drop size ++ input rest)
        rw [← List.append_assoc, List.take_append_drop]
      · intro nothing
        rw [nothing, List.length_nil] at short
        omega

theorem readsLeft_deliver {m : Machine} (more : m.reads ≠ []) :
    { m with reads := (deliver Console.chunkSize m.reads).2.2 }.readsLeft < m.readsLeft := by
  obtain ⟨reads, writes, writeMax, execs, joins, exits, halts, journal, traps⟩ := m
  match reads with
  | [] => exact absurd rfl more
  | .raw data ret :: rest =>
    simp only [deliver, readsLeft, List.map_cons, List.foldr_cons]
    omega
  | .bytes data :: rest =>
    simp only [deliver, readsLeft]
    split
    · simp only [List.map_cons, List.foldr_cons]
      omega
    · next long =>
      simp only [List.map_cons, List.foldr_cons, List.length_drop, Console.chunkSize] at long ⊢
      omega

theorem direct_delivers (t : Machine) :
    direct.Delivers (fun m => input m.reads) fun m => SameButReads m t := by
  have room : 0 < Console.chunkSize := by decide
  constructor
  case brings =>
    intro m related
    obtain ⟨piece, rest, delivered, -, fits, eq, last⟩ := deliver_feeding room related.feeding
    have small : 2 * piece.length < UInt64.size := by
      simp only [Console.chunkSize] at fits
      simp only [UInt64.size]
      omega
    have asked : direct.answer .chunk m =
        (some (.ok piece.length, piece), (m.read standardInput Console.chunkSize).2) := by
      simp only [direct, read, Buffer.length_zeros, delivered, Errno.ofReturn_ofNat small]
    refine ⟨piece.length, piece, congrArg Prod.fst asked, ?_, ?_⟩
    · have whole : (Buffer.overlay piece (Buffer.zeros Console.chunkSize)).take piece.length = piece := by
        rw [Buffer.overlay, Buffer.length_zeros, List.take_of_length_le fits, List.take_left]
      rw [whole, asked, eq]
      simp only [read, note, delivered]
    · intro none
      exact last (List.eq_nil_of_length_eq_zero none)
  case stays =>
    intro m related
    obtain ⟨piece, rest, delivered, feeding, -⟩ := deliver_feeding room related.feeding
    refine ⟨related.same, ?_, related.feeding'⟩
    simp only [direct, read, note, Buffer.length_zeros, delivered]
    exact feeding
  case keeps =>
    intro call m _ other
    exact congrArg input (reads_answer other m)
  case keeps_log =>
    intro record m _
    rfl
  case patience_pos =>
    intro m _
    show 0 < m.readsLeft
    rw [readsLeft]
    generalize m.reads.map _ = counts
    induction counts with
    | nil => exact Nat.one_pos
    | cons count counts ih => exact Nat.add_pos_right _ ih
  case patience_lt =>
    intro m related more
    have some : m.reads ≠ [] := by
      intro none
      rw [none] at more
      exact more rfl
    have := readsLeft_deliver some
    rwa [← Buffer.length_zeros Console.chunkSize] at this

theorem fed_of_feeding {m : Machine} (feeding : Feeding m.reads) :
    Console.Fed (fun m => input m.reads) (fun s => SameButReads s m) { machine := m } where
  machine := ⟨rfl, feeding, feeding⟩
  ended := nofun

theorem SameButReads.symm {s t : Machine} (h : SameButReads s t) : SameButReads t s :=
  ⟨h.same.symm, h.feeding', h.feeding⟩

/-- How the input is cut into reads makes no difference to the other answers. -/
theorem direct_recuts :
    direct.Recuts direct (fun m => input m.reads) (fun m => input m.reads) SameButReads where
  answer := by
    intro call s t other related
    obtain ⟨answer, next⟩ := answer_unread other s
    obtain ⟨answer', next'⟩ := answer_unread other t
    rw [answer, answer', related.same]
    refine ⟨rfl, ?_, ?_, ?_⟩
    · rw [next, next', related.same]
    · rw [reads_answer other]
      exact related.feeding
    · rw [reads_answer other]
      exact related.feeding'
  log := by
    intro record s t related
    exact ⟨related.same, related.feeding, related.feeding'⟩
  left := direct_delivers
  right := by
    intro s
    have flip : (fun t => SameButReads s t) = fun t => SameButReads t s :=
      funext fun t => propext ⟨SameButReads.symm, SameButReads.symm⟩
    rw [flip]
    exact direct_delivers s

/-! ## Writes -/

/-- The machine apart from the writes that are scripted and from what it has noted. -/
def unwritten (m : Machine) : Machine :=
  { m with writes := [], writeMax := none, journal := [], traps := 0 }

theorem answer_unwritten {call : Call} (other : call.isWrite = false) (m : Machine) :
    (direct.answer call m).1 = (direct.answer call m.unwritten).1 ∧
      (direct.answer call m).2.unwritten = (direct.answer call m.unwritten).2.unwritten := by
  obtain ⟨reads, writes, writeMax, execs, joins, exits, halts, journal, traps⟩ := m
  cases call with
  | exec name argv => exact ⟨rfl, rfl⟩
  | join pid => exact ⟨rfl, rfl⟩
  | exit status => rcases exits with _ | _ | _ <;> exact ⟨rfl, rfl⟩
  | halt => cases halts <;> exact ⟨rfl, rfl⟩
  | read buffer => exact ⟨rfl, rfl⟩
  | write bytes => cases other

/-- The machine with writes that take all they are offered and leave no trace in it. -/
def accepting : Host Machine where
  answer
    | .write bytes => fun m => (some (.ok bytes.length), m)
    | call => direct.answer call
  log := direct.log
  patience := direct.patience

theorem direct_repaired : direct.Repaired accepting fun s t => s.unwritten = t.unwritten where
  answer := by
    intro call s t other related
    have unchanged : accepting.answer call = direct.answer call := by
      cases call with
      | write bytes => cases other
      | _ => rfl
    obtain ⟨answer, next⟩ := answer_unwritten other s
    obtain ⟨answer', next'⟩ := answer_unwritten other t
    rw [unchanged, answer, answer', next, next', related]
    exact ⟨rfl, rfl⟩
  log := fun _ _ _ related => related
  patience := by
    intro s t related
    have same := congrArg readsLeft related
    exact same
  faulty := fun _ _ _ related => related
  whole := fun _ _ _ related => ⟨rfl, related⟩

/-! ## Traps -/

/-- The machine apart from its count of traps. -/
def untrapped (m : Machine) : Machine :=
  { m with traps := 0 }

theorem pathName_terminated {name : List UInt8} (h : 0 ∉ name) : pathName (name ++ [0]) = name := by
  have inside : ∀ b ∈ name, (b != 0) = true := by
    intro b mem
    rw [bne_iff_ne]
    rintro rfl
    exact h mem
  rw [pathName, List.takeWhile_append_of_pos inside]
  exact List.append_nil name

theorem handle_exec (path : List UInt8) (argc : UInt64) (argv : Option (List (List UInt8))) (m : Machine) :
    kernel.handle (.exec path argc argv) m =
      (some ⟨m.execs.headD (-2), [], none⟩,
        ({ m with traps := m.traps + 1 }.exec (pathName path) argc argv.isSome).2) := rfl

/-- Behind traps the machine answers as it does itself, apart from what traps lose. -/
theorem kernel_simulates :
    kernel.host.Simulates direct.refusing fun s t => s.untrapped = t.untrapped where
  answer := by
    rintro call ⟨reads, writes, writeMax, execs, joins, exits, halts, journal, traps⟩ t related
    obtain ⟨reads', writes', writeMax', execs', joins', exits', halts', journal', traps'⟩ := t
    obtain ⟨rfl, rfl, rfl, rfl, rfl, rfl, rfl, rfl, -⟩ := Machine.mk.inj related
    cases call with
    | exec name argv =>
      by_cases zero : 0 ∈ name
      · rw [TrapHandler.answer_of_zero _ zero]
        simp only [Host.refusing, if_pos zero, true_and]
        rfl
      · rw [TrapHandler.answer_of_noZero _ zero, Syscall.execRaw, TrapHandler.enter_eq, handle_exec,
          pathName_terminated zero]
        simp only [Host.refusing, if_neg zero]
        cases argv <;> exact ⟨rfl, rfl⟩
    | join pid => exact ⟨rfl, rfl⟩
    | exit status => rcases exits with _ | _ | _ <;> exact ⟨rfl, rfl⟩
    | halt =>
      cases halts with
      | returns ret =>
        simp only [Host.refusing, TrapHandler.host, Syscall.halt, Syscall.enter, kernel, handle, halt, direct,
          Option.map_some]
        cases Errno.ofReturn ret <;> exact ⟨rfl, rfl⟩
      | ends => exact ⟨rfl, rfl⟩
    | read buffer => exact ⟨rfl, rfl⟩
    | write bytes => exact ⟨rfl, rfl⟩
  log := by
    intro record s t related
    exact congrArg (fun m => m.note [.log record]) related
  patience := by
    intro s t related
    have same := congrArg readsLeft related
    exact same

end Machine

end ProcessDrill
