import ProcessDrill.CommandLine.Program
import ProcessDrill.Machine
import ProcessDrill.Proofs.Drill.Ending
/-!
# The program, from its arguments to its exit code

* `TrapHandler.withLog` is a kernel with a log beside it, of which it sees nothing.
* `TrapHandler.Resumes`: a kernel that comes back from more traps than another one.
* `Program.exitCode` is the exit code for what a drill comes to.

Main statement: `run_makes_drill`, the program on arguments that are accepted and give a seed, in front of any kernel,
with any log beside it. What the arguments do not give has its default.
* If the configuration has a capacity outside of 2 to 256 or a bound of zero, the exit code is two and there is no
  trap.
* Otherwise the traps are those of one drill with this configuration and the words of the seed. The exit code is zero
  exactly if this drill comes to its end, however that is, and one exactly if a read or a write of it failed. There is
  no exit code only if the drill is cut short: a call does not come back, a token does not end, or all words are
  refused.
* How many blocks of words are at hand makes no difference, unless all words are refused.
* If a trap that is no read or write does not come back, it is the last one, and the traps up to it are the first ones
  of the same drill on any kernel that does come back from it. The menu, the line of the exercise and, before a halt,
  what became of the exercise were taken before, line by line.
-/

namespace ProcessDrill

set_option autoImplicit false

variable {σ τ : Type}

/-! ## Logs -/

namespace TrapHandler

def withLog (kernel : TrapHandler σ) (keep : Log.Record → τ → τ) : TrapHandler (σ × τ) where
  handle trap := fun (s, log) =>
    let (reply, t) := kernel.handle trap s
    (reply, t, log)
  log record := fun (s, log) => (s, keep record log)
  patience := fun (s, _) => kernel.patience s

/-- What is logged makes no difference to the kernel, in states related by `R`. -/
structure Apart (kernel : TrapHandler σ) (R : σ → σ → Prop) : Prop where
  handle : ∀ trap s t, R s t → (kernel.handle trap s).1 = (kernel.handle trap t).1 ∧
    R (kernel.handle trap s).2 (kernel.handle trap t).2
  first : ∀ record s t, R s t → R (kernel.log record s) t
  second : ∀ record s t, R s t → R s (kernel.log record t)
  patience : ∀ s t, R s t → kernel.patience s = kernel.patience t

theorem apart_withLog (kernel : TrapHandler σ) (keep : Log.Record → τ → τ) :
    (kernel.withLog keep).Apart fun s t => s.1 = t.1 where
  handle := by
    rintro trap ⟨s, log⟩ ⟨_, log'⟩ rfl
    exact ⟨rfl, rfl⟩
  first _ _ _ same := same
  second _ _ _ same := same
  patience := by
    rintro ⟨s, log⟩ ⟨_, log'⟩ rfl
    rfl

namespace Apart

variable {kernel : TrapHandler σ} {R : σ → σ → Prop} (apart : kernel.Apart R)
include apart

theorem traced : kernel.traced.Apart fun s t => R s.1 t.1 ∧ s.2 = t.2 where
  handle := by
    rintro trap ⟨s, past⟩ ⟨t, _⟩ ⟨related, rfl⟩
    obtain ⟨same, next⟩ := apart.handle trap s t related
    exact ⟨same, next, rfl⟩
  first record s t h := ⟨apart.first record s.1 t.1 h.1, h.2⟩
  second record s t h := ⟨apart.second record s.1 t.1 h.1, h.2⟩
  patience s t h := apart.patience s.1 t.1 h.1

theorem backs : kernel.Backs kernel.host R where
  answered := by
    intro call trap s t made related
    obtain ⟨decode, means, answered⟩ := kernel.answer_of_reply made t
    obtain ⟨same, next⟩ := apart.handle trap s t related
    rw [answered, same]
    exact ⟨⟨decode, means, rfl⟩, next⟩
  refused := by
    intro name argv s t zero related
    rw [kernel.answer_of_zero zero]
    exact ⟨rfl, related⟩
  log record s t related := apart.first record s _ (apart.second record s t related)
  patience := apart.patience

/-- A filter of the log makes no difference either. -/
theorem simulates_filtered (filter : CommandLine.LogFilter) :
    (filter.apply kernel).host.Simulates kernel.host R where
  answer := apart.backs.simulates.answer
  log record s t related := by
    show R (if filter.allows record then kernel.log record s else s) (kernel.log record t)
    split
    · exact apart.backs.log record s t related
    · exact apart.second record s t related
  patience := apart.patience

theorem filtered (filter : CommandLine.LogFilter) (record : Log.Record) {s t : σ} (related : R s t) :
    R ((filter.apply kernel).log record s) t := by
  show R (if filter.allows record then kernel.log record s else s) t
  split
  · exact apart.first record s t related
  · exact related

end Apart

/-! ## Kernels that come back -/

/-- The second kernel, `kernel`, may not come back from traps that are no reads or writes. The first one handles every
other trap as it does. -/
structure Resumes (resumed kernel : TrapHandler σ) : Prop where
  handle : ∀ trap s, trap.service = .read ∨ trap.service = .write ∨ (kernel.handle trap s).1 ≠ none →
    resumed.handle trap s = kernel.handle trap s
  patience : resumed.patience = kernel.patience

theorem Resumes.host {resumed kernel : TrapHandler σ} (resumes : resumed.Resumes kernel) (keep : Log.Record → τ → τ) :
    (resumed.withLog keep).host.Resumes (kernel.withLog keep).host where
  answer := by
    rintro call ⟨s, log⟩ comes
    cases made : call.trap? with
    | none =>
      obtain ⟨name, argv, rfl, zero⟩ := Call.zero_of_no_trap made
      rw [answer_of_zero _ zero, answer_of_zero _ zero]
    | some trap =>
      obtain ⟨decode, means, answered⟩ := (kernel.withLog keep).answer_of_reply made (s, log)
      obtain ⟨decode', means', answered'⟩ := (resumed.withLog keep).answer_of_reply made (s, log)
      obtain rfl : decode' = decode := funext fun reply => (means' reply).unique (means reply)
      have same : resumed.handle trap s = kernel.handle trap s := by
        refine resumes.handle trap s ?_
        rcases comes with console | back
        · cases call with
          | read buffer =>
            cases made
            exact .inl rfl
          | write bytes =>
            cases made
            exact .inr (.inl rfl)
          | _ => cases console
        · refine .inr (.inr fun none => back ?_)
          rw [answered]
          show (kernel.handle trap s).1.map _ = _
          rw [none]
          rfl
      rw [answered, answered']
      simp only [withLog, same]
  log := rfl
  patience := by
    funext ⟨s, log⟩
    exact congrFun resumes.patience s

end TrapHandler

namespace Drill

variable {kernel resumed : TrapHandler σ}

/-- Up to a trap from which a kernel does not come back, the traps are those of the drill on one that does. -/
theorem traps_resumed (resumes : resumed.Resumes kernel) (keep : Log.Record → τ → τ) (config : Config)
    (bench : Bench (σ × τ)) :
    traps (kernel.withLog keep) config bench <+: traps (resumed.withLog keep) config bench := by
  rw [traps_eq, traps_eq]
  rcases trace_resumed (resumes.host keep) config bench with same | ⟨before, call, event, after, eq, eq', asked⟩
  · rw [same]
  · rw [eq, eq', ← List.singleton_append (l := after), ← List.append_assoc, trapsOf_concat]
    refine ⟨trapsOf after, ?_⟩
    have call? : (Event.unanswered call).call? = event.call? := asked.symm
    rw [call?, ← trapsOf_concat]
    exact (List.filterMap_append).symm

end Drill

/-! ## Random words -/

theorem Random.ChaCha.words_prefix (seed : UInt64) {m n : Nat} (h : m ≤ n) : words seed m <+: words seed n := by
  obtain ⟨k, rfl⟩ := Nat.exists_eq_add_of_le h
  rw [words, words, List.range_add, List.flatMap_append]
  exact List.prefix_append _ _

namespace CommandLine.Program

/-! ## The drill of a program -/

/-- The exit code for what a drill comes to; none if it was cut short. -/
def exitCode : Except Stop Termination → Option UInt8
  | .ok _ => some 0
  | .error (.console _) => some 1
  | .error _ => none

/-- A configuration that is not valid is refused, and only the log is told. -/
theorem drill_refused (kernel : TrapHandler σ) (seed : UInt64) {config : Config} (refused : ¬ config.Valid) {s : σ}
    {P : σ → Prop} (logs : ∀ record s, P s → P (kernel.log record s)) (here : P s) :
    (drill kernel seed config s).code = some 2 ∧ P (drill kernel seed config s).machine := by
  have begun := logs ⟨.info, .program, "rng seed " ++ Text.decimal seed.toNat⟩ s here
  rw [← Config.check_eq_ok_iff] at refused
  rw [drill]
  cases checked : config.check with
  | ok u => exact absurd checked refused
  | error e =>
    simp only [Bench.new, checked]
    exact ⟨rfl, logs _ _ begun⟩

/-- With a valid configuration the program makes the drill that any machine makes which answers alike. -/
theorem drill_alike {kernel : TrapHandler σ} {host : Host τ} {R : σ → τ → Prop}
    (simulates : kernel.host.Simulates host R) (logs : ∀ record s t, R s t → R (kernel.log record s) t)
    (seed : UInt64) {config : Config} (valid : config.Valid) {s : σ} {t : τ} (related : R s t) :
    let ended := Drill.run host config ⟨{ machine := t }, Random.ChaCha.words seed blocks⟩
    (drill kernel seed config s).code = exitCode (Drill.verdict ended).1 ∧
      R (drill kernel seed config s).machine (leftBy ended).console.machine := by
  intro ended
  rw [← Config.check_eq_ok_iff] at valid
  have begun := logs ⟨.info, .program, "rng seed " ++ Text.decimal seed.toNat⟩ s t related
  have alike := Drill.agree_run (Step.agree_perform simulates) config
    ⟨{ machine := log kernel .info ("rng seed " ++ Text.decimal seed.toNat) s }, Random.ChaCha.words seed blocks⟩
    ⟨{ machine := t }, Random.ChaCha.words seed blocks⟩ ⟨⟨begun, rfl, rfl⟩, rfl⟩
  have outcome := Drill.outcome_alike alike
  have machine := alike.leftBy.console.machine
  rw [show Drill.run host config ⟨{ machine := t }, Random.ChaCha.words seed blocks⟩ = ended from rfl]
    at outcome machine
  rw [drill]
  simp only [Bench.new, valid, EStateM.run, Bind.bind, Except.bind, Pure.pure, Except.pure]
  generalize Drill.run kernel.host config _ = r at outcome machine ⊢
  rw [← outcome]
  cases r with
  | ok t b => exact ⟨rfl, logs _ _ _ machine⟩
  | error stop b =>
    cases stop with
    | console e => exact ⟨rfl, logs _ _ _ machine⟩
    | neverReturned => exact ⟨rfl, machine⟩
    | outOfPatience => exact ⟨rfl, machine⟩
    | outOfWords => exact ⟨rfl, machine⟩
    | fault f => exact ⟨rfl, machine⟩

/-! ## Exit codes -/

section

variable {host : Host σ} {config : Config} {bench : Bench σ}

theorem exitCode_eq_zero_iff :
    exitCode (Drill.verdict (Drill.run host config bench)).1 = some 0 ↔
      ∃ t after, Drill.run host config bench = .ok t after := by
  cases Drill.run host config bench with
  | ok t after => simp [Drill.verdict, exitCode]
  | error stop after => cases stop <;> simp [Drill.verdict, exitCode]

theorem exitCode_eq_one_iff :
    exitCode (Drill.verdict (Drill.run host config bench)).1 = some 1 ↔
      ∃ event ∈ Drill.trace host config bench, event.failure? ≠ none := by
  constructor
  · intro one
    cases ended : Drill.run host config bench with
    | ok t after => simp [ended, Drill.verdict, exitCode] at one
    | error stop after =>
      cases stop with
      | console e =>
        obtain ⟨before, last, traced, failed, -⟩ := Drill.last_of_run_fails ended
        refine ⟨last, ?_, by simp [failed]⟩
        rw [traced]
        exact List.mem_append_right _ (List.mem_singleton_self _)
      | _ => simp [ended, Drill.verdict, exitCode] at one
  · rintro ⟨event, mem, failed⟩
    obtain ⟨e, failed⟩ := Option.ne_none_iff_exists'.1 failed
    obtain ⟨before, more, traced⟩ := List.append_of_mem mem
    obtain ⟨-, -, after, ended⟩ := Drill.run_of_failure traced failed
    rw [ended]
    rfl

theorem exitCode_of_stop (valid : config.Valid)
    (other : exitCode (Drill.verdict (Drill.run host config bench)).1 ≠ some 0)
    (other' : exitCode (Drill.verdict (Drill.run host config bench)).1 ≠ some 1) :
    exitCode (Drill.verdict (Drill.run host config bench)).1 = none ∧
      ∃ stop after, Drill.run host config bench = .error stop after ∧
        (stop = .neverReturned ∨ stop = .outOfPatience ∨ stop = .outOfWords ∧
          ∃ x bound, config.bound? x = some bound ∧ Random.draw? bound bench.words = none) := by
  cases ended : Drill.run host config bench with
  | ok t after => simp [ended, Drill.verdict, exitCode] at other
  | error stop after =>
    have noFault := (Drill.run_error ended).no_fault (Plan.inRange_drill valid)
    cases stop with
    | console e => simp [ended, Drill.verdict, exitCode] at other'
    | fault f => exact absurd rfl (noFault f)
    | outOfWords =>
      obtain ⟨x, bound, -, bounded, undrawn⟩ := Drill.undrawn_of_outOfWords ended
      exact ⟨rfl, _, _, rfl, .inr (.inr ⟨rfl, x, bound, bounded, undrawn⟩)⟩
    | neverReturned => exact ⟨rfl, _, _, rfl, .inl rfl⟩
    | outOfPatience => exact ⟨rfl, _, _, rfl, .inr (.inl rfl)⟩

end

/-! ## The program -/

section

variable (kernel : TrapHandler σ) (keep : Log.Record → τ → τ) {clock : UInt64} {directives : Option String}
variable {arguments : List String} {settings : Settings} {seed : UInt64} (parsed : parse arguments = .ok settings)
variable (given : settings.seed = some seed)
include parsed given

theorem run_eq_drill (kernel : TrapHandler σ) (s : σ) :
    run kernel clock directives arguments s =
      drill ((logFilter settings directives).apply kernel) seed settings.config s := by
  simp only [run, parsed, given]
  rfl

theorem run_refused (refused : ¬ settings.config.Valid) (s : σ) (log : τ) :
    (run (kernel.withLog keep) clock directives arguments (s, log)).code = some 2 ∧
      (run (kernel.withLog keep).traced clock directives arguments ((s, log), [])).machine.2 = [] := by
  rw [run_eq_drill parsed given, run_eq_drill parsed given]
  refine ⟨(drill_refused (P := fun _ => True) _ seed refused (fun _ _ _ => trivial) trivial).1, ?_⟩
  have apart := (kernel.apart_withLog keep).traced
  refine (drill_refused (P := fun s : (σ × τ) × List Trap => s.2 = []) _ seed refused (fun record s here => ?_) rfl).2
  exact (apart.filtered _ record (s := s) (t := s) ⟨rfl, rfl⟩).2.trans here

theorem code_of_run (valid : settings.config.Valid) (s : σ) (log : τ) :
    (run (kernel.withLog keep) clock directives arguments (s, log)).code =
      exitCode (Drill.verdict (Drill.run (kernel.withLog keep).host settings.config
        ⟨{ machine := (s, log) }, Random.ChaCha.words seed blocks⟩)).1 := by
  have apart := kernel.apart_withLog keep
  rw [run_eq_drill parsed given]
  exact (drill_alike (apart.simulates_filtered _) (fun record _ _ => apart.filtered _ record) seed valid rfl).1

theorem traps_of_run (valid : settings.config.Valid) (s : σ) (log : τ) :
    (run (kernel.withLog keep).traced clock directives arguments ((s, log), [])).machine.2 =
      Drill.traps (kernel.withLog keep) settings.config
        ⟨{ machine := (s, log) }, Random.ChaCha.words seed blocks⟩ := by
  have apart := (kernel.apart_withLog keep).traced
  rw [run_eq_drill parsed given]
  exact (drill_alike (apart.simulates_filtered _) (fun record _ _ => apart.filtered _ record) seed valid
    (t := ((s, log), [])) ⟨rfl, rfl⟩).2.2

end

/-- A program whose arguments are accepted and give a seed makes one drill, or none if the configuration is refused, and
its exit code says what came of it. -/
theorem run_makes_drill (kernel : TrapHandler σ) (keep : Log.Record → τ → τ) (clock : UInt64)
    (directives : Option String) (arguments : List String) (s : σ) (log : τ) (settings : Settings) (seed : UInt64)
    (parsed : parse arguments = .ok settings) (given : settings.seed = some seed) :
    let config : Config :=
      { nameCapacity := settings.nameCapacity.getD 20
        fileNameBound := settings.fileBound.getD 99
        pidBound := settings.pidBound.getD 256 }
    let refused := config.nameCapacity < 2 ∨ 256 < config.nameCapacity ∨ config.fileNameBound = 0 ∨
      config.pidBound = 0
    let logging := kernel.withLog keep
    let code := (run logging clock directives arguments (s, log)).code
    let traps := (run logging.traced clock directives arguments ((s, log), [])).machine.2
    let bench (blocks : Nat) : Bench (σ × τ) := ⟨{ machine := (s, log) }, Random.ChaCha.words seed blocks⟩
    let ended := Drill.run logging.host config (bench blocks)
    let events := Drill.trace logging.host config (bench blocks)
    (refused → code = some 2 ∧ traps = []) ∧
    (¬ refused →
      traps = Drill.traps logging config (bench blocks) ∧
      (code = some 0 ↔ ∃ t after, ended = .ok t after) ∧
      (code = some 1 ↔ ∃ event ∈ events, event.failure? ≠ none) ∧
      (code ≠ some 0 → code ≠ some 1 → code = none ∧ ∃ stop after, ended = .error stop after ∧
        (stop = .neverReturned ∨ stop = .outOfPatience ∨ stop = .outOfWords ∧
          ∃ x bound, config.bound? x = some bound ∧ Random.draw? bound (bench blocks).words = none)) ∧
      (∀ n, blocks ≤ n → (∀ after, ended ≠ .error .outOfWords after) →
        Drill.trace logging.host config (bench n) = events ∧
          (Drill.verdict (Drill.run logging.host config (bench n))).1 = (Drill.verdict ended).1) ∧
      ∀ call, call.isProcess = true → .unanswered call ∈ events →
        code = none ∧ ∃ before trap, events = before ++ [.unanswered call] ∧ call.trap? = some trap ∧
          traps = trapsOf before ++ [trap] ∧
          Drill.ShownBefore logging.host config (bench blocks) call before ∧
          ∀ resumed : TrapHandler σ, resumed.Resumes kernel →
            traps <+: Drill.traps (resumed.withLog keep) config (bench blocks)) := by
  intro config refused logging code traps bench ended events
  have valid_iff : config.Valid ↔ ¬ refused := by
    simp only [refused, not_or, Nat.not_lt]
    exact ⟨fun ⟨low, high, file, pid⟩ => ⟨low, high, file, pid⟩, fun ⟨low, high, file, pid⟩ => ⟨low, high, file, pid⟩⟩
  refine ⟨fun bad => run_refused kernel keep parsed given (fun valid => valid_iff.1 valid bad) s log, fun good => ?_⟩
  have valid := valid_iff.2 good
  have code_eq : code = exitCode (Drill.verdict ended).1 := code_of_run kernel keep parsed given valid s log
  have traps_eq : traps = Drill.traps logging config (bench blocks) :=
    traps_of_run kernel keep parsed given valid s log
  refine ⟨traps_eq, code_eq ▸ exitCode_eq_zero_iff, code_eq ▸ exitCode_eq_one_iff, ?_, ?_, ?_⟩
  · intro other other'
    rw [code_eq] at other other' ⊢
    exact exitCode_of_stop valid other other'
  · intro n more enough
    obtain ⟨rest, longer⟩ := Random.ChaCha.words_prefix seed more
    have supplied : Bench.Supplied rest (bench blocks) (bench n) := ⟨rfl, longer.symm⟩
    exact Drill.run_more_words supplied enough
  · intro call process mem
    obtain ⟨before, last, shown⟩ := Drill.told_before_unanswered process mem
    obtain ⟨trap, made, issued⟩ := Drill.traps_of_unanswered last
    obtain ⟨-, after, -, stopped⟩ := Drill.last_of_unanswered mem
    refine ⟨?_, before, trap, last, made, traps_eq.trans issued, shown, ?_⟩
    · rw [code_eq]
      show exitCode (Drill.verdict (Drill.run logging.host config (bench blocks))).1 = none
      rw [stopped]
      rfl
    · intro resumed resumes
      rw [traps_eq]
      exact Drill.traps_resumed resumes keep config (bench blocks)

/-- An exercise without a request is chosen, and the halt does not come back. -/
theorem halt_ends_process :
    let machine : Machine := { reads := [.bytes [51, 10]], halts := .ends }
    let keep (record : Log.Record) (log : List Log.Record) := log ++ [record]
    let arguments := ["-v", "--seed", "7", "--pid-bound=8"]
    parse arguments = .ok { seed := some 7, pidBound := some 8, verbosity := 1 } ∧
      (run (Machine.kernel.withLog keep) 0 none arguments (machine, [])).code = none ∧
      ∃ before, (run (Machine.kernel.withLog keep).traced 0 none arguments ((machine, []), [])).machine.2 =
        before ++ [.halt] := by
  intro machine keep arguments
  have parsed : parse arguments = .ok { seed := some 7, pidBound := some 8, verbosity := 1 } := by cbv
  have hangs (words : List UInt32) :
      (Drill.trace (Machine.kernel.withLog keep).host ⟨20, 99, 8⟩ ⟨{ machine := (machine, []) }, words⟩).getLast? =
        some (.unanswered .halt) := by
    cbv
  have mem : .unanswered .halt ∈ Drill.trace (Machine.kernel.withLog keep).host ⟨20, 99, 8⟩
      ⟨{ machine := (machine, []) }, Random.ChaCha.words 7 blocks⟩ :=
    List.mem_of_getLast? (hangs _)
  have made := (run_makes_drill Machine.kernel keep 0 none arguments machine [] _ 7 parsed rfl).2 (by decide)
  obtain ⟨-, -, -, -, -, ends⟩ := made
  obtain ⟨code, before, trap, -, halt, issued, -⟩ := ends .halt rfl mem
  obtain rfl : Trap.halt = trap := Option.some_inj.1 halt
  exact ⟨parsed, code, trapsOf before, issued⟩

end CommandLine.Program

end ProcessDrill
