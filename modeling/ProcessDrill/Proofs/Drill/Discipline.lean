import ProcessDrill.Proofs.Console.Discipline
import ProcessDrill.Proofs.Console.Next
import ProcessDrill.Proofs.Console.Reader
import ProcessDrill.Proofs.Drill.Stages
import ProcessDrill.Proofs.Machine.Scripts
import ProcessDrill.Proofs.Plan.Parting
/-!
# The discipline of drills

`Bench.Reached host past bench`: the bench is one that plans have left, one after the other, however they ended,
with `past` on record. Plans are what is done with a bench: operations at its console, and whole drills.

Main statement: `Reached.disciplined`. On such a bench, on any machine:
* 63 bytes are pending at most, and none if the end of the input was found;
* the reads on record all offered an empty buffer of 64 bytes, the end was found if one of them was answered with no
  bytes, and there is no read behind that one;
* a token is read as it would be if the machine could be asked for more only where nothing is pending and the end was
  not found;
* a token that is pending with the blank behind it is taken at once, and the machine is not asked;
* behind the end every operation finds the input closed, at once and with the bench as it was. A drill makes no reads
  and no calls that are none of the console, and if no write fails it prints exactly the menu and ends without a
  selection.
-/

namespace ProcessDrill

set_option autoImplicit false

variable {σ α : Type}

/-! ## Steps that read nothing -/

theorem Event.not_isRead_logged (record : Log.Record) : ¬ (Event.logged record).IsRead := by
  rintro ⟨_, asked⟩
  cases asked

namespace Step

variable {step : Step} {events : List Event}

theorem Word.not_read {result : step.Result} (h : step.Word events result) (other : ∀ limit, step ≠ .token limit) :
    ∀ event ∈ events, ¬ event.IsRead := by
  cases step with
  | write bytes => exact fun event mem read => read.not_isWrite (Written.isWrite h event mem)
  | token limit => exact absurd rfl (other limit)
  | ask call process =>
    obtain rfl : events = _ := h
    refine List.forall_mem_singleton.2 ?_
    rintro ⟨buffer, asked⟩
    cases asked
    cases process
  | log record =>
    obtain rfl : events = _ := h
    exact List.forall_mem_singleton.2 (Event.not_isRead_logged record)
  | draw bound =>
    obtain rfl : events = _ := h
    exact nofun

theorem Happens.quiet {before after : Stock} {result : step.Result}
    (h : step.Happens before events result after) (other : ∀ limit, step ≠ .token limit) :
    after.inbox = before.inbox ∧ ∀ event ∈ events, ¬ event.IsRead := by
  refine ⟨?_, h.word.not_read other⟩
  cases step with
  | write bytes => exact congrArg Stock.inbox h.2
  | token limit => exact absurd rfl (other limit)
  | ask call process => exact congrArg Stock.inbox h.2
  | log record => exact congrArg Stock.inbox h.2
  | draw bound => exact h.2.2

theorem Breaks.quiet {host : Host σ} {before after : Stock} {stop : Stop}
    (h : step.Breaks host before events stop after) (other : ∀ limit, step ≠ .token limit) :
    after.inbox = before.inbox ∧ ∀ event ∈ events, ¬ event.IsRead := by
  constructor
  · cases step with
    | write bytes => exact congrArg Stock.inbox h.2.2
    | token limit => exact absurd rfl (other limit)
    | ask call process => exact congrArg Stock.inbox h.2.2
    | log record => exact h.elim
    | draw bound => exact h.2.1
  · obtain ⟨word, result, complete, cut⟩ := h.cut
    exact cut.forall_call? (P := fun call? => ¬ ∃ buffer, call? = some (.read buffer)) (complete.not_read other)

end Step

/-! ## Orderly benches -/

namespace Bench

/-- Less than a chunk is pending, and the record is watched. -/
def Orderly (bench : Bench (σ × List Event)) : Prop :=
  ProcessDrill.Orderly (Console.chunkSize - 1) bench.record bench.console.inbox

/-- The bench, with a record of what came before. -/
def behind (past : List Event) (bench : Bench σ) : Bench (σ × List Event) where
  console := { bench.console with machine := (bench.console.machine, past) }
  words := bench.words

end Bench

theorem Drill.leftBy_atConsole (session : Session σ α) (bench : Bench σ) :
    leftBy (atConsole session bench) = { bench with console := leftBy (session bench.console) } := by
  rw [atConsole]
  cases session bench.console <;> rfl

theorem Step.perform_orderly (host : Host σ) (step : Step) {bench : Bench (σ × List Event)} (h : bench.Orderly) :
    (leftBy (step.perform host.recorded bench)).Orderly := by
  by_cases reads : ∃ limit, step = .token limit
  · obtain ⟨limit, rfl⟩ := reads
    rw [perform, Drill.leftBy_atConsole]
    exact (Console.readToken_orderly host limit h).leftBy
  · have other (limit : Nat) : step ≠ .token limit := fun eq => reads ⟨limit, eq⟩
    cases run : step.perform host.recorded bench with
    | ok result after =>
      obtain ⟨events, record, happens⟩ := step.perform_ok run
      obtain ⟨same, quiet⟩ := happens.quiet other
      have same : after.console.inbox = bench.console.inbox := same
      show ProcessDrill.Orderly _ after.record after.console.inbox
      rw [record, same]
      exact h.others quiet
    | error stop after =>
      obtain ⟨events, record, breaks⟩ := step.perform_error run
      obtain ⟨same, quiet⟩ := breaks.quiet other
      have same : after.console.inbox = bench.console.inbox := same
      show ProcessDrill.Orderly _ after.record after.console.inbox
      rw [record, same]
      exact h.others quiet

/-- What a plan does behind a past it does without one. -/
theorem Plan.follow_behind (host : Host σ) (plan : Plan α) (past : List Event) (bench : Bench σ) :
    leftBy (plan.follow host.recorded (bench.behind past)) =
      (leftBy (plan.follow host bench)).behind (past ++ plan.trace host bench) := by
  have begun : Bench.Related (fun s t => s.1 = t.1 ∧ s.2 = past ++ t.2) (bench.behind past) bench.recorded :=
    ⟨⟨⟨rfl, (List.append_nil past).symm⟩, rfl, rfl⟩, rfl⟩
  have longer := (plan.agree_follow (simulates_behind host past) _ _ begun).leftBy
  have plain := (follow_recorded host plan bench).leftBy
  rw [trace]
  generalize leftBy (plan.follow host.recorded (bench.behind past)) = first,
    leftBy (plan.follow host.recorded bench.recorded) = second, leftBy (plan.follow host bench) = third at longer plain
  obtain ⟨⟨⟨machine, record⟩, pending, atEnd⟩, words⟩ := longer
  obtain ⟨⟨machine', pending', atEnd'⟩, words'⟩ := plain
  obtain ⟨⟨⟨s, events⟩, left, ended⟩, rest⟩ := first
  simp only at machine record pending atEnd words
  rw [machine, record, pending, atEnd, words, machine', pending', atEnd', words']
  rfl

/-! ## Benches that are reached -/

namespace Bench

inductive Reached (host : Host σ) : List Event → Bench σ → Prop
  | new (machine : σ) (words : List UInt32) : Reached host [] { console := { machine }, words }
  /-- Between plans the machine may have been used otherwise. -/
  | changed {past : List Event} {bench : Bench σ} (before : Reached host past bench) (machine : σ) :
      Reached host past { bench with console := { bench.console with machine } }
  | followed {α : Type} {past : List Event} {bench : Bench σ} (before : Reached host past bench) (plan : Plan α) :
      Reached host (past ++ plan.trace host bench) (leftBy (plan.follow host bench))

namespace Reached

variable {host : Host σ} {past : List Event} {bench : Bench σ}

theorem orderly (h : Reached host past bench) : (bench.behind past).Orderly := by
  induction h with
  | new machine words => exact ⟨Nat.zero_le _, fun _ => rfl, .nil⟩
  | changed before machine ih => exact ih
  | @followed α past bench before plan ih =>
    rw [← plan.follow_behind]
    exact plan.follow_keeps (fun step _ => step.perform_orderly host) ih

theorem written (h : Reached host past bench) (bytes : List UInt8) :
    Reached host (past ++ Session.record (Console.writeAll host.recorded bytes) bench.console)
      { bench with console := leftBy (Console.writeAll host bytes bench.console) } := by
  have := h.followed (Plan.single (.write bytes))
  rw [Plan.trace, Plan.follow_single, Plan.follow_single, Step.perform, Step.perform, Drill.leftBy_atConsole,
    Drill.leftBy_atConsole] at this
  exact this

theorem performed (h : Reached host past bench) (operation : Console.Operation) :
    Reached host (past ++ Session.record (operation.perform host.recorded) bench.console)
      { bench with console := leftBy (operation.perform host bench.console) } := by
  have := h.followed (Plan.single (.token operation.limit))
  rw [Plan.trace, Plan.follow_single, Plan.follow_single, Step.perform, Step.perform, Drill.leftBy_atConsole,
    Drill.leftBy_atConsole] at this
  rw [operation.perform_eq, operation.perform_eq, Session.record_bind_pure, Session.leftBy_bind_pure]
  exact this

theorem drilled (h : Reached host past bench) (config : Config) :
    Reached host (past ++ Drill.trace host config bench) (Drill.left host config bench) := by
  rw [Drill.trace_eq, Drill.left, ← Plan.follow_drill]
  exact h.followed (Plan.drill config)

end Reached

end Bench

/-! ## Plans that write -/

def Step.isWrite : Step → Bool
  | write _ => true
  | _ => false

namespace Plan

variable {host : Host σ} {plan : Plan α} {events : List Event}

theorem Only.writes_of_happens (h : plan.Only fun s => s.isWrite = true) {before after : Stock} {a : α}
    (along : Along Step.Happens plan before events a after) :
    after = before ∧ ∀ event ∈ events, event.IsWrite := by
  induction plan generalizing before events with
  | done b =>
    obtain ⟨rfl, -, rfl⟩ := along
    exact ⟨rfl, nofun⟩
  | step s next ih =>
    obtain ⟨first, result, middle, more, here, rest, rfl⟩ := along
    obtain ⟨rfl, later⟩ := ih result (h.2 result) rest
    cases s with
    | write bytes =>
      obtain ⟨written, rfl⟩ := here
      exact ⟨rfl, List.forall_mem_append.2 ⟨written.isWrite, later⟩⟩
    | _ => cases h.1

/-- A plan that only writes is broken off by a write that fails. -/
theorem Only.writes_of_breaks (h : plan.Only fun s => s.isWrite = true) {before after : Stock} {stop : Stop}
    (breaks : plan.Breaks host before events stop after) :
    (∀ event ∈ events, event.IsWrite) ∧ ∃ event ∈ events, event.stop? = some stop := by
  induction plan generalizing before events with
  | done b => exact breaks.elim
  | step s next ih =>
    cases s with
    | write bytes =>
      rcases breaks with ⟨stops, forced, -⟩ | ⟨first, result, middle, more, ⟨written, -⟩, rest, rfl⟩
      · obtain ⟨word, written, cut⟩ := stops.cut
        refine ⟨cut.forall_call? (P := fun call? => ∃ bytes, call? = some (.write bytes)) written.isWrite, ?_⟩
        cases stops.ends with
        | @forced before last _ _ failed => exact ⟨last, by simp, failed⟩
        | _ => cases forced
      · obtain ⟨writes, event, mem, failed⟩ := ih result (h.2 result) rest
        exact ⟨List.forall_mem_append.2 ⟨written.isWrite, writes⟩, event, List.mem_append_right _ mem, failed⟩
    | _ => cases h.1

end Plan

/-! ## Behind the end of the input -/

theorem Console.Operation.perform_of_ended (host : Host σ) (operation : Operation) {c : Console σ}
    (empty : c.pending = []) (ended : c.atEnd = true) :
    operation.perform host c = .ok (.error .closed) c := by
  have closed := operation.judge_given none
  rw [operation.perform_eq, Session.bind_apply, readToken_of_ended operation.limit empty ended]
  exact congrArg (EStateM.Result.ok · c) closed

namespace Drill

def unusable : Log.Record :=
  ⟨.warn, .drill, "no usable selection: " ++ InputError.closed.message⟩

theorem readSelection_of_ended (host : Host σ) {c : Console σ} (empty : c.pending = []) (ended : c.atEnd = true) :
    readSelection host c = .ok none { c with machine := host.log unusable c.machine } := by
  have closed : Console.readInt host c = .ok (.error .closed) c := by
    rw [Console.readInt_eq, Session.bind_apply, Console.readToken_of_ended _ empty ended]
    rfl
  rw [readSelection, Session.bind_apply, closed]
  rfl

theorem selection_of_ended (host : Host σ) {bench : Bench σ} (empty : bench.console.pending = [])
    (ended : bench.console.atEnd = true) :
    (∃ after, Plan.selection.follow host bench = .ok none after) ∧
      Plan.selection.trace host bench = [.logged unusable] := by
  constructor
  · rw [Plan.follow_selection, atConsole, readSelection_of_ended host empty ended]
    exact ⟨_, rfl⟩
  · have recorded := readSelection_of_ended host.recorded (c := bench.console.recorded) empty ended
    rw [Plan.trace, Plan.follow_selection, leftBy_atConsole, Bench.recorded, recorded]
    rfl

/-- A drill that begins at the end of the input reads nothing and makes no calls that are none of the console. It
prints the menu and ends without a selection, unless a write fails. -/
theorem run_of_ended (host : Host σ) (config : Config) {bench : Bench σ} (empty : bench.console.pending = [])
    (ended : bench.console.atEnd = true) :
    let events := trace host config bench
    (∀ event ∈ events, ¬ event.IsRead) ∧ processCalls events = [] ∧
      ((∀ event ∈ events, event.IsWrite → event.stop? = none) →
        accepted events = (Exercise.menu.map menuLine).flatMap Utf8.encodeLine ∧
          ∃ after, run host config bench = .ok .noSelection after) := by
  have quiet {events : List Event} (writes : ∀ event ∈ events, event.IsWrite) :
      (∀ event ∈ events, ¬ event.IsRead) ∧ processCalls events = [] :=
    ⟨fun event mem read => read.not_isWrite (writes event mem),
      processCalls_of_console fun event mem => .inr (writes event mem)⟩
  have only : (Plan.printLines (Exercise.menu.map menuLine)).Only fun s => s.isWrite = true :=
    Plan.only_printLines (fun _ => rfl) _
  dsimp only
  rw [trace_eq, ← Plan.follow_drill, Plan.drill_eq]
  cases shown : (Plan.printLines (Exercise.menu.map menuLine)).follow host bench with
  | error stop after =>
    have chosen : Plan.choice.follow host bench = .error stop after := Plan.follow_bind_error shown
    obtain ⟨writes, event, mem, failed⟩ := only.writes_of_breaks (Plan.breaks_of_follow shown)
    rw [Plan.trace_bind_error chosen, Plan.choice, Plan.trace_bind_error shown]
    refine ⟨(quiet writes).1, (quiet writes).2, fun succeeds => ?_⟩
    rw [succeeds event mem (writes event mem)] at failed
    cases failed
  | ok shown' middle =>
    obtain ⟨same, writes⟩ := only.writes_of_happens (Plan.happens_of_follow shown)
    have inbox : middle.console.inbox = bench.console.inbox := congrArg Stock.inbox same
    have empty' : middle.console.pending = [] := (congrArg Inbox.pending inbox).trans empty
    have ended' : middle.console.atEnd = true := (congrArg Inbox.atEnd inbox).trans ended
    obtain ⟨⟨after, selected⟩, noted⟩ := selection_of_ended host empty' ended'
    have chosen : Plan.choice.follow host bench = .ok none after := (Plan.follow_bind_ok shown).trans selected
    have events : (Plan.choice >>= Plan.pursue config).trace host bench =
        (Plan.printLines (Exercise.menu.map menuLine)).trace host bench ++ [.logged unusable] := by
      rw [Plan.trace_bind_ok chosen, Plan.choice, Plan.trace_bind_ok shown, noted]
      exact List.append_nil _
    rw [events]
    refine ⟨?_, ?_, fun _ => ⟨?_, after, (Plan.follow_bind_ok chosen).trans rfl⟩⟩
    · exact List.forall_mem_append.2 ⟨(quiet writes).1, List.forall_mem_singleton.2 (Event.not_isRead_logged unusable)⟩
    · rw [processCalls_append, (quiet writes).2]
      rfl
    · rw [accepted_append, (Plan.word_printLines (Plan.word_of_follow shown)).accepted_eq]
      exact List.append_nil _

end Drill

/-! ## The discipline -/

namespace Bench

open Console (Operation readToken readTokenBy refill)

/-- What holds of a bench that plans have left, in any number and however they ended, on any machine. -/
theorem Reached.disciplined {host : Host σ} {past : List Event} {bench : Bench σ}
    (reached : Reached host past bench) :
    let c := bench.console
    c.pending.length ≤ 63 ∧ (c.atEnd = true → c.pending = []) ∧
    (∀ event ∈ past, event.IsRead → event.call? = some (.read (Buffer.zeros 64))) ∧
    (c.atEnd = true ↔ ∃ event ∈ past, event.IsEnd) ∧
    (∀ before last after, past = before ++ last :: after → last.IsEnd → ∀ event ∈ after, ¬ event.IsRead) ∧
    (∀ (limit : Nat) (more : Session σ Bool),
      (∀ d : Console σ, d.pending = [] → d.atEnd = false → more d = refill host d) →
      readTokenBy host more (fun token => token.extend limit) = readToken host limit) ∧
    (∀ limit used ink rest, c.pending = used ++ rest → Text.Taken used (some ink) false →
      readToken host limit c = .ok (.ok (Token.kept limit ink)) { c with pending := rest }) ∧
    (c.atEnd = true →
      (∀ operation : Operation, operation.perform host c = .ok (.error .closed) c) ∧
      ∀ config : Config, let events := Drill.trace host config bench
        (∀ event ∈ events, ¬ event.IsRead) ∧ processCalls events = [] ∧
        ((∀ event ∈ events, event.IsWrite → event.stop? = none) →
          accepted events = (Exercise.menu.map Drill.menuLine).flatMap Utf8.encodeLine ∧
            ∃ after, Drill.run host config bench = .ok .noSelection after)) := by
  have orderly := reached.orderly
  refine ⟨orderly.room, orderly.ended, orderly.watched.chunk, orderly.watched.ended_iff, ?_, ?_, ?_, ?_⟩
  · exact fun before last after split ended => orderly.watched.not_read_behind split ended
  · intro limit more asks
    exact Console.readTokenBy_eq (fun d idle => asks d idle.1 idle.2) fun _ _ _ => rfl
  · intro limit used ink rest pending taken
    exact Console.readToken_of_pending limit pending taken
  · intro ended
    have empty : bench.console.pending = [] := orderly.ended ended
    exact ⟨fun operation => operation.perform_of_ended host empty ended,
      fun config => Drill.run_of_ended host config empty ended⟩

/-- A program's name is asked for and typed, and there is no other input. -/
def asked : Console Machine :=
  leftBy (Console.writeAll Machine.direct [62] { machine := { reads := [.bytes [97, 32]] } })

/-- The bench behind a drill that finds the end of the input. -/
def drained : Bench Machine :=
  Drill.left Machine.direct {} { console := leftBy ((Operation.name 5).perform Machine.direct asked), words := [] }

theorem end_found_once :
    drained.console.pending = [] ∧
      (Operation.int).perform Machine.direct drained.console = .ok (.error .closed) drained.console ∧
      accepted (Drill.trace Machine.direct {} drained) =
        (Exercise.menu.map Drill.menuLine).flatMap Utf8.encodeLine ∧
      ∃ after, Drill.run Machine.direct {} drained = .ok .noSelection after := by
  have new : Reached Machine.direct [] { console := { machine := { reads := [.bytes [97, 32]] } }, words := [] } :=
    .new _ _
  have reached := ((new.written [62]).performed (.name 5)).drilled {}
  have ended : drained.console.atEnd = true := by
    decide +kernel
  have clean : ∀ event ∈ Drill.trace Machine.direct {} drained, event.stop? = none := by
    decide +kernel
  obtain ⟨-, empty, -, -, -, -, -, behind⟩ := reached.disciplined
  obtain ⟨closed, drills⟩ := behind ended
  obtain ⟨-, -, shown⟩ := drills {}
  obtain ⟨menu, run⟩ := shown fun event mem _ => clean event mem
  exact ⟨empty ended, closed .int, menu, run⟩

end Bench

end ProcessDrill
