import ProcessDrill.Proofs.Drill.Series
import ProcessDrill.Proofs.Machine.Scripts
/-!
# Drills on the same input in other pieces

Two machines deliver the same input, cut into reads in two ways, and answer alike in everything else.
* `Drill.run_shared`: a drill on the one and a drill on the other leave records that are the same but for reads.
* `Drill.run_uses` and `Drill.run_stops`: what a drill uses up of the input, and what can stop it.

Main statement: `series_recut`, for a series of any number of drills, from consoles with the same input ahead.
* The drills end alike on either machine, with the same random words left, and their records are the same but for
  reads: the same output, the same calls with the same answers, the same log.
* A drill that comes to its end has taken the first token ahead as its selection, which decides the exercise, and one
  token more exactly if this exercise asks for an answer. The next drill begins at the token behind.
* A drill is only stopped by a write that fails, by a call that does not return, or as the random words run out.
-/

namespace ProcessDrill

set_option autoImplicit false

variable {σ τ : Type}

theorem Event.isConsole_of_failure? {event : Event} {e : Errno} (h : event.failure? = some e) :
    event.IsConsole := by
  cases event with
  | answered call answer =>
    cases call with
    | read buffer => exact .inl ⟨buffer, rfl⟩
    | write bytes => exact .inr ⟨bytes, rfl⟩
    | _ => cases h
  | unanswered call => cases h
  | logged record => cases h

/-- Reads take no output. -/
theorem accepted_leaveOut_reads (events : List Event) :
    accepted (leaveOut Call.isRead events) = accepted events := by
  induction events with
  | nil => rfl
  | cons event events ih =>
    rw [← List.singleton_append, leaveOut_append, accepted_append, accepted_append, ih]
    congr 1
    match event with
    | .answered (.read buffer) answer => rfl
    | .answered (.exec _ _) _ => rfl
    | .answered (.join _) _ => rfl
    | .answered (.exit _) _ => rfl
    | .answered .halt _ => rfl
    | .answered (.write _) _ => rfl
    | .unanswered call => cases call <;> rfl
    | .logged _ => rfl

namespace Drill

variable {first : Host σ} {second : Host τ} {input : σ → List UInt8} {input' : τ → List UInt8}
variable {R : σ → τ → Prop} {config : Config} {b : Bench σ} {c : Bench τ}

/-! ## One drill -/

section

variable (recuts : first.Recuts second input input' R)
variable (related : Bench.Over (Console.Shared R input input') b c)
include recuts related

/-- The records of the two drills. The first has got the input that is gone from its machine. -/
theorem run_shared (config : Config) :
    leaveOut Call.isRead (trace first config b) = leaveOut Call.isRead (trace second config c) ∧
      delivered (trace first config b) ++ input (left first config b).console.machine =
        input b.console.machine ∧
      ∀ event ∈ trace first config b, event.IsRead → event.failure? = none := by
  have recorded := recuts.recorded (input b.console.machine)
  have begun : Bench.Over (Console.Shared (Tally R input (input b.console.machine))
      (fun s => input s.1) (fun t => input' t.1)) b.recorded c.recorded := by
    obtain ⟨machine, ahead, ended, ended'⟩ := related.console
    exact ⟨⟨⟨machine, rfl, rfl, by simp [Bench.recorded, Console.recorded]⟩, ahead, ended, ended'⟩,
      related.words⟩
  have last := left_agree (agree_run recorded.agree_perform config) begun
  obtain ⟨-, same, brought, unrefused⟩ := last.console.machine
  rw [trace_eq_record, trace_eq_record, ← (left_recorded first config b).console.machine]
  exact ⟨same, brought, unrefused⟩

/-- A drill that comes to its end has taken the first token as its selection and, if the chosen exercise asks
for an answer, the second, be they of use or not; the others are still ahead. -/
theorem run_uses {t : Termination} {after : Bench σ} (h : run first config b = .ok t after) :
    t.exercise? = ((Text.tokens (b.console.ahead input))[0]?.bind Token.integer?).bind Exercise.ofNumber? ∧
      Text.tokens (after.console.ahead input) = (Text.tokens (b.console.ahead input)).drop t.uses := by
  have last := left_agree (agree_run recuts.agree_perform config) related
  have brought := (run_shared recuts related config).2.1
  rw [left_of_ok h] at last brought
  have uses := Plan.uses_of_happens (run_ok h) last.console.ended
  rw [brought] at uses
  obtain ⟨phases, -, -, -, course⟩ := Plan.course_of_uses uses
  obtain ⟨selected, rest⟩ := course.uses
  rw [Source.exercise?, List.head?_eq_getElem?] at selected
  exact ⟨selected, rest⟩

/-- Nothing stops a drill but a write that fails, a call that does not return, or the want of random words. -/
theorem run_stops (valid : config.Valid) {stop : Stop} {after : Bench σ}
    (h : run first config b = .error stop after) :
    stop = .neverReturned ∨ stop = .outOfWords ∨
      ∃ event ∈ trace first config b, event.IsWrite ∧ event.failure?.isSome := by
  have followed := h
  rw [← Plan.follow_drill] at followed
  rcases recuts.follow_error (Plan.inRange_drill valid) related followed with forced | outOfWords
  · cases stop with
    | console e =>
      obtain ⟨past, event, traced, failed, -⟩ := last_of_run_fails h
      have mem : event ∈ trace first config b := by
        rw [traced]
        exact List.mem_append_right _ (List.mem_singleton_self _)
      refine .inr (.inr ⟨event, mem, ?_, by rw [failed]; rfl⟩)
      refine (Event.isConsole_of_failure? failed).resolve_left fun read => ?_
      have := (run_shared recuts related config).2.2 event mem read
      rw [failed] at this
      cases this
    | neverReturned => exact .inl rfl
    | _ => cases forced
  · exact .inr (.inl outOfWords)

end

/-! ## A series of drills -/

/-- Drills on machines that deliver the same input, cut in two ways, and answer alike in all but reads, end alike with the
same output, calls and log. -/
theorem series_recut {first : Host σ} {second : Host τ} {input : σ → List UInt8} {input' : τ → List UInt8}
    {R : σ → τ → Prop} (recuts : first.Recuts second input input' R) {config : Config}
    (valid : config.Valid) {b : Bench σ} {c : Bench τ}
    (related : Bench.Over (Console.Shared R input input') b c) (n : Nat) :
    (series first config n b).map verdict = (series second config n c).map verdict ∧
    ∀ i,
      let bench := benchAt first config b i
      let events := trace first config bench
      let tokens := Text.tokens (bench.console.ahead input)
      leaveOut Call.isRead events =
          leaveOut Call.isRead (trace second config (benchAt second config c i)) ∧
        accepted events = accepted (trace second config (benchAt second config c i)) ∧
        (∀ t after, run first config bench = .ok t after →
          t.exercise? = (tokens[0]?.bind Token.integer?).bind Exercise.ofNumber? ∧
          benchAt first config b (i + 1) = after ∧
          Text.tokens (after.console.ahead input) =
            tokens.drop (if t.exercise?.any Exercise.asks then 2 else 1)) ∧
        (∀ stop after, run first config bench = .error stop after →
          stop = .neverReturned ∨ stop = .outOfWords ∨
            ∃ event ∈ events, event.IsWrite ∧ event.failure?.isSome) := by
  have agree := agree_run recuts.agree_perform config
  refine ⟨series_agree agree related n, fun i => ?_⟩
  have here := benchAt_agree agree related i
  have same := (run_shared recuts here config).1
  refine ⟨same, ?_, fun t after h => ?_, fun stop after h => run_stops recuts here valid h⟩
  · rw [← accepted_leaveOut_reads, same, accepted_leaveOut_reads]
  · obtain ⟨selected, rest⟩ := run_uses recuts here h
    exact ⟨selected, left_of_ok h, rest⟩

def pieces (reads : List (List UInt8)) : Bench Machine where
  console := { machine := { reads := reads.map .bytes } }
  words := []

/-- The number of an exercise and the name of a program arrive in pieces, and a second drill finds nothing. -/
theorem typed_in_pieces :
    (series Machine.direct {} 2 (pieces [[53], [32, 97], [98, 10]])).map verdict =
      [(.ok (.haltRefused .runProgram .eperm), []), (.ok .noSelection, [])] := by
  have valid : ({} : Config).Valid := by decide
  have feeding : Delivery.Feeding (pieces [[53], [32, 97], [98, 10]]).console.machine.reads := by
    simp [Delivery.Feeding, pieces]
  have feeding' : Delivery.Feeding (pieces [[53, 32, 97, 98, 10]]).console.machine.reads := by
    simp [Delivery.Feeding, pieces]
  have shared : Bench.Over (Console.Shared Machine.SameButReads (fun m => Delivery.input m.reads)
      fun m => Delivery.input m.reads) (pieces [[53], [32, 97], [98, 10]]) (pieces [[53, 32, 97, 98, 10]]) :=
    ⟨⟨⟨rfl, feeding, feeding'⟩, rfl, nofun, nofun⟩, rfl⟩
  exact (series_recut Machine.direct_recuts valid shared 2).1.trans (by cbv)

end Drill

end ProcessDrill
