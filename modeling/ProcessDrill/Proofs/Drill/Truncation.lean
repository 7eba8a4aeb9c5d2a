import ProcessDrill.Proofs.Drill.Series
import ProcessDrill.Proofs.Machine.Scripts
/-!
# Drills with writes that fail

A write that fails only cuts a drill short, and short writes do not show.

Main statement: `run_truncated`, for a second machine that is the first one but for its writes, which take all they are
offered, and a drill from any bench.
* Its output on the first machine is a beginning of the output on the second, and so is all else in its record: the
  reads, the calls with their arguments and answers, the log.
* If no write on the first machine failed or took nothing, however short they were, the output and all else are the
  same, the drill ends alike with the same random words left, and it leaves the same behind.
-/

namespace ProcessDrill.Drill

set_option autoImplicit false

variable {σ τ : Type} {first : Host σ} {second : Host τ} {R : σ → τ → Prop} {b : Bench σ} {c : Bench τ}

theorem run_shortened (repaired : first.Repaired second R) (config : Config)
    (related : Bench.Related R b c) :
    Shortened R (run first.recorded config b.recorded) (run second.recorded config c.recorded) := by
  obtain ⟨⟨machine, pending, atEnd⟩, words⟩ := related
  rw [← Plan.follow_drill, ← Plan.follow_drill]
  exact repaired.follow (Plan.drill config) ⟨⟨⟨machine, rfl, rfl⟩, pending, atEnd⟩, words⟩

theorem verdict_recorded (host : Host σ) (config : Config) (bench : Bench σ) :
    verdict (run host.recorded config bench.recorded) = verdict (run host config bench) := by
  have alike := run_recorded host config bench
  rw [Bench.related_eq_over] at alike
  exact verdict_alike alike

/-- A drill with writes that fail is cut short, and else it is the drill of a machine whose writes take all they are
offered. -/
theorem run_truncated (repaired : first.Repaired second R) (config : Config)
    (related : Bench.Related R b c) :
    let events := trace first config b
    let whole := trace second config c
    accepted events <+: accepted whole ∧
    leaveOut Call.isWrite events <+: leaveOut Call.isWrite whole ∧
    ((∀ event ∈ events, event.IsWrite → event.stop? = none) →
      accepted events = accepted whole ∧
      leaveOut Call.isWrite events = leaveOut Call.isWrite whole ∧
      verdict (run first config b) = verdict (run second config c) ∧
      Bench.Related R (left first config b) (left second config c)) := by
  have shortened := run_shortened repaired config related
  have last := left_recorded first config b
  have last' := left_recorded second config c
  rw [← verdict_recorded first, ← verdict_recorded second, trace_eq_record, trace_eq_record]
  rw [left] at last last'
  dsimp only
  rw [left, left]
  generalize run first.recorded config b.recorded = r, run second.recorded config c.recorded = r' at *
  cases shortened with
  | alike alike =>
    obtain ⟨⟨level, pending, atEnd⟩, words⟩ := alike.leftBy
    have machine := level.machine
    have output : accepted (leftBy r).record = accepted (leftBy r').record := level.output
    have others : leaveOut Call.isWrite (leftBy r).record = leaveOut Call.isWrite (leftBy r').record :=
      level.others
    rw [last.console.machine, last'.console.machine] at machine
    rw [last.console.pending, last'.console.pending] at pending
    rw [last.console.atEnd, last'.console.atEnd] at atEnd
    rw [last.words, last'.words] at words
    have same : verdict r = verdict r' := by
      rw [Bench.related_eq_over] at alike
      exact verdict_alike alike
    exact ⟨output ▸ List.prefix_rfl, others ▸ List.prefix_rfl,
      fun _ => ⟨output, others, same, ⟨machine, pending, atEnd⟩, words⟩⟩
  | cut cut =>
    refine ⟨cut.output, cut.others, fun succeeded => ?_⟩
    obtain ⟨event, mem, write, stopped⟩ := cut.failed
    have := succeeded event mem write
    rw [this] at stopped
    cases stopped

/-- A line is written, the next one is accepted in part, and what is left of it is refused. -/
theorem fourth_write_fails :
    let bench : Bench Machine := ⟨{ machine := { writes := [.all, .all, .raw 3, .raw (-5)] } }, []⟩
    accepted (trace Machine.direct {} bench) =
        Utf8.encodeLine (menuLine .missingFile) ++ (Utf8.encode (menuLine .nullArguments)).take 3 ∧
      accepted (trace Machine.direct {} bench) <+: accepted (trace Machine.accepting {} bench) := by
  intro bench
  have related : Bench.Related (fun s t => s.unwritten = t.unwritten) bench bench := ⟨⟨rfl, rfl, rfl⟩, rfl⟩
  exact ⟨by cbv, (run_truncated Machine.direct_repaired {} related).1⟩

end ProcessDrill.Drill
