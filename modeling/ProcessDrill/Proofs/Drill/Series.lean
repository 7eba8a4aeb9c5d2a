import ProcessDrill.Proofs.Drill.Dispatch
import ProcessDrill.Proofs.Drill.FailStop
/-!
# Drills one after the other

* `Drill.left` is the bench that a drill leaves behind, `Drill.benchAt` the one on which drill `i` of a series
  begins.
* `Drill.verdict` is what shows of a result: how the drill ended, and the random words that are left.

Main statements: `Course.uses`, a drill uses up one token or two; `series_eq_map`, drill `i` of a series
begins where the ones before it ended; `series_simulates`, machines that answer alike make no difference to a
series.
-/

namespace ProcessDrill

set_option autoImplicit false

variable {σ τ : Type}

/-! ## What a drill uses up -/

namespace Termination

def exercise? : Termination → Option Exercise
  | halted x => some x
  | haltRefused x _ => some x
  | noSelection => none

/-- How many tokens a drill uses up that ends so: one for the selection, and one for an answer if the exercise
asks for one. -/
def uses (t : Termination) : Nat :=
  if t.exercise?.any Exercise.asks then 2 else 1

@[simp]
theorem exercise?_ofHalt (x : Exercise) (answer : Except Errno Unit) :
    (ofHalt x answer).exercise? = some x := by
  cases answer <;> rfl

end Termination

theorem Prepares.tokens_eq {config : Config} {x : Exercise} {before after : Source}
    {prepared : Except InputError (Option Request)} (h : Prepares config before x prepared after) :
    after.tokens = before.tokens.drop (if x.asks then 1 else 0) := by
  have rest : before.rest.tokens = before.tokens.drop 1 := List.drop_one.symm
  cases h with
  | missingFile drawn => rfl
  | execFailure => rfl
  | strangerJoin drawn => rfl
  | _ => exact rest

theorem Course.uses {config : Config} {before after : Source} {phases : Phases} {t : Termination}
    (h : Course config before phases t after) :
    t.exercise? = before.exercise? ∧ after.tokens = before.tokens.drop t.uses := by
  have rest : before.rest.tokens = before.tokens.drop 1 := List.drop_one.symm
  cases h with
  | unselected chosen alone => exact ⟨chosen.symm, rest⟩
  | @selected x prepared answered _ chosen prepares busy =>
    refine ⟨(Termination.exercise?_ofHalt x answered).trans chosen.symm, ?_⟩
    rw [prepares.tokens_eq, rest, List.drop_drop, Termination.uses, Termination.exercise?_ofHalt,
      Option.any_some]
    cases x.asks <;> rfl

/-! ## Series -/

namespace Drill

variable {host : Host σ} {config : Config}

/-- The bench that a drill leaves behind, however it ends. -/
def left (host : Host σ) (config : Config) (bench : Bench σ) : Bench σ :=
  leftBy (run host config bench)

/-- The bench on which a drill of a series begins. -/
def benchAt (host : Host σ) (config : Config) (bench : Bench σ) : Nat → Bench σ
  | 0 => bench
  | i + 1 => left host config (benchAt host config bench i)

/-- What shows of a result: the end of the drill, and the random words that are left. -/
def verdict : EStateM.Result Stop (Bench σ) Termination → Except Stop Termination × List UInt32
  | .ok t after => (.ok t, after.words)
  | .error stop after => (.error stop, after.words)

theorem left_of_ok {bench after : Bench σ} {t : Termination} (h : run host config bench = .ok t after) :
    left host config bench = after := by
  rw [left, h]
  rfl

theorem benchAt_left (bench : Bench σ) (i : Nat) :
    benchAt host config (left host config bench) i = benchAt host config bench (i + 1) := by
  induction i with
  | zero => rfl
  | succ i ih =>
    rw [benchAt, ih]
    rfl

theorem series_succ (n : Nat) (bench : Bench σ) :
    series host config (n + 1) bench =
      run host config bench :: series host config n (left host config bench) := by
  rw [series, left, EStateM.run]
  cases run host config bench <;> rfl

theorem series_eq_map (n : Nat) (bench : Bench σ) :
    series host config n bench =
      (List.range n).map fun i => run host config (benchAt host config bench i) := by
  induction n generalizing bench with
  | zero => rfl
  | succ n ih =>
    rw [series_succ, ih, List.range_succ_eq_map, List.map_cons, List.map_map]
    congr 2
    funext i
    rw [benchAt_left]
    rfl

theorem trace_eq_record (bench : Bench σ) :
    trace host config bench = (left host.recorded config bench.recorded).record := by
  rw [trace, left]
  cases run host.recorded config bench.recorded <;> rfl

theorem left_recorded (host : Host σ) (config : Config) (bench : Bench σ) :
    Bench.Related (fun s t => s.1 = t) (left host.recorded config bench.recorded)
      (left host config bench) :=
  (run_recorded host config bench).leftBy

/-! ## Drills that go alike -/

section Agree

variable {first : Host σ} {second : Host τ} {b : Bench σ} {c : Bench τ}

theorem agree_run {B : Bench σ → Bench τ → Prop}
    (steps : ∀ step : Step, Agree B (step.perform first) (step.perform second)) (config : Config) :
    Agree B (run first config) (run second config) := by
  rw [← Plan.follow_drill, ← Plan.follow_drill]
  exact .follow steps (Plan.drill config)

theorem left_agree {B : Bench σ → Bench τ → Prop}
    (agree : Agree B (run first config) (run second config)) (related : B b c) :
    B (left first config b) (left second config c) :=
  (agree b c related).leftBy

theorem benchAt_agree {B : Bench σ → Bench τ → Prop}
    (agree : Agree B (run first config) (run second config)) (related : B b c) (i : Nat) :
    B (benchAt first config b i) (benchAt second config c i) := by
  induction i with
  | zero => exact related
  | succ i ih => exact left_agree agree ih

theorem verdict_alike {Q : Console σ → Console τ → Prop} {r : EStateM.Result Stop (Bench σ) Termination}
    {r' : EStateM.Result Stop (Bench τ) Termination} (alike : Alike (Bench.Over Q) r r') :
    verdict r = verdict r' := by
  cases alike with
  | ok related => rw [verdict, verdict, related.words]
  | error related => rw [verdict, verdict, related.words]

theorem series_agree {Q : Console σ → Console τ → Prop}
    (agree : Agree (Bench.Over Q) (run first config) (run second config)) (related : Bench.Over Q b c)
    (n : Nat) : (series first config n b).map verdict = (series second config n c).map verdict := by
  rw [series_eq_map, series_eq_map, List.map_map, List.map_map]
  refine List.map_congr_left fun i _ => ?_
  exact verdict_alike (agree _ _ (benchAt_agree agree related i))

theorem trace_simulates {R : σ → τ → Prop} (simulates : first.Simulates second R) (config : Config)
    (related : Bench.Related R b c) : trace first config b = trace second config c := by
  obtain ⟨⟨machine, pending, atEnd⟩, words⟩ := related
  have recorded : Agree _ (run first.recorded config) (run second.recorded config) :=
    agree_run (Step.agree_perform simulates.recorded) config
  have last := left_agree recorded (b := b.recorded) (c := c.recorded) ⟨⟨⟨machine, rfl⟩, pending, atEnd⟩, words⟩
  rw [trace_eq_record, trace_eq_record]
  exact last.console.machine.2

theorem series_simulates {R : σ → τ → Prop} (simulates : first.Simulates second R) (config : Config)
    (related : Bench.Related R b c) (n : Nat) :
    (series first config n b).map verdict = (series second config n c).map verdict ∧
      ∀ i, trace first config (benchAt first config b i) = trace second config (benchAt second config c i) ∧
        Bench.Related R (benchAt first config b i) (benchAt second config c i) := by
  have agree := agree_run (Step.agree_perform simulates) config
  refine ⟨?_, fun i => ?_⟩
  · rw [Bench.related_eq_over] at agree related
    exact series_agree agree related n
  · have here := benchAt_agree agree related i
    exact ⟨trace_simulates simulates config here, here⟩

end Agree

end Drill

end ProcessDrill
