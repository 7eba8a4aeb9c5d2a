import ProcessDrill.Proofs.Plan.Parting
/-!
# Writes that fail

`first.Repaired second R`: the second machine is the first one but for its writes, which take all they are
offered. `Shortened`: what a computation comes to on the first machine is what it comes to on the second, or it
was cut short by a write that failed. Main statement: `Host.Repaired.follow`, a write that fails cuts a plan
short, and as long as none does, it makes no difference how few bytes each of them takes.
-/

namespace ProcessDrill

set_option autoImplicit false

variable {σ τ α β : Type}

/-! ## Machines -/

structure Host.Repaired (first : Host σ) (second : Host τ) (R : σ → τ → Prop) : Prop where
  answer : ∀ call s t, call.isWrite = false → R s t →
    (first.answer call s).1 = (second.answer call t).1 ∧
      R (first.answer call s).2 (second.answer call t).2
  log : ∀ record s t, R s t → R (first.log record s) (second.log record t)
  patience : ∀ s t, R s t → first.patience s = second.patience t
  faulty : ∀ bytes s t, R s t → R (first.answer (.write bytes) s).2 t
  whole : ∀ bytes s t, R s t → (second.answer (.write bytes) t).1 = some (.ok bytes.length) ∧
    R s (second.answer (.write bytes) t).2

/-! ## Records -/

/-- The records have the same output, in whatever pieces, and are the same but for writes. -/
structure Level (R : σ → τ → Prop) (s : σ × List Event) (t : τ × List Event) : Prop where
  machine : R s.1 t.1
  output : accepted s.2 = accepted t.2
  others : leaveOut Call.isWrite s.2 = leaveOut Call.isWrite t.2

/-- A write has failed, and the record is a beginning of the whole one, in its output and in all else. -/
structure CutShort (events whole : List Event) : Prop where
  output : accepted events <+: accepted whole
  others : leaveOut Call.isWrite events <+: leaveOut Call.isWrite whole
  failed : ∃ event ∈ events, event.IsWrite ∧ event.stop?.isSome

theorem CutShort.extend {events whole : List Event} (h : CutShort events whole) (more : List Event) :
    CutShort events (whole ++ more) where
  output := by
    rw [accepted_append]
    exact h.output.trans (List.prefix_append _ _)
  others := by
    rw [leaveOut_append]
    exact h.others.trans (List.prefix_append _ _)
  failed := h.failed

section

variable {R : σ → τ → Prop} {s s' : σ} {t t' : τ} {past past' : List Event}

theorem Level.concat (h : Level R (s, past) (t, past')) (machine : R s' t') (event : Event) :
    Level R (s', past ++ [event]) (t', past' ++ [event]) where
  machine := machine
  output := by
    rw [accepted_append, accepted_append]
    exact congrArg (· ++ accepted [event]) h.output
  others := by
    rw [leaveOut_append, leaveOut_append]
    exact congrArg (· ++ leaveOut Call.isWrite [event]) h.others

end

theorem leaveOut_writes {events : List Event} (h : ∀ event ∈ events, event.IsWrite) :
    leaveOut Call.isWrite events = [] := by
  refine leaveOut_eq_nil fun event mem => ?_
  obtain ⟨bytes, asked⟩ := h event mem
  rw [asked]
  rfl

theorem Written.leaveOut_eq {bytes : List UInt8} {events : List Event} (h : Written bytes events) :
    leaveOut Call.isWrite events = [] :=
  leaveOut_writes h.isWrite

/-- Writing that is forced to stop has taken a part of the bytes. -/
theorem Stops.cutShort {bytes : List UInt8} {events whole past past' : List Event} {stop : Stop}
    (stops : Stops (Written bytes) events stop) (forced : stop.isForced = true)
    (written : Written bytes whole) (output : accepted past = accepted past')
    (others : leaveOut Call.isWrite past = leaveOut Call.isWrite past') :
    CutShort (past ++ events) (past' ++ whole) := by
  obtain ⟨word, written', cut⟩ := stops.cut
  have isWrite : ∀ event ∈ events, event.IsWrite :=
    cut.forall_call? (P := fun call => ∃ bytes, call = some (.write bytes)) written'.isWrite
  have part := cut.accepted
  rw [written'.accepted_eq, ← written.accepted_eq] at part
  constructor
  case output =>
    rw [accepted_append, accepted_append, output]
    exact (List.prefix_append_right_inj _).2 part
  case others =>
    have same : leaveOut Call.isWrite (past ++ events) = leaveOut Call.isWrite (past' ++ whole) := by
      rw [leaveOut_append, leaveOut_append, leaveOut_writes isWrite, written.leaveOut_eq, others]
    exact same ▸ List.prefix_rfl
  case failed =>
    have failed := stops.ends.stops
    rw [List.filter_cons_of_pos forced, List.filter_nil] at failed
    have mem : stop ∈ events.filterMap Event.stop? := by
      rw [failed]
      exact List.mem_singleton_self _
    obtain ⟨event, inside, stopped⟩ := List.mem_filterMap.1 mem
    exact ⟨event, List.mem_append_right _ inside, isWrite event inside, by rw [stopped]; rfl⟩

/-! ## Computations that are cut short -/

inductive Shortened (R : σ → τ → Prop) : EStateM.Result Stop (Bench (σ × List Event)) α →
    EStateM.Result Stop (Bench (τ × List Event)) α → Prop
  | alike {r : EStateM.Result Stop (Bench (σ × List Event)) α}
      {r' : EStateM.Result Stop (Bench (τ × List Event)) α} (h : Alike (Bench.Related (Level R)) r r') :
      Shortened R r r'
  | cut {stop : Stop} {after : Bench (σ × List Event)}
      {r' : EStateM.Result Stop (Bench (τ × List Event)) α} (h : CutShort after.record (leftBy r').record) :
      Shortened R (.error stop after) r'

theorem Shortened.of_agree {R : σ → τ → Prop} {f : Drill (σ × List Event) α} {g : Drill (τ × List Event) α}
    (agree : Agree (Bench.Over (Console.Related (Level R))) f g) {b : Bench (σ × List Event)}
    {c : Bench (τ × List Event)} (related : Bench.Related (Level R) b c) : Shortened R (f b) (g c) := by
  refine .alike ?_
  rw [Bench.related_eq_over] at related ⊢
  exact agree b c related

theorem Shortened.parted {R : σ → τ → Prop} {r : EStateM.Result Stop (Bench (σ × List Event)) α}
    {r' : EStateM.Result Stop (Bench (τ × List Event)) α} (h : Shortened R r r') :
    Parted (Bench.Related (Level R)) (fun _ after whole => CutShort after.record whole.record) r r' := by
  cases h with
  | alike alike => exact .alike alike
  | cut cut => exact .stopped cut

theorem Shortened.of_parted {R : σ → τ → Prop} {r : EStateM.Result Stop (Bench (σ × List Event)) α}
    {r' : EStateM.Result Stop (Bench (τ × List Event)) α}
    (h : Parted (Bench.Related (Level R)) (fun _ after whole => CutShort after.record whole.record) r r') :
    Shortened R r r' := by
  cases h with
  | alike alike => exact .alike alike
  | stopped cut => exact .cut cut

namespace Host.Repaired

variable {first : Host σ} {second : Host τ} {R : σ → τ → Prop} (repaired : first.Repaired second R)
include repaired

/-! ## Writing -/

theorem writeAll_whole (bytes : List UInt8) {c : Recording σ} {d : Recording τ}
    (related : Console.Related (Level R) c d) :
    ∃ d', Console.writeAll second.recorded bytes d = .ok () d' := by
  by_cases empty : bytes = []
  · rw [Console.writeAll, dif_pos empty]
    exact ⟨d, rfl⟩
  · obtain ⟨b, rest, rfl⟩ := List.exists_cons_of_ne_nil empty
    have taken := (repaired.whole (b :: rest) _ _ related.machine.machine).1
    have asked := Host.recorded_answer_some taken d.machine.2
    rw [Console.writeAll_eq _ empty, Session.bind_apply, Console.ask, asked]
    show ∃ d', Console.writeAll second.recorded ((b :: rest).drop (rest.length + 1)) _ = .ok () d'
    rw [List.drop_succ_cons, List.drop_length, Console.writeAll, dif_pos rfl]
    exact ⟨_, rfl⟩

theorem writeAll (bytes : List UInt8) {c : Recording σ} {d : Recording τ}
    (related : Console.Related (Level R) c d) :
    ∃ d', Console.writeAll second.recorded bytes d = .ok () d' ∧
      ((∃ c', Console.writeAll first.recorded bytes c = .ok () c' ∧ Console.Related (Level R) c' d') ∨
        ∃ stop c', Console.writeAll first.recorded bytes c = .error stop c' ∧
          CutShort c'.machine.2 d'.machine.2) := by
  obtain ⟨d', run'⟩ := repaired.writeAll_whole bytes related
  obtain ⟨whole, record', written', same'⟩ := (traced_writeAll second bytes d).ok_of_eq run'
  have inbox' := Console.inbox_eq_iff.1 same'
  refine ⟨d', run', ?_⟩
  cases run : Console.writeAll first.recorded bytes c with
  | ok _ c' =>
    obtain ⟨events, record, written, same⟩ := (traced_writeAll first bytes c).ok_of_eq run
    have inbox := Console.inbox_eq_iff.1 same
    refine .inl ⟨c', rfl, ⟨?_, ?_, ?_⟩, ?_, ?_⟩
    · have left : R c'.machine.1 d.machine.1 := by
        have := writeAll_keeps first.recorded (P := fun s => R s.1 d.machine.1) (fun bytes s r => by
          rw [Host.recorded_answer_snd]
          exact repaired.faulty bytes _ _ r) bytes related.machine.machine
        rwa [run] at this
      have right := writeAll_keeps second.recorded (P := fun t => R c'.machine.1 t.1)
        (fun bytes t r => by
          rw [Host.recorded_answer_snd]
          exact (repaired.whole bytes _ _ r).2) bytes left
      rwa [run'] at right
    · rw [record, record', accepted_append, accepted_append, written.accepted_eq, written'.accepted_eq,
        related.machine.output]
    · rw [record, record', leaveOut_append, leaveOut_append, written.leaveOut_eq, written'.leaveOut_eq,
        related.machine.others]
    · exact inbox.1.trans (related.pending.trans inbox'.1.symm)
    · exact inbox.2.trans (related.atEnd.trans inbox'.2.symm)
  | error stop c' =>
    obtain ⟨events, record, stops, forced, -⟩ := (traced_writeAll first bytes c).stopped_of_eq run
    refine .inr ⟨stop, c', rfl, ?_⟩
    rw [record, record']
    exact stops.cutShort forced written' related.machine.output related.machine.others

/-! ## Steps and plans -/

theorem recorded_answer {call : Call} (other : call.isWrite = false) (s : σ × List Event)
    (t : τ × List Event) (level : Level R s t) :
    (first.recorded.answer call s).1 = (second.recorded.answer call t).1 ∧
      Level R (first.recorded.answer call s).2 (second.recorded.answer call t).2 := by
  obtain ⟨s, past⟩ := s
  obtain ⟨t, past'⟩ := t
  obtain ⟨same, next⟩ := repaired.answer call s t other level.machine
  cases h : (first.answer call s).1 with
  | some a =>
    rw [Host.recorded_answer_some h, Host.recorded_answer_some (same.symm.trans h)]
    exact ⟨rfl, level.concat next _⟩
  | none =>
    rw [Host.recorded_answer_none h, Host.recorded_answer_none (same.symm.trans h)]
    exact ⟨rfl, level.concat next _⟩

theorem perform (step : Step) {b : Bench (σ × List Event)} {c : Bench (τ × List Event)}
    (related : Bench.Related (Level R) b c) :
    Shortened R (step.perform first.recorded b) (step.perform second.recorded c) := by
  cases step with
  | write bytes =>
    obtain ⟨d, run', cases⟩ := repaired.writeAll bytes related.console
    simp only [Step.perform, Drill.atConsole, run']
    rcases cases with ⟨c', run, console⟩ | ⟨stop, c', run, cut⟩
    · simp only [run]
      exact .alike (.ok ⟨console, related.words⟩)
    · simp only [run]
      exact .cut cut
  | token limit =>
    refine .of_agree (Agree.atConsole (.readToken (.ask fun s t => ?_) (fun s t level => ?_) limit)) related
    · exact repaired.recorded_answer rfl s t
    · exact repaired.patience _ _ level.machine
  | ask call process =>
    have other : call.isWrite = false := by
      cases call with
      | write bytes => cases process
      | _ => rfl
    exact .of_agree (Agree.atConsole (.ask fun s t => repaired.recorded_answer other s t)) related
  | log record =>
    refine .of_agree (Agree.atConsole (.log (fun record s t level => ?_) _ _ _)) related
    exact level.concat (repaired.log record _ _ level.machine) _
  | draw bound => exact .of_agree (Agree.draw bound) related

theorem follow (plan : Plan α) {b : Bench (σ × List Event)} {c : Bench (τ × List Event)}
    (related : Bench.Related (Level R) b c) :
    Shortened R (plan.follow first.recorded b) (plan.follow second.recorded c) := by
  refine .of_parted (Plan.follow_parted (fun step b c related => (repaired.perform step related).parted) ?_ plan related)
  intro step _ b c cut
  obtain ⟨more, record⟩ := step.record_perform second c
  rw [record]
  exact cut.extend more

end Host.Repaired

end ProcessDrill
