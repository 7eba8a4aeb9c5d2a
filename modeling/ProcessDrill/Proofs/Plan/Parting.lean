import ProcessDrill.Proofs.Plan.Parts
/-!
# Plans that part

The same plan on two benches may go alike on them up to where the first of them stops. `Parted B D` is what comes of
that: the benches are still related by `B`, or the first one has stopped and the second stands to it as `D` says. Main
statements:
* `follow_parted`: a plan parts only where one of its steps does;
* `follow_more_words`: more random words make no difference, unless they ran out;
* `trace_resumed`: on a machine that comes back from more calls, a plan makes the same calls, and goes on.
-/

namespace ProcessDrill

set_option autoImplicit false

variable {σ τ α : Type}

/-! ## Parting -/

inductive Parted {S T : Type} (B : S → T → Prop) (D : Stop → S → T → Prop) :
    EStateM.Result Stop S α → EStateM.Result Stop T α → Prop
  | alike {r : EStateM.Result Stop S α} {r' : EStateM.Result Stop T α} (h : Alike B r r') : Parted B D r r'
  | stopped {stop : Stop} {s : S} {r' : EStateM.Result Stop T α} (h : D stop s (leftBy r')) :
      Parted B D (.error stop s) r'

namespace Plan

/-- What no step changes, a plan does not change. -/
theorem follow_keeps {host : Host σ} {P : Bench σ → Prop}
    (keeps : ∀ (step : Step) (b : Bench σ), P b → P (leftBy (step.perform host b))) (plan : Plan α) {b : Bench σ}
    (here : P b) : P (leftBy (plan.follow host b)) := by
  induction plan generalizing b with
  | done a => exact here
  | step s next ih =>
    have next := keeps s b here
    rw [follow]
    simp only [Bind.bind, EStateM.bind]
    generalize s.perform host b = r at next
    cases r with
    | ok result middle => exact ih result next
    | error stop middle => exact next

theorem follow_parted {first : Host σ} {second : Host τ} {B : Bench σ → Bench τ → Prop}
    {D : Stop → Bench σ → Bench τ → Prop}
    (steps : ∀ (step : Step) (b : Bench σ) (c : Bench τ), B b c →
      Parted B D (step.perform first b) (step.perform second c))
    (keeps : ∀ (step : Step) (stop : Stop) (b : Bench σ) (c : Bench τ), D stop b c →
      D stop b (leftBy (step.perform second c)))
    (plan : Plan α) {b : Bench σ} {c : Bench τ} (related : B b c) :
    Parted B D (plan.follow first b) (plan.follow second c) := by
  -- Behind the step at which they part only the second plan goes on, and `D` outlasts what it does.
  induction plan generalizing b c with
  | done a => exact .alike (.ok related)
  | step s next ih =>
    have here := steps s b c related
    rw [follow, follow]
    simp only [Bind.bind, EStateM.bind]
    generalize s.perform first b = r, s.perform second c = r' at here
    cases here with
    | alike alike =>
      cases alike with
      | ok related => exact ih _ related
      | error related => exact .alike (.error related)
    | @stopped stop middle _ parted =>
      refine .stopped ?_
      cases r' with
      | ok result last => exact follow_keeps (fun step c => keeps step stop middle c) (next result) parted
      | error stop last => exact parted

end Plan

/-! ## More random words -/

/-- The second bench is the first one with more random words behind its own. -/
structure Bench.Supplied (more : List UInt32) (first second : Bench σ) : Prop where
  console : second.console = first.console
  words : second.words = first.words ++ more

theorem Random.draw?_append {bound value : UInt32} {words rest : List UInt32}
    (h : draw? bound words = some (value, rest)) (more : List UInt32) :
    draw? bound (words ++ more) = some (value, rest ++ more) := by
  induction words with
  | nil => cases h
  | cons word words ih =>
    rw [List.cons_append, draw?]
    rw [draw?] at h
    split at h
    · next fits =>
      cases h
      exact if_pos fits
    · next large => exact (if_neg large).trans (ih h)

theorem Step.perform_more_words (host : Host σ) (step : Step) (more : List UInt32) {b c : Bench σ}
    (supplied : Bench.Supplied more b c) :
    Parted (Bench.Supplied more) (fun stop _ _ => stop = .outOfWords) (step.perform host b)
      (step.perform host c) := by
  obtain ⟨console, words⟩ := supplied
  have same (session : Session σ step.Result) :
      Alike (Bench.Supplied more) (Drill.atConsole session b) (Drill.atConsole session c) := by
    rw [Drill.atConsole, Drill.atConsole, console]
    cases session b.console with
    | ok result d => exact .ok ⟨rfl, words⟩
    | error stop d => exact .error ⟨rfl, words⟩
  cases step with
  | write bytes => exact .alike (same _)
  | token limit => exact .alike (same _)
  | ask call process => exact .alike (same _)
  | log record => exact .alike (same (Console.log host record.level record.source record.message))
  | draw bound =>
    rw [perform, Drill.draw, Drill.draw]
    split
    · exact .alike (.error ⟨console, words⟩)
    · cases drawn : Random.draw? bound b.words with
      | none => exact .stopped rfl
      | some taken =>
        rw [words, Random.draw?_append drawn]
        exact .alike (.ok ⟨console, rfl⟩)

theorem Plan.follow_more_words (host : Host σ) (plan : Plan α) {more : List UInt32} {b c : Bench σ}
    (supplied : Bench.Supplied more b c) :
    Parted (Bench.Supplied more) (fun stop _ _ => stop = .outOfWords) (plan.follow host b) (plan.follow host c) :=
  follow_parted (fun step _ _ => step.perform_more_words host more) (fun _ _ _ _ out => out) plan supplied

/-! ## More calls that come back -/

/-- The second machine is the first one, but for calls that are none of the console and from which the first one does
not come back. -/
structure Host.Resumes (second first : Host σ) : Prop where
  answer : ∀ call s, call.isProcess = false ∨ (first.answer call s).1 ≠ none →
    second.answer call s = first.answer call s
  log : second.log = first.log
  patience : second.patience = first.patience

/-- One record ends in a call that was not answered, the other one makes the same call there. -/
def Resumed (events events' : List Event) : Prop :=
  ∃ before call event after, events = before ++ [.unanswered call] ∧ events' = before ++ event :: after ∧
    event.call? = some call

theorem Resumed.extend {events events' : List Event} (h : Resumed events events') (more : List Event) :
    Resumed events (events' ++ more) := by
  obtain ⟨before, call, event, after, eq, rfl, asked⟩ := h
  exact ⟨before, call, event, after ++ more, eq, by rw [List.append_assoc, List.cons_append], asked⟩

/-- A step only adds to the record. -/
theorem Step.record_perform (host : Host σ) (step : Step) (bench : Bench (σ × List Event)) :
    ∃ more, (leftBy (step.perform host.recorded bench)).record = bench.record ++ more := by
  cases run : step.perform host.recorded bench with
  | ok result after =>
    obtain ⟨events, record, -⟩ := step.perform_ok run
    exact ⟨events, record⟩
  | error stop after =>
    obtain ⟨events, record, -⟩ := step.perform_error run
    exact ⟨events, record⟩

namespace Host.Resumes

variable {first second : Host σ} (resumes : second.Resumes first)
include resumes

theorem recorded_answer {call : Call} {s : σ} (past : List Event)
    (h : call.isProcess = false ∨ (first.answer call s).1 ≠ none) :
    second.recorded.answer call (s, past) = first.recorded.answer call (s, past) := by
  have same := resumes.answer call s h
  cases answered : (first.answer call s).1 with
  | some a => rw [Host.recorded_answer_some answered, Host.recorded_answer_some (same ▸ answered), same]
  | none => rw [Host.recorded_answer_none answered, Host.recorded_answer_none (same ▸ answered), same]

theorem agree_console {call : Call} (console : call.isProcess = false) (s t : σ × List Event) (same : s = t) :
    (first.recorded.answer call s).1 = (second.recorded.answer call t).1 ∧
      (first.recorded.answer call s).2 = (second.recorded.answer call t).2 := by
  obtain ⟨s, past⟩ := s
  rw [← same, resumes.recorded_answer past (.inl console)]
  exact ⟨rfl, rfl⟩

theorem perform (step : Step) {b c : Bench (σ × List Event)} (related : Bench.Related Eq b c) :
    Parted (Bench.Related Eq) (fun _ b c => Resumed b.record c.record) (step.perform first.recorded b)
      (step.perform second.recorded c) := by
  have of_agree {session session' : Session (σ × List Event) step.Result}
      (agree : Agree (Console.Related Eq) session session') :
      Parted (Bench.Related Eq) (fun _ b c => Resumed b.record c.record) (Drill.atConsole session b)
        (Drill.atConsole session' c) := by
    refine .alike ?_
    rw [Bench.related_eq_over] at related ⊢
    exact Agree.atConsole agree b c related
  cases step with
  | write bytes => exact of_agree (.writeAll (fun bytes => .ask (resumes.agree_console rfl)) bytes)
  | token limit =>
    refine of_agree (.readToken (.ask (resumes.agree_console rfl)) (fun s t same => ?_) limit)
    rw [← same]
    exact (congrFun resumes.patience s.1).symm
  | log record =>
    refine of_agree (.log (fun record s t same => ?_) _ _ _)
    rw [← same]
    exact congrArg (·, s.2 ++ [.logged record]) (congrFun (congrFun resumes.log record) s.1).symm
  | draw bound =>
    refine .alike ?_
    rw [Bench.related_eq_over] at related ⊢
    exact Agree.draw bound b c related
  | ask call process =>
    obtain ⟨⟨machine, pending, atEnd⟩, words⟩ := related
    obtain ⟨⟨⟨s, past⟩, _, _⟩, _⟩ := b
    obtain ⟨⟨_, _, _⟩, _⟩ := c
    obtain rfl : (s, past) = _ := machine
    obtain rfl : _ = _ := pending
    obtain rfl : _ = _ := atEnd
    obtain rfl : _ = _ := words
    cases answered : (first.answer call s).1 with
    | some a =>
      have same := resumes.recorded_answer past (.inr (by rw [answered]; simp))
      rw [Step.perform, Step.perform, Drill.atConsole, Drill.atConsole, Console.ask, Console.ask, same,
        Host.recorded_answer_some answered]
      exact .alike (.ok ⟨⟨rfl, rfl, rfl⟩, rfl⟩)
    | none =>
      rw [Step.perform, Step.perform, Drill.atConsole, Console.ask, Host.recorded_answer_none answered]
      refine .stopped ⟨past, call, ?_⟩
      rw [Drill.atConsole, Console.ask]
      cases again : (second.answer call s).1 with
      | some a =>
        rw [Host.recorded_answer_some again]
        exact ⟨.answered call a, [], rfl, rfl, rfl⟩
      | none =>
        rw [Host.recorded_answer_none again]
        exact ⟨.unanswered call, [], rfl, rfl, rfl⟩

/-- A plan leaves the same record on both machines, or the first one does not come back from a call and the second one
may go on behind it. -/
theorem trace_resumed (plan : Plan α) (bench : Bench σ) :
    plan.trace second bench = plan.trace first bench ∨
      Resumed (plan.trace first bench) (plan.trace second bench) := by
  have begun : Bench.Related Eq bench.recorded bench.recorded := ⟨⟨rfl, rfl, rfl⟩, rfl⟩
  have parted := Plan.follow_parted (fun step _ _ => resumes.perform step) (fun step _ b c resumed => by
    obtain ⟨more, record⟩ := step.record_perform second c
    rw [record]
    exact resumed.extend more) plan begun
  rw [Plan.trace, Plan.trace]
  generalize plan.follow first.recorded bench.recorded = r, plan.follow second.recorded bench.recorded = r' at parted
  cases parted with
  | alike alike => exact .inl (congrArg Prod.snd alike.leftBy.console.machine.symm)
  | stopped resumed => exact .inr resumed

end Host.Resumes

end ProcessDrill
