import ProcessDrill.Proofs.Console.Reading
import ProcessDrill.Proofs.Console.Writing
import ProcessDrill.Proofs.Host.Simulation
import ProcessDrill.Proofs.Plan.Basic
/-!
# What following a plan does

A plan is followed on a machine that keeps a record.
* `Step.Happens` and `Step.Breaks` say what a step does to the record and to the stock of a bench, if it
  comes to its end and if it stops.
* `Plan.follow_ok` and `Plan.follow_error` say the same of a plan.
* `Plan.Word` are the complete records of a plan, whatever the stock. A record that breaks off is a cut of
  one (`Plan.Breaks.cut`), and it shows why (`Plan.Breaks.ends`).
* `Agree.follow`: a plan goes alike on two machines if each of its steps does, and `Plan.agree_follow`: the
  record makes no difference to what is done.
-/

namespace ProcessDrill

set_option autoImplicit false

variable {σ α β : Type}

/-! ## Benches with a record -/

structure Stock where
  inbox : Inbox
  words : List UInt32

namespace Bench

def stock (bench : Bench σ) : Stock :=
  ⟨bench.console.inbox, bench.words⟩

def recorded (bench : Bench σ) : Bench (σ × List Event) where
  console := bench.console.recorded
  words := bench.words

def record (bench : Bench (σ × List Event)) : List Event :=
  bench.console.machine.2

end Bench

namespace Drill

variable {f : Drill σ α} {g : α → Drill σ β} {bench after : Bench σ} {stop : Stop}

theorem bind_eq_ok {b : β} (h : (f >>= g) bench = .ok b after) :
    ∃ a middle, f bench = .ok a middle ∧ g a middle = .ok b after := by
  simp only [Bind.bind, EStateM.bind] at h
  split at h
  · next a middle run => exact ⟨a, middle, run, h⟩
  · cases h

theorem bind_eq_error (h : (f >>= g) bench = .error stop after) :
    f bench = .error stop after ∨ ∃ a middle, f bench = .ok a middle ∧ g a middle = .error stop after := by
  simp only [Bind.bind, EStateM.bind] at h
  split at h
  · next a middle run => exact .inr ⟨a, middle, run, h⟩
  · next run =>
    rw [run]
    cases h
    exact .inl rfl

theorem atConsole_eq_ok {session : Session σ α} {a : α} (h : atConsole session bench = .ok a after) :
    ∃ c, session bench.console = .ok a c ∧ after = { bench with console := c } := by
  rw [atConsole] at h
  split at h
  · next c run =>
    cases h
    exact ⟨c, run, rfl⟩
  · cases h

theorem atConsole_eq_error {session : Session σ α} (h : atConsole session bench = .error stop after) :
    ∃ c, session bench.console = .error stop c ∧ after = { bench with console := c } := by
  rw [atConsole] at h
  split at h
  · cases h
  · next c run =>
    cases h
    exact ⟨c, run, rfl⟩

theorem draw_eq_ok {bound value : UInt32} (h : draw bound bench = .ok value after) :
    bound ≠ 0 ∧ ∃ words, Random.draw? bound bench.words = some (value, words) ∧
      after = { bench with words } := by
  rw [draw] at h
  split at h
  · cases h
  · next nonzero =>
    split at h
    · next words drawn =>
      cases h
      exact ⟨nonzero, words, drawn, rfl⟩
    · cases h

theorem draw_eq_error {bound : UInt32} (h : draw bound bench = .error stop after) :
    bound = 0 ∧ stop = .fault .emptyRange ∧ after = bench ∨
      Random.draw? bound bench.words = none ∧ stop = .outOfWords ∧ after = { bench with words := [] } := by
  rw [draw] at h
  split at h
  · next zero =>
    cases h
    exact .inl ⟨zero, rfl, rfl⟩
  · split at h
    · cases h
    · next none =>
      cases h
      exact .inr ⟨none, rfl, rfl⟩

end Drill

/-! ## Steps -/

namespace Step

/-- A step that comes to its end. -/
def Happens : (step : Step) → Stock → List Event → step.Result → Stock → Prop
  | write bytes, before, events, _, after => Written bytes events ∧ after = before
  | token limit, before, events, result, after =>
    Reading limit before.inbox events result after.inbox ∧ after.words = before.words
  | ask call _, before, events, answer, after => events = [.answered call answer] ∧ after = before
  | log record, before, events, _, after => events = [.logged record] ∧ after = before
  | draw bound, before, events, value, after =>
    events = [] ∧ Random.draw? bound before.words = some (value, after.words) ∧
      after.inbox = before.inbox

/-- A step that stops. -/
def Breaks (host : Host σ) : (step : Step) → Stock → List Event → Stop → Stock → Prop
  | write bytes, before, events, stop, after =>
    Stops (Written bytes) events stop ∧ stop.isForced = true ∧ after = before
  | token _, before, events, stop, after =>
    Stops Refills events stop ∧ after.words = before.words ∧
      ∃ s, Draining (host.patience s) before.inbox events stop after.inbox
  | ask call _, before, events, stop, after =>
    events = [.unanswered call] ∧ stop = .neverReturned ∧ after = before
  | log _, _, _, _, _ => False
  | draw bound, before, events, stop, after =>
    events = [] ∧ after.inbox = before.inbox ∧
      (bound = 0 ∧ stop = .fault .emptyRange ∧ after.words = before.words ∨
        Random.draw? bound before.words = none ∧ stop = .outOfWords ∧ after.words = [])

variable {host : Host σ} {bench after : Bench (σ × List Event)}

theorem perform_ok (step : Step) {result : step.Result}
    (run : step.perform host.recorded bench = .ok result after) :
    ∃ events, after.record = bench.record ++ events ∧
      step.Happens bench.stock events result after.stock := by
  cases step with
  | write bytes =>
    rw [perform] at run
    obtain ⟨c, here, rfl⟩ := Drill.atConsole_eq_ok run
    obtain ⟨events, record, written, same⟩ := (traced_writeAll host bytes _).ok_of_eq here
    exact ⟨events, record, written, congrArg (Stock.mk · bench.words) same⟩
  | token limit =>
    rw [perform] at run
    obtain ⟨c, here, rfl⟩ := Drill.atConsole_eq_ok run
    obtain ⟨events, record, reading⟩ := (traced_readToken host limit _).ok_of_eq here
    exact ⟨events, record, reading, rfl⟩
  | ask call process =>
    rw [perform] at run
    obtain ⟨c, here, rfl⟩ := Drill.atConsole_eq_ok run
    obtain ⟨events, record, eq, same⟩ := (traced_ask host call _).ok_of_eq here
    exact ⟨events, record, eq, congrArg (Stock.mk · bench.words) same⟩
  | log entry =>
    rw [perform] at run
    obtain ⟨c, here, rfl⟩ := Drill.atConsole_eq_ok run
    obtain ⟨events, record, eq, same⟩ := (traced_log host entry _).ok_of_eq here
    exact ⟨events, record, eq, congrArg (Stock.mk · bench.words) same⟩
  | draw bound =>
    obtain ⟨_, words, drawn, rfl⟩ := Drill.draw_eq_ok run
    exact ⟨[], (List.append_nil _).symm, rfl, drawn, rfl⟩

theorem perform_error (step : Step) {stop : Stop}
    (run : step.perform host.recorded bench = .error stop after) :
    ∃ events, after.record = bench.record ++ events ∧
      step.Breaks host bench.stock events stop after.stock := by
  cases step with
  | write bytes =>
    rw [perform] at run
    obtain ⟨c, here, rfl⟩ := Drill.atConsole_eq_error run
    obtain ⟨events, record, stops, forced, same⟩ := (traced_writeAll host bytes _).stopped_of_eq here
    exact ⟨events, record, stops, forced, congrArg (Stock.mk · bench.words) same⟩
  | token limit =>
    rw [perform] at run
    obtain ⟨c, here, rfl⟩ := Drill.atConsole_eq_error run
    obtain ⟨events, record, stops, draining⟩ := (traced_readToken host limit _).stopped_of_eq here
    exact ⟨events, record, stops, rfl, _, draining⟩
  | ask call process =>
    rw [perform] at run
    obtain ⟨c, here, rfl⟩ := Drill.atConsole_eq_error run
    obtain ⟨events, record, eq, never, same⟩ := (traced_ask host call _).stopped_of_eq here
    exact ⟨events, record, eq, never, congrArg (Stock.mk · bench.words) same⟩
  | log entry =>
    rw [perform] at run
    obtain ⟨c, here, rfl⟩ := Drill.atConsole_eq_error run
    obtain ⟨_, _, impossible⟩ := (traced_log host entry _).stopped_of_eq here
    exact impossible.elim
  | draw bound =>
    refine ⟨[], ?_, rfl, ?_⟩
    · rcases Drill.draw_eq_error run with ⟨_, _, rfl⟩ | ⟨_, _, rfl⟩ <;> exact (List.append_nil _).symm
    · rcases Drill.draw_eq_error run with ⟨zero, stop, rfl⟩ | ⟨none, stop, rfl⟩
      · exact ⟨rfl, .inl ⟨zero, stop, rfl⟩⟩
      · exact ⟨rfl, .inr ⟨none, stop, rfl⟩⟩

/-- The complete records of a step, whatever the stock. -/
def Word : (step : Step) → List Event → step.Result → Prop
  | write bytes, events, _ => Written bytes events
  | token _, events, _ => Refills events
  | ask call _, events, answer => events = [.answered call answer]
  | log record, events, _ => events = [.logged record]
  | draw _, events, _ => events = []

variable {step : Step} {events : List Event}

theorem Happens.word {before after : Stock} {result : step.Result}
    (h : step.Happens before events result after) : step.Word events result := by
  cases step with
  | write bytes => exact h.1
  | token limit => exact h.1.refills
  | ask call process => exact h.1
  | log record => exact h.1
  | draw bound => exact h.1

theorem Word.clean {result : step.Result} (h : step.Word events result) : Clean events := by
  cases step with
  | write bytes => exact Written.clean h
  | token limit => exact Refills.clean h
  | ask call process =>
    obtain rfl : events = _ := h
    refine (clean_cons _ _).2 ⟨?_, clean_nil⟩
    cases call with
    | read buffer => cases process
    | write bytes => cases process
    | _ => rfl
  | log record =>
    obtain rfl : events = _ := h
    exact (clean_cons _ _).2 ⟨rfl, clean_nil⟩
  | draw bound =>
    obtain rfl : events = _ := h
    exact clean_nil

theorem exists_word (step : Step) : ∃ events result, step.Word events result := by
  cases step with
  | write bytes =>
    obtain ⟨events, written⟩ := Written.exists_record bytes
    exact ⟨events, (), written⟩
  | token limit => exact ⟨[], .error .closed, .nil⟩
  | ask call process =>
    obtain ⟨answer⟩ : Nonempty call.Answer := by
      cases call with
      | exit status => exact ⟨(0 : Int64)⟩
      | read buffer => exact ⟨(.error .eio, [])⟩
      | _ => exact ⟨.error .eio⟩
    exact ⟨_, answer, rfl⟩
  | log record => exact ⟨_, (), rfl⟩
  | draw bound => exact ⟨[], 0, rfl⟩

theorem Breaks.cut {before after : Stock} {stop : Stop}
    (h : step.Breaks host before events stop after) :
    ∃ word result, step.Word word result ∧ Cut word events := by
  cases step with
  | write bytes =>
    obtain ⟨word, written, cut⟩ := h.1.cut
    exact ⟨word, (), written, cut⟩
  | token limit =>
    obtain ⟨word, refills, cut⟩ := h.1.cut
    exact ⟨word, .error .closed, refills, cut⟩
  | ask call process =>
    obtain ⟨rfl, -, -⟩ := h
    obtain ⟨_, answer, rfl⟩ := exists_word (ask call process)
    exact ⟨_, answer, rfl, .first [] rfl rfl rfl⟩
  | log record => exact h.elim
  | draw bound =>
    obtain ⟨rfl, -⟩ := h
    exact ⟨[], 0, rfl, .nil _⟩

theorem Breaks.ends {before after : Stock} {stop : Stop}
    (h : step.Breaks host before events stop after) : Ends events stop := by
  cases step with
  | write bytes => exact h.1.ends
  | token limit => exact h.1.ends
  | ask call process =>
    obtain ⟨rfl, rfl, -⟩ := h
    exact .first rfl
  | log record => exact h.elim
  | draw bound =>
    obtain ⟨rfl, -, ⟨-, rfl, -⟩ | ⟨-, rfl, -⟩⟩ := h
    · exact .emptyRange clean_nil
    · exact .outOfWords clean_nil

end Step

/-! ## Plans -/

namespace Plan

variable {host : Host σ} {plan : Plan α} {events : List Event}

def Breaks (host : Host σ) : Plan α → Stock → List Event → Stop → Stock → Prop
  | done _, _, _, _, _ => False
  | step s next, before, events, stop, after =>
    s.Breaks host before events stop after ∨
      ∃ first result middle more, s.Happens before first result middle ∧
        (next result).Breaks host middle more stop after ∧ events = first ++ more

def Word (plan : Plan α) (events : List Event) (a : α) : Prop :=
  Along (fun s (_ : Unit) events result _ => s.Word events result) plan () events a ()

section Follow

variable {bench after : Bench (σ × List Event)}

theorem follow_ok {a : α} (run : plan.follow host.recorded bench = .ok a after) :
    ∃ events, after.record = bench.record ++ events ∧
      Along Step.Happens plan bench.stock events a after.stock := by
  induction plan generalizing bench with
  | done b =>
    cases run
    exact ⟨[], (List.append_nil _).symm, rfl, rfl, rfl⟩
  | step s next ih =>
    obtain ⟨result, middle, here, rest⟩ := Drill.bind_eq_ok run
    obtain ⟨first, record, happens⟩ := s.perform_ok here
    obtain ⟨more, record', along⟩ := ih result rest
    refine ⟨first ++ more, ?_, first, result, middle.stock, more, happens, along, rfl⟩
    rw [record', record, List.append_assoc]

theorem follow_error {stop : Stop} (run : plan.follow host.recorded bench = .error stop after) :
    ∃ events, after.record = bench.record ++ events ∧
      plan.Breaks host bench.stock events stop after.stock := by
  induction plan generalizing bench with
  | done b => cases run
  | step s next ih =>
    rcases Drill.bind_eq_error run with here | ⟨result, middle, here, rest⟩
    · obtain ⟨events, record, breaks⟩ := s.perform_error here
      exact ⟨events, record, .inl breaks⟩
    · obtain ⟨first, record, happens⟩ := s.perform_ok here
      obtain ⟨more, record', breaks⟩ := ih result rest
      refine ⟨first ++ more, ?_, .inr ⟨first, result, middle.stock, more, happens, breaks, rfl⟩⟩
      rw [record', record, List.append_assoc]

end Follow

theorem word_of_happens {before after : Stock} {a : α}
    (h : Along Step.Happens plan before events a after) : plan.Word events a :=
  h.map (f := fun _ => ()) fun _ _ _ _ _ => Step.Happens.word

theorem exists_word (plan : Plan α) : ∃ events a, plan.Word events a := by
  induction plan with
  | done a => exact ⟨[], a, rfl, rfl, rfl⟩
  | step s next ih =>
    obtain ⟨first, result, here⟩ := s.exists_word
    obtain ⟨more, a, rest⟩ := ih result
    exact ⟨first ++ more, a, first, result, (), more, here, rest, rfl⟩

theorem Word.clean {a : α} (h : plan.Word events a) : Clean events := by
  induction plan generalizing events with
  | done b =>
    obtain ⟨rfl, -, -⟩ := h
    exact clean_nil
  | step s next ih =>
    obtain ⟨first, result, _, more, here, rest, rfl⟩ := h
    exact (clean_append _ _).2 ⟨here.clean, ih result rest⟩

/-- A record that breaks off is the beginning of a complete one, up to the answer to its last call. -/
theorem Breaks.cut {before after : Stock} {stop : Stop}
    (h : plan.Breaks host before events stop after) :
    ∃ word a, plan.Word word a ∧ Cut word events := by
  induction plan generalizing before events with
  | done b => exact h.elim
  | step s next ih =>
    rcases h with here | ⟨first, result, middle, more, here, rest, rfl⟩
    · obtain ⟨word, result, complete, cut⟩ := here.cut
      obtain ⟨more, a, rest⟩ := (next result).exists_word
      exact ⟨word ++ more, a, ⟨word, result, (), more, complete, rest, rfl⟩, cut.extend more⟩
    · obtain ⟨word, a, complete, cut⟩ := ih result rest
      exact ⟨first ++ word, a, ⟨first, result, (), word, here.word, complete, rfl⟩, cut.behind first⟩

theorem Breaks.ends {before after : Stock} {stop : Stop}
    (h : plan.Breaks host before events stop after) : Ends events stop := by
  induction plan generalizing before events with
  | done b => exact h.elim
  | step s next ih =>
    rcases h with here | ⟨first, result, middle, more, here, rest, rfl⟩
    · exact here.ends
    · exact (ih result rest).behind here.word.clean

/-- A plan is given up for want of patience only after as many reads as a session waits for. -/
theorem Breaks.patient {before after : Stock} {reads : Nat} (patience : ∀ s, reads ≤ host.patience s)
    (h : plan.Breaks host before events .outOfPatience after) : reads ≤ events.length := by
  induction plan generalizing before events with
  | done b => exact h.elim
  | step s next ih =>
    rcases h with here | ⟨first, result, middle, more, here, rest, rfl⟩
    · cases s with
      | write bytes => cases here.2.1
      | token limit =>
        obtain ⟨-, -, s, draining⟩ := here
        obtain no | ⟨-, waited⟩ := draining.waited
        · cases no
        · exact Nat.le_trans (patience s) waited
      | ask call process => cases here.2.1
      | log record => exact here.elim
      | draw bound => obtain ⟨-, -, ⟨-, no, -⟩ | ⟨-, no, -⟩⟩ := here <;> cases no
    · have := ih result rest
      rw [List.length_append]
      omega

/-! ## Empty ranges -/

/-- No step of a plan draws from an empty range. -/
def InRange : Plan α → Prop
  | done _ => True
  | step s next => s ≠ .draw 0 ∧ ∀ result, (next result).InRange

theorem Breaks.no_fault {before after : Stock} {stop : Stop}
    (h : plan.Breaks host before events stop after) (inRange : plan.InRange) (fault : Fault) :
    stop ≠ .fault fault := by
  induction plan generalizing before events with
  | done b => exact h.elim
  | step s next ih =>
    rcases h with here | ⟨first, result, middle, more, here, rest, rfl⟩
    · cases s with
      | write bytes =>
        rintro rfl
        cases here.2.1
      | token limit =>
        obtain ⟨-, -, s, draining⟩ := here
        rintro rfl
        rcases draining.waited with no | ⟨no, -⟩ <;> cases no
      | ask call process =>
        obtain ⟨-, rfl, -⟩ := here
        exact nofun
      | log record => exact here.elim
      | draw bound =>
        obtain ⟨-, -, ⟨rfl, -, -⟩ | ⟨-, rfl, -⟩⟩ := here
        · exact absurd rfl inRange.1
        · exact nofun
    · exact ih result rest (inRange.2 result)

end Plan

/-! ## Plans that go alike -/

/-- Benches with related consoles and the same random words. -/
structure Bench.Over {τ : Type} (Q : Console σ → Console τ → Prop) (first : Bench σ)
    (second : Bench τ) : Prop where
  console : Q first.console second.console
  words : first.words = second.words

namespace Agree

variable {τ : Type} {Q : Console σ → Console τ → Prop}

theorem atConsole {f : Session σ α} {g : Session τ α} (h : Agree Q f g) :
    Agree (Bench.Over Q) (Drill.atConsole f) (Drill.atConsole g) := by
  intro s t related
  have alike := h _ _ related.console
  rw [Drill.atConsole, Drill.atConsole]
  generalize f s.console = r, g t.console = r' at alike
  cases alike with
  | ok console => exact .ok ⟨console, related.words⟩
  | error console => exact .error ⟨console, related.words⟩

theorem draw (bound : UInt32) : Agree (Bench.Over Q) (Drill.draw bound) (Drill.draw bound) := by
  intro s t related
  rw [Drill.draw, Drill.draw, related.words]
  split
  · exact .error related
  · split
    · exact .ok ⟨related.console, rfl⟩
    · exact .error ⟨related.console, rfl⟩

theorem follow {B : Bench σ → Bench τ → Prop} {first : Host σ} {second : Host τ}
    (steps : ∀ step : Step, Agree B (step.perform first) (step.perform second)) (plan : Plan α) :
    Agree B (plan.follow first) (plan.follow second) := by
  induction plan with
  | done a => exact .pure a
  | step s next ih => exact (steps s).bind ih

end Agree

/-! ## Forgetting the record -/

structure Bench.Related {τ : Type} (R : σ → τ → Prop) (first : Bench σ) (second : Bench τ) :
    Prop where
  console : Console.Related R first.console second.console
  words : first.words = second.words

theorem Bench.related_eq_over {τ : Type} (R : σ → τ → Prop) :
    Bench.Related R = Bench.Over (Console.Related R) := by
  funext first second
  exact propext ⟨fun h => ⟨h.console, h.words⟩, fun h => ⟨h.console, h.words⟩⟩

section Simulates

variable {τ : Type} {first : Host σ} {second : Host τ} {R : σ → τ → Prop}
variable (simulates : first.Simulates second R)
include simulates

theorem Step.agree_perform (step : Step) :
    Agree (Bench.Related R) (step.perform first) (step.perform second) := by
  rw [Bench.related_eq_over]
  cases step with
  | write bytes => exact .atConsole (agree_writeAll simulates bytes)
  | token limit => exact .atConsole (agree_readToken simulates limit)
  | ask call process => exact .atConsole (agree_ask simulates call)
  | log record => exact .atConsole (agree_log simulates _ _ _)
  | draw bound => exact .draw bound

theorem Plan.agree_follow (plan : Plan α) :
    Agree (Bench.Related R) (plan.follow first) (plan.follow second) :=
  .follow (Step.agree_perform simulates) plan

end Simulates

end ProcessDrill
