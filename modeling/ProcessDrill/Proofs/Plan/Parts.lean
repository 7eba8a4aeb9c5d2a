import Mathlib.Tactic.Choose
import ProcessDrill.Proofs.Plan.Source
/-!
# Plans in parts

A plan of two parts is followed as its first part and then, on the bench that this one leaves, as its second.
`Plan.trace` is the record of a plan that is followed, to its end or to a stop, and `Plan.Only kind` says of what
kind the steps of a plan are, whatever comes of them.

Main statements: `trace_bind_ok` and `trace_bind_error`, the record of a plan is made of those of its parts;
`Only.exists_session`, a plan that draws nothing is a session at the console; `Only.follow_ok`, only the console
can stop it.
-/

namespace ProcessDrill

set_option autoImplicit false

variable {σ α β : Type}

/-! ## Benches alike but for the record -/

/-- A longer past makes no difference to what is added to it. -/
theorem simulates_behind (host : Host σ) (past : List Event) :
    host.recorded.Simulates host.recorded fun s t => s.1 = t.1 ∧ s.2 = past ++ t.2 where
  answer := by
    rintro call ⟨s, _⟩ ⟨t, more⟩ ⟨same, eq⟩
    obtain rfl : s = t := same
    obtain rfl : _ = past ++ more := eq
    cases h : (host.answer call s).1 with
    | some a =>
      rw [Host.recorded_answer_some h, Host.recorded_answer_some h]
      exact ⟨rfl, rfl, List.append_assoc _ _ _⟩
    | none =>
      rw [Host.recorded_answer_none h, Host.recorded_answer_none h]
      exact ⟨rfl, rfl, List.append_assoc _ _ _⟩
  log := by
    rintro record ⟨s, _⟩ ⟨t, more⟩ ⟨same, eq⟩
    obtain rfl : s = t := same
    obtain rfl : _ = past ++ more := eq
    exact ⟨rfl, List.append_assoc _ _ _⟩
  patience := by
    rintro ⟨s, _⟩ ⟨t, more⟩ ⟨same, -⟩
    exact congrArg host.patience same

/-- An answer in a record, or the want of one, is the machine's. -/
def Event.From (host : Host σ) : Event → Prop
  | answered call answer => ∃ s, (host.answer call s).1 = some answer
  | unanswered call => ∃ s, (host.answer call s).1 = none
  | logged _ => True

theorem simulates_from (host : Host σ) :
    host.recorded.Simulates host.recorded fun s t => s = t ∧ ∀ event ∈ s.2, event.From host where
  answer := by
    rintro call ⟨s, past⟩ _ ⟨rfl, sincere⟩
    refine ⟨rfl, rfl, ?_⟩
    cases h : (host.answer call s).1 with
    | some a =>
      rw [Host.recorded_answer_some h]
      exact List.forall_mem_append.2 ⟨sincere, List.forall_mem_singleton.2 ⟨s, h⟩⟩
    | none =>
      rw [Host.recorded_answer_none h]
      exact List.forall_mem_append.2 ⟨sincere, List.forall_mem_singleton.2 ⟨s, h⟩⟩
  log := by
    rintro record ⟨s, past⟩ _ ⟨rfl, sincere⟩
    exact ⟨rfl, List.forall_mem_append.2 ⟨sincere, List.forall_mem_singleton.2 trivial⟩⟩
  patience := by
    rintro ⟨s, past⟩ _ ⟨rfl, -⟩
    rfl

theorem Bench.Related.stock_eq {first : Bench (σ × List Event)} {after : Bench σ}
    (h : Bench.Related (fun s t => s.1 = t) first after) : first.stock = after.stock := by
  have inbox : first.console.inbox = after.console.inbox :=
    Console.inbox_eq_iff.2 ⟨h.console.pending, h.console.atEnd⟩
  rw [Bench.stock, Bench.stock, inbox, h.words]

/-! ## Kinds of steps -/

namespace Step

def isDraw : Step → Bool
  | draw _ => true
  | _ => false

end Step

namespace Drill

theorem atConsole_bind (f : Session σ α) (g : α → Session σ β) :
    atConsole (f >>= g) = atConsole f >>= fun a => atConsole (g a) := by
  funext bench
  simp only [atConsole, Bind.bind, EStateM.bind]
  cases f bench.console <;> rfl

theorem words_atConsole (session : Session σ α) (bench : Bench σ) :
    (leftBy (atConsole session bench)).words = bench.words := by
  rw [atConsole]
  cases session bench.console <;> rfl

end Drill

namespace Plan

/-! ## Records of plans -/

/-- The record of a plan that is followed, to its end or to a stop. -/
def trace (host : Host σ) (plan : Plan α) (bench : Bench σ) : List Event :=
  (leftBy (plan.follow host.recorded bench.recorded)).record

variable {host : Host σ} {plan : Plan α} {f : α → Plan β} {bench middle after : Bench σ} {a : α} {stop : Stop}

theorem follow_recorded (host : Host σ) (plan : Plan α) (bench : Bench σ) :
    Alike (Bench.Related fun s t => s.1 = t) (plan.follow host.recorded bench.recorded)
      (plan.follow host bench) :=
  plan.agree_follow (simulates_recorded host) _ _ ⟨⟨rfl, rfl, rfl⟩, rfl⟩

theorem recorded_of_ok (h : plan.follow host bench = .ok a after) :
    ∃ last, plan.follow host.recorded bench.recorded = .ok a last ∧ last.record = plan.trace host bench ∧
      Bench.Related (fun s t => s.1 = t) last after := by
  have alike := follow_recorded host plan bench
  rw [h] at alike
  obtain ⟨last, run, related⟩ := alike.of_ok
  refine ⟨last, run, ?_, related⟩
  rw [trace, run]
  rfl

theorem recorded_of_error (h : plan.follow host bench = .error stop after) :
    ∃ last, plan.follow host.recorded bench.recorded = .error stop last ∧
      last.record = plan.trace host bench ∧ Bench.Related (fun s t => s.1 = t) last after := by
  have alike := follow_recorded host plan bench
  rw [h] at alike
  obtain ⟨last, run, related⟩ := alike.of_error
  refine ⟨last, run, ?_, related⟩
  rw [trace, run]
  rfl

theorem happens_of_follow (h : plan.follow host bench = .ok a after) :
    Along Step.Happens plan bench.stock (plan.trace host bench) a after.stock := by
  obtain ⟨last, run, record, related⟩ := recorded_of_ok h
  obtain ⟨events, record', along⟩ := follow_ok run
  obtain rfl : last.record = events := record'
  rwa [related.stock_eq, record] at along

theorem word_of_follow (h : plan.follow host bench = .ok a after) : plan.Word (plan.trace host bench) a :=
  word_of_happens (happens_of_follow h)

theorem breaks_of_follow (h : plan.follow host bench = .error stop after) :
    plan.Breaks host bench.stock (plan.trace host bench) stop after.stock := by
  obtain ⟨last, run, record, related⟩ := recorded_of_error h
  obtain ⟨events, record', breaks⟩ := follow_error run
  obtain rfl : last.record = events := record'
  rwa [related.stock_eq, record] at breaks

/-- The record of a plan, complete or broken off, is a cut of a complete one. -/
theorem cut_trace (host : Host σ) (plan : Plan α) (bench : Bench σ) :
    ∃ word a, plan.Word word a ∧ Cut word (plan.trace host bench) := by
  cases h : plan.follow host bench with
  | ok a after => exact ⟨_, a, word_of_follow h, .self _⟩
  | error stop after => exact (breaks_of_follow h).cut

theorem from_of_mem {event : Event} (mem : event ∈ plan.trace host bench) : event.From host := by
  have begun : Bench.Related (fun s t => s = t ∧ ∀ event ∈ s.2, event.From host) bench.recorded bench.recorded :=
    ⟨⟨⟨rfl, nofun⟩, rfl, rfl⟩, rfl⟩
  have alike := plan.agree_follow (simulates_from host) _ _ begun
  exact alike.leftBy.console.machine.2 event mem

/-! ## Two parts -/

theorem follow_bind_ok (h : plan.follow host bench = .ok a middle) :
    (plan >>= f).follow host bench = (f a).follow host middle := by
  rw [follow_bind]
  simp only [Bind.bind, EStateM.bind, h]

theorem follow_bind_error (h : plan.follow host bench = .error stop after) :
    (plan >>= f).follow host bench = .error stop after := by
  rw [follow_bind]
  simp only [Bind.bind, EStateM.bind, h]

theorem trace_bind_ok (h : plan.follow host bench = .ok a middle) :
    (plan >>= f).trace host bench = plan.trace host bench ++ (f a).trace host middle := by
  obtain ⟨last, run, record, related⟩ := recorded_of_ok h
  have begun : Bench.Related (fun s t => s.1 = t.1 ∧ s.2 = plan.trace host bench ++ t.2) last middle.recorded := by
    refine ⟨⟨⟨related.console.machine, ?_⟩, related.console.pending, related.console.atEnd⟩, related.words⟩
    exact record.trans (List.append_nil _).symm
  have alike := (f a).agree_follow (simulates_behind host _) _ _ begun
  rw [trace, follow_bind]
  simp only [Bind.bind, EStateM.bind, run]
  exact alike.leftBy.console.machine.2

theorem trace_bind_error (h : plan.follow host bench = .error stop after) :
    (plan >>= f).trace host bench = plan.trace host bench := by
  obtain ⟨last, run, record, -⟩ := recorded_of_error h
  rw [trace, follow_bind, ← record]
  simp only [Bind.bind, EStateM.bind, run]
  rfl

theorem subset_trace_bind (host : Host σ) (plan : Plan α) (f : α → Plan β) (bench : Bench σ) :
    plan.trace host bench ⊆ (plan >>= f).trace host bench := by
  cases h : plan.follow host bench with
  | ok a after =>
    rw [trace_bind_ok h]
    exact List.subset_append_left _ _
  | error stop after =>
    rw [trace_bind_error h]
    exact List.Subset.refl _

/-- Behind the end of the input nothing more is delivered, and it stays the end. -/
theorem atEnd_follow (host : Host σ) (plan : Plan α) (atEnd : bench.console.atEnd = true) :
    delivered (plan.trace host bench) = [] ∧ (leftBy (plan.follow host bench)).console.atEnd = true := by
  cases followed : plan.follow host bench with
  | ok a after => exact atEnd_of_happens (happens_of_follow followed) atEnd
  | error stop after => exact atEnd_of_breaks (breaks_of_follow followed) atEnd

/-- The first of two parts takes its tokens from the input of both. -/
theorem uses_of_follow (h : plan.follow host bench = .ok a middle) {future : List UInt8}
    (nothing : (leftBy ((plan >>= f).follow host bench)).console.atEnd = true → future = []) :
    Along Step.Uses plan (bench.stock.source (delivered ((plan >>= f).trace host bench) ++ future))
      (plan.trace host bench) a (middle.stock.source (delivered ((f a).trace host middle) ++ future)) := by
  rw [trace_bind_ok h, delivered_append, List.append_assoc]
  refine uses_of_happens (happens_of_follow h) fun atEnd => ?_
  obtain ⟨brought, later⟩ := atEnd_follow host (f a) atEnd
  rw [follow_bind_ok h] at nothing
  rw [brought, nothing later]
  rfl

/-! ## Steps of a kind -/

/-- All steps of a plan are of this kind, whatever comes of those before them. -/
def Only (kind : Step → Prop) : Plan α → Prop
  | done _ => True
  | step s next => kind s ∧ ∀ result, (next result).Only kind

namespace Only

variable {kind : Step → Prop}

theorem single {s : Step} (h : kind s) : (single s).Only kind :=
  ⟨h, fun _ => trivial⟩

theorem bind (h : plan.Only kind) (h' : ∀ a, (f a).Only kind) : (plan >>= f).Only kind := by
  induction plan with
  | done a => exact h' a
  | step s next ih => exact ⟨h.1, fun result => ih result (h.2 result)⟩

theorem inRange (h : plan.Only (· ≠ .draw 0)) : plan.InRange := by
  induction plan with
  | done a => trivial
  | step s next ih => exact ⟨h.1, fun result => ih result (h.2 result)⟩

/-- A plan that draws nothing is a session at the console, so it leaves the random words alone. -/
theorem exists_session (host : Host σ) (h : plan.Only fun s => s.isDraw = false) :
    ∃ session : Session σ α, plan.follow host = Drill.atConsole session := by
  induction plan with
  | done a => exact ⟨pure a, rfl⟩
  | step s next ih =>
    obtain ⟨here, rest⟩ := h
    choose later follows using fun result => ih result (rest result)
    have first : ∃ session : Session σ s.Result, s.perform host = Drill.atConsole session := by
      cases s with
      | write bytes => exact ⟨Console.writeAll host bytes, rfl⟩
      | token limit => exact ⟨Console.readToken host limit, rfl⟩
      | ask call process => exact ⟨Console.ask host call, rfl⟩
      | log record => exact ⟨Console.log host record.level record.source record.message, rfl⟩
      | draw bound => cases here
    obtain ⟨first, performs⟩ := first
    refine ⟨first >>= later, ?_⟩
    rw [follow, performs, Drill.atConsole_bind]
    congr 1
    funext result
    exact follows result

/-- Only what the machine forces, or the want of patience, stops a plan that draws nothing. -/
theorem stop_eq {before after : Stock} {events : List Event}
    (h : plan.Only fun s => s.isDraw = false) (breaks : plan.Breaks host before events stop after) :
    stop.isForced = true ∨ stop = .outOfPatience := by
  induction plan generalizing before events with
  | done a => exact breaks.elim
  | step s next ih =>
    rcases breaks with here | ⟨first, result, middle, more, -, rest, -⟩
    · cases s with
      | write bytes => exact .inl here.2.1
      | token limit =>
        obtain ⟨-, -, s, draining⟩ := here
        exact draining.waited.imp_right And.left
      | ask call process =>
        obtain ⟨-, rfl, -⟩ := here
        exact .inl rfl
      | log record => exact here.elim
      | draw bound => cases h.1
    · exact ih result (h.2 result) rest

/-- A plan that draws nothing comes to its end if nothing forces it to stop and its patience lasts. -/
theorem follow_ok (h : plan.Only fun s => s.isDraw = false) (clean : Clean (plan.trace host bench))
    (patient : ∀ after, plan.follow host bench ≠ .error .outOfPatience after) :
    ∃ a after, plan.follow host bench = .ok a after := by
  cases followed : plan.follow host bench with
  | ok a after => exact ⟨a, after, rfl⟩
  | error stop after =>
    have breaks := breaks_of_follow followed
    rcases h.stop_eq breaks with forced | rfl
    · have stops := breaks.ends.stops
      rw [clean.stops, List.filter_cons_of_pos forced] at stops
      cases stops
    · exact absurd followed (patient after)

end Only

end Plan

end ProcessDrill
