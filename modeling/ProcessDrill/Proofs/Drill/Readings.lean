import ProcessDrill.Proofs.Console.Spending
import ProcessDrill.Proofs.Drill.Discipline
/-!
# The reads of a drill

* `Plan.Tokens n plan`: no more than `n` tokens are read in any course of a plan.
* `Plan.readings`: the tokens that are read when a plan is followed, with the consoles that they are read at.
* `readsOf events`: the reads of a record.

Main statements: `readsOf_trace`, a plan makes the reads of its tokens and no others; `reads_le_used`, there are no more
of them than bytes that are used up, and one for each token; `Tokens.drill`, a drill reads two tokens at most.
-/

namespace ProcessDrill

set_option autoImplicit false

variable {σ α β : Type}

/-! ## The tokens of a drill -/

namespace Plan

/-- In no course of the plan are more tokens read than `n`. -/
inductive Tokens : Nat → Plan α → Prop
  | done {n : Nat} (a : α) : Tokens n (done a)
  | token {n limit : Nat} {next : Except InputError Token → Plan α} (later : ∀ result, Tokens n (next result)) :
      Tokens (n + 1) (step (.token limit) next)
  | other {n : Nat} {s : Step} {next : s.Result → Plan α} (other : ∀ limit, s ≠ .token limit)
      (later : ∀ result, Tokens n (next result)) : Tokens n (step s next)

namespace Tokens

variable {plan : Plan α} {f : α → Plan β} {n m : Nat}

theorem mono (h : plan.Tokens n) (le : n ≤ m) : plan.Tokens m := by
  induction h generalizing m with
  | done a => exact .done a
  | token _ ih =>
    obtain ⟨m, rfl⟩ := Nat.exists_eq_add_of_le' (Nat.le_of_add_left_le le)
    exact .token fun result => ih result (Nat.le_of_add_le_add_right le)
  | other other _ ih => exact .other other fun result => ih result le

theorem bind (h : plan.Tokens n) (m : Nat) (h' : ∀ a, (f a).Tokens m) : (plan >>= f).Tokens (n + m) := by
  induction h with
  | done a => exact (h' a).mono (Nat.le_add_left _ _)
  | @token n _ _ _ ih =>
    rw [Nat.add_right_comm]
    exact .token ih
  | other other _ ih => exact .other other ih

theorem of_only (h : plan.Only fun s => ∀ limit, s ≠ .token limit) : plan.Tokens 0 := by
  induction plan with
  | done a => exact .done a
  | step s next ih => exact .other h.1 fun result => ih result (h.2 result)

theorem single (limit : Nat) : (Plan.token limit).Tokens 1 :=
  .token .done

theorem readInt : readInt.Tokens 1 :=
  (single _).bind 0 fun _ => .done _

theorem readName (capacity : Nat) : (readName capacity).Tokens 1 :=
  (single _).bind 0 fun _ => .done _

theorem log (level : Log.Level) (source : Log.Source) (message : String) : (log level source message).Tokens 0 :=
  .of_only (.single fun _ => nofun)

theorem draw (bound : UInt32) : (draw bound).Tokens 0 :=
  .of_only (.single fun _ => nofun)

theorem opening (x : Exercise) : (opening x).Tokens 0 :=
  .of_only (only_opening (fun _ _ => nofun) x)

theorem selection : selection.Tokens 1 := by
  refine readInt.bind 0 fun result => ?_
  match result with
  | .error e => exact (log ..).bind 0 fun _ => .done _
  | .ok choice =>
    dsimp only
    split
    · exact .done _
    · exact (log ..).bind 0 fun _ => .done _

theorem prepare (config : Config) (x : Exercise) : (prepare config x).Tokens 1 := by
  cases x with
  | missingFile => exact (draw _).bind 1 fun _ => .done _
  | nullArguments => exact (opening _).bind 1 fun _ => (readName _).bind 0 fun _ => .done _
  | execFailure => exact (opening _).bind 1 fun _ => .done _
  | strangerJoin => exact (draw _).bind 1 fun _ => (opening _).bind 1 fun _ => .done _
  | runProgram => exact (opening _).bind 1 fun _ => (readName _).bind 0 fun _ => .done _
  | joinChild => exact (opening _).bind 1 fun _ => readInt.bind 0 fun _ => .done _
  | exitProcess => exact (opening _).bind 1 fun _ => readInt.bind 0 fun _ => .done _

/-- One token for the selection, and one for the answer. -/
theorem drill (config : Config) : (drill config).Tokens 2 := by
  refine (of_only (only_printLines (fun _ _ => nofun) _)).bind 2 fun _ => selection.bind 1 fun selected => ?_
  match selected with
  | none => exact .done _
  | some x =>
    refine (log ..).bind 1 fun _ => (prepare config x).bind 0 fun prepared => ?_
    refine (of_only (only_settle ?_ ?_ ?_ x prepared)).bind 0 fun _ => of_only (only_halt ?_ ?_ ?_ x)
    all_goals exact fun _ _ => nofun

end Tokens

end Plan

/-! ## The reads of a drill -/

/-- The reads of a record. -/
def readsOf (events : List Event) : List Event :=
  events.filter fun event => event.call?.any Call.isRead

theorem Event.any_isRead_iff {event : Event} : event.call?.any Call.isRead = true ↔ event.IsRead := by
  rw [Option.any_eq_true]
  constructor
  · rintro ⟨call, asked, reads⟩
    cases call with
    | read buffer => exact ⟨buffer, asked⟩
    | _ => cases reads
  · rintro ⟨buffer, asked⟩
    exact ⟨_, asked, rfl⟩

theorem readsOf_append (before after : List Event) : readsOf (before ++ after) = readsOf before ++ readsOf after :=
  List.filter_append _ _

theorem readsOf_eq_self {events : List Event} (h : ∀ event ∈ events, event.IsRead) : readsOf events = events :=
  List.filter_eq_self.2 fun event mem => Event.any_isRead_iff.2 (h event mem)

theorem readsOf_eq_nil {events : List Event} (h : ∀ event ∈ events, ¬ event.IsRead) : readsOf events = [] :=
  List.filter_eq_nil_iff.2 fun event mem reads => h event mem (Event.any_isRead_iff.1 reads)

theorem delivered_eq_nil {events : List Event} (h : ∀ event ∈ events, ¬ event.IsRead) : delivered events = [] := by
  refine List.flatMap_eq_nil_iff.2 fun event mem => ?_
  cases event with
  | answered call answer =>
    cases call with
    | read buffer => exact absurd ⟨buffer, rfl⟩ (h _ mem)
    | _ => rfl
  | unanswered call => rfl
  | logged record => rfl

/-- The token that a step reads, if it reads one, and the console that it reads it at. -/
def Step.readings (step : Step) (bench : Bench σ) : List (Nat × Console σ) :=
  match step with
  | token limit => [(limit, bench.console)]
  | _ => []

namespace Plan

/-- The tokens that are read when a plan is followed, to its end or to a stop. -/
def readings (host : Host σ) : Plan α → Bench σ → List (Nat × Console σ)
  | done _, _ => []
  | step s next, bench =>
    s.readings bench ++
      match s.perform host bench with
      | .ok result after => (next result).readings host after
      | .error _ _ => []

theorem length_readings {plan : Plan α} {n : Nat} (h : plan.Tokens n) (host : Host σ) (bench : Bench σ) :
    (plan.readings host bench).length ≤ n := by
  induction h generalizing bench with
  | done a => exact Nat.zero_le _
  | @token n limit next _ ih =>
    rw [readings, List.length_append, Nat.add_comm]
    cases Step.perform host (.token limit) bench with
    | ok result after => exact Nat.add_le_add_right (ih result after) 1
    | error stop after => exact Nat.le_add_left 1 n
  | @other n s next other _ ih =>
    have none : s.readings bench = [] := by
      cases s with
      | token limit => exact absurd rfl (other limit)
      | _ => rfl
    rw [readings, none, List.nil_append]
    cases s.perform host bench with
    | ok result after => exact ih result after
    | error stop after => exact Nat.zero_le _

/-! ### Single steps -/

theorem trace_token (host : Host σ) (limit : Nat) (bench : Bench σ) :
    (single (.token limit)).trace host bench =
      Session.record (Console.readToken host.recorded limit) bench.console := by
  rw [trace, follow_single, Step.perform, Drill.leftBy_atConsole]
  rfl

theorem quiet_single {s : Step} (other : ∀ limit, s ≠ .token limit) (host : Host σ) (bench : Bench σ) :
    (∀ event ∈ (single s).trace host bench, ¬ event.IsRead) ∧
      (leftBy (s.perform host bench)).console.pending = bench.console.pending := by
  have follows := congrFun (follow_single host s) bench
  cases run : s.perform host bench with
  | ok result after =>
    have happens := along_single.1 (happens_of_follow (follows.trans run))
    obtain ⟨same, quiet⟩ := happens.quiet other
    exact ⟨quiet, congrArg Inbox.pending same⟩
  | error stop after =>
    rcases breaks_of_follow (follows.trans run) with here | ⟨_, _, _, _, _, never, _⟩
    · obtain ⟨same, quiet⟩ := here.quiet other
      exact ⟨quiet, congrArg Inbox.pending same⟩
    · exact never.elim

theorem reads_single (s : Step) (host : Host σ) (bench : Bench σ) :
    readsOf ((single s).trace host bench) =
      (s.readings bench).flatMap fun (limit, c) => Session.record (Console.readToken host.recorded limit) c := by
  by_cases reads : ∃ limit, s = .token limit
  · obtain ⟨limit, rfl⟩ := reads
    rw [trace_token, readsOf_eq_self (Console.readToken_uses host limit bench.console).1]
    exact (List.append_nil _).symm
  · have other := not_exists.1 reads
    rw [readsOf_eq_nil (quiet_single other host bench).1]
    cases s with
    | token limit => exact absurd rfl (other limit)
    | _ => rfl

theorem used_single (s : Step) (host : Host σ) (bench : Bench σ) :
    ∃ used, bench.console.pending ++ delivered ((single s).trace host bench) =
        used ++ (leftBy (s.perform host bench)).console.pending ∧
      (readsOf ((single s).trace host bench)).length ≤ (s.readings bench).length + used.length := by
  by_cases reads : ∃ limit, s = .token limit
  · obtain ⟨limit, rfl⟩ := reads
    have spends := Console.readToken_spends host limit bench.console
    obtain ⟨reads, used, token, final, -, eq⟩ := Console.readToken_uses host limit bench.console
    refine ⟨used, ?_, ?_⟩
    · rw [trace_token, Step.perform, Drill.leftBy_atConsole]
      exact eq
    · rw [trace_token, readsOf_eq_self reads]
      exact spends.length_le_used eq
  · obtain ⟨quiet, same⟩ := quiet_single (not_exists.1 reads) host bench
    refine ⟨[], ?_, ?_⟩
    · rw [delivered_eq_nil quiet, same, List.append_nil, List.nil_append]
    · rw [readsOf_eq_nil quiet]
      exact Nat.zero_le _

/-! ### Whole plans -/

section

variable {host : Host σ} {bench after : Bench σ} {s : Step} {next : s.Result → Plan α}

theorem trace_step_ok {result : s.Result} (run : s.perform host bench = .ok result after) :
    (step s next).trace host bench = (single s).trace host bench ++ (next result).trace host after :=
  trace_bind_ok (f := next) ((congrFun (follow_single host s) bench).trans run)

theorem trace_step_error {stop : Stop} (run : s.perform host bench = .error stop after) :
    (step s next).trace host bench = (single s).trace host bench :=
  trace_bind_error (f := next) ((congrFun (follow_single host s) bench).trans run)

end

/-- The reads of a plan are those of the tokens that it reads. -/
theorem readsOf_trace (plan : Plan α) (host : Host σ) (bench : Bench σ) :
    readsOf (plan.trace host bench) = (plan.readings host bench).flatMap fun (limit, c) =>
      Session.record (Console.readToken host.recorded limit) c := by
  induction plan generalizing bench with
  | done a => rfl
  | step s next ih =>
    rw [readings, List.flatMap_append, ← reads_single]
    cases run : s.perform host bench with
    | ok result after => rw [trace_step_ok run, readsOf_append, ih result after]
    | error stop after =>
      rw [trace_step_error run]
      exact (List.append_nil _).symm

/-- There are no more reads in a plan than bytes that it uses up, and one for each token. -/
theorem reads_le_used (plan : Plan α) (host : Host σ) (bench : Bench σ) :
    ∃ used, bench.console.pending ++ delivered (plan.trace host bench) =
        used ++ (leftBy (plan.follow host bench)).console.pending ∧
      (readsOf (plan.trace host bench)).length ≤ (plan.readings host bench).length + used.length := by
  induction plan generalizing bench with
  | done a => exact ⟨[], List.append_nil _, Nat.zero_le _⟩
  | step s next ih =>
    obtain ⟨used, eq, few⟩ := used_single s host bench
    have follows : (step s next).follow host bench =
        (s.perform host >>= fun result => (next result).follow host) bench := rfl
    rw [follows, readings]
    simp only [Bind.bind, EStateM.bind]
    cases run : s.perform host bench with
    | error stop after =>
      rw [trace_step_error run, List.append_nil]
      rw [run] at eq
      exact ⟨used, eq, few⟩
    | ok result after =>
      obtain ⟨used', eq', few'⟩ := ih result after
      rw [run] at eq
      refine ⟨used ++ used', ?_, ?_⟩
      · rw [trace_step_ok run, delivered_append, ← List.append_assoc, eq, leftBy, List.append_assoc, eq',
          List.append_assoc]
      · rw [trace_step_ok run, readsOf_append]
        simp only [List.length_append]
        omega

end Plan

end ProcessDrill
