import ProcessDrill.Proofs.Drill.Draws
import ProcessDrill.Proofs.Drill.Logging
import ProcessDrill.Proofs.Drill.Names
import ProcessDrill.Proofs.Plan.Parting
/-!
# Drills that do not come to their end

A call that is none of the console may not come back, as the machine has ended the process. Main statements:
* `told_before_unanswered`: such a call is the last of its drill, and every line before it was taken;
* `trace_resumed`: the calls before it are those of the drill on a machine that comes back from it;
* `undrawn_of_outOfWords`: a drill runs out of random words only if the bound of its exercise accepts none of them;
* `run_more_words`: a drill that had enough random words has no use for more.
-/

namespace ProcessDrill

set_option autoImplicit false

variable {σ τ α : Type}

/-! ## Calls that do not come back -/

namespace Plan

variable {host : Host σ} {bench : Bench σ} {x : Exercise}

theorem Only.no_process_of_breaks {plan : Plan α} (h : plan.Only fun s => s.isAsk = false) {before after : Stock}
    {events : List Event} {stop : Stop} (breaks : plan.Breaks host before events stop after) :
    ∀ event ∈ events, event.call?.any Call.isProcess = false := by
  obtain ⟨word, a, complete, cut⟩ := breaks.cut
  exact cut.forall_call? (P := fun call? => call?.any Call.isProcess = false) (h.no_process_of_word complete)

/-- A plan that announces a call, makes it, and makes no other behind it breaks off at this call if at any. -/
theorem unanswered_of_breaks {call other : Call} {process : call.isProcess = true} {next : call.Answer → Plan α}
    (quiet : ∀ answer, (next answer).Only fun s => s.isAsk = false) {level : Log.Level} {source : Log.Source}
    {message : String} {before after : Stock} {events : List Event} {stop : Stop}
    (h : (log level source message >>= fun _ => ask call process >>= next).Breaks host before events stop after)
    (mem : .unanswered other ∈ events) (asked : other.isProcess = true) :
    other = call ∧ events = [.logged ⟨level, source, message⟩, .unanswered call] := by
  rcases breaks_asking h with rfl | ⟨answer, more, rfl, breaks⟩
  · have same : other = call := by simpa using mem
    exact ⟨same, rfl⟩
  · have later : Event.unanswered other ∈ more := by simpa using mem
    have console := (quiet answer).no_process_of_breaks breaks _ later
    have call? : (Event.unanswered other).call? = some other := rfl
    rw [call?, Option.any_some, asked] at console
    cases console

theorem quiet_told (level : Log.Level) (source : Log.Source) (message line : String) :
    (log level source message >>= fun _ => printLine line).Only fun s => s.isAsk = false := by
  refine Only.bind (Only.single ?_) fun _ => only_printLine (fun _ => rfl) line
  rfl

theorem settle_unanswered {prepared : Except InputError (Option Request)} {call : Call}
    (mem : .unanswered call ∈ (settle x prepared).trace host bench) (process : call.isProcess = true) :
    call ≠ .halt ∧ accepted ((settle x prepared).trace host bench) = [] := by
  have called := mem_processCalls.2 ⟨⟨_, mem, rfl⟩, process⟩
  match prepared with
  | .ok (some r) =>
    cases h : (request r).follow host bench with
    | ok a after =>
      have clean := (word_of_follow h).clean _ mem
      cases clean
    | error stop after =>
      obtain ⟨rfl, eq⟩ := unanswered_of_breaks (fun answer => quiet_told .info .exercise (r.finding answer) _)
        (breaks_of_follow h) mem process
      exact ⟨by cases r <;> exact nofun, congrArg accepted eq⟩
  | .ok none => cases mem
  | .error e =>
    have quiet : (settle x (.error e)).Only fun s => s.isAsk = false := quiet_told _ _ _ _
    rw [quiet.processCalls_eq] at called
    cases called

theorem halt_unanswered {call : Call} (mem : .unanswered call ∈ (halt x).trace host bench)
    (process : call.isProcess = true) : call = .halt ∧ accepted ((halt x).trace host bench) = [] := by
  cases h : (halt x).follow host bench with
  | ok t after =>
    have clean := (word_of_follow h).clean _ mem
    cases clean
  | error stop after =>
    obtain ⟨rfl, eq⟩ := unanswered_of_breaks (fun answer => by
      cases answer with
      | ok => trivial
      | error e =>
        refine Only.bind (Only.single ?_) fun _ => (only_printLine (fun _ => rfl) _).bind fun _ => trivial
        rfl) (breaks_of_follow h) mem process
    exact ⟨rfl, congrArg accepted eq⟩

theorem accepted_start {config : Config} {events : List Event} {prepared : Except InputError (Option Request)}
    (h : (start config x).Word events prepared) :
    accepted events = (Drill.openingLine x).toList.flatMap Utf8.encodeLine ∧
      (prepared = .ok none → x = .execFailure) := by
  obtain ⟨_, _, more, titled, reached, rfl⟩ := word_bind h
  obtain ⟨line, answer, eq, opened, refills, -, nothing⟩ := word_prepare reached
  obtain rfl := along_single.1 titled
  refine ⟨?_, nothing⟩
  rw [accepted_append, ← accepted_unlogged more, eq, accepted_append, opened.accepted_eq, refills.accepted_eq,
    List.append_nil]
  rfl

end Plan

namespace Drill

variable {host : Host σ} {config : Config} {bench : Bench σ}

theorem last_of_unanswered {call : Call} (mem : .unanswered call ∈ trace host config bench) :
    ∃ before after, trace host config bench = before ++ [.unanswered call] ∧
      run host config bench = .error .neverReturned after := by
  cases ended : run host config bench with
  | ok t after => cases clean_of_run ended _ mem
  | error stop after =>
    have ends := ends_of_run ended
    generalize trace host config bench = events at mem ends
    cases ends with
    | @forced before last _ clean forced =>
      rcases List.mem_append.1 mem with early | late
      · cases clean _ early
      · obtain rfl := List.mem_singleton.1 late
        cases forced
        exact ⟨before, after, rfl, rfl⟩
    | outOfPatience clean => cases clean _ mem
    | outOfWords clean => cases clean _ mem
    | emptyRange clean => cases clean _ mem

namespace Reaches

variable {x : Exercise} {prepared : Except InputError (Option Request)} {chosen middle : Bench σ}
variable (reaches : Reaches host config bench x prepared chosen middle)
include reaches

/-- Before the request the menu and the line of the exercise are taken. -/
theorem accepted_eq : accepted (trace host config bench) =
    (Exercise.menu.map menuLine ++ (openingLine x).toList).flatMap Utf8.encodeLine ++
      accepted ((Plan.finish x prepared).trace host middle) := by
  have menu := Plan.accepted_choice (Plan.word_of_follow reaches.choice)
  have opening := (Plan.accepted_start (Plan.word_of_follow reaches.start)).1
  rw [reaches.trace_eq, accepted_append, accepted_append, menu, opening, List.flatMap_append, List.append_assoc]

/-- All calls before the request came back. -/
theorem unanswered_late {call : Call} (mem : .unanswered call ∈ trace host config bench) :
    .unanswered call ∈ (Plan.finish x prepared).trace host middle := by
  rw [reaches.trace_eq] at mem
  rcases List.mem_append.1 mem with early | mem
  · cases (Plan.word_of_follow reaches.choice).clean _ early
  rcases List.mem_append.1 mem with early | late
  · cases (Plan.word_of_follow reaches.start).clean _ early
  · exact late

/-- What an exercise has told once it is settled. -/
theorem settled_tells {after : Bench σ} (settled : (Plan.settle x prepared).follow host middle = .ok () after) :
    ∃ told, accepted ((Plan.settle x prepared).trace host middle) = told.flatMap Utf8.encodeLine ∧
      Tells x (inputError? config (tokens host config bench [])[1]? x)
        (request? config bench.words (tokens host config bench [])[1]? x) (trace host config bench) told := by
  obtain ⟨made, report, unlogged_eq, told⟩ := Plan.word_settle (Plan.word_of_follow settled)
  have nothing := (Plan.accepted_start (Plan.word_of_follow reaches.start)).2
  have fault := reaches.inputError?_eq fun _ => (rfl : ([] : List UInt8) = [])
  have request := reaches.request_eq fun _ => (rfl : ([] : List UInt8) = [])
  have faulty (e : InputError) : prepared = .error e ↔ fault? prepared = some e := by
    cases prepared <;> simp [fault?]
  obtain ⟨told, printed, tells⟩ := told.tells faulty nothing
  refine ⟨told, by rw [← accepted_unlogged, unlogged_eq, printed], ?_⟩
  rw [fault, request]
  refine tells.mono fun event mem => ?_
  have inside : event ∈ unlogged ((Plan.settle x prepared).trace host middle) := by
    rw [unlogged_eq]
    exact List.mem_append_left _ mem
  have both : (Plan.finish x prepared).trace host middle = _ := Plan.trace_bind_ok settled
  rw [reaches.trace_eq, both]
  refine List.mem_append_right _ (List.mem_append_right _ (List.mem_append_left _ ?_))
  exact (List.mem_filter.1 inside).1

end Reaches

/-- The lines that were taken before a call: the menu, the line of the exercise and, before the halt, what became of
the exercise. -/
def ShownBefore (host : Host σ) (config : Config) (bench : Bench σ) (call : Call) (before : List Event) : Prop :=
  ∃ x told, selected host bench = some x ∧
    accepted before = (Exercise.menu.map menuLine ++ ((openingLine x).toList ++ told)).flatMap Utf8.encodeLine ∧
    if call = .halt then
      Tells x (inputError? config (tokens host config bench [])[1]? x)
        (request? config bench.words (tokens host config bench [])[1]? x) (trace host config bench) told
    else told = []

/-- If a call that is none of the console does not come back, the drill ends there, and all that it had to tell until
then was taken. -/
theorem told_before_unanswered {call : Call} (process : call.isProcess = true)
    (mem : .unanswered call ∈ trace host config bench) :
    ∃ before, trace host config bench = before ++ [.unanswered call] ∧ ShownBefore host config bench call before := by
  obtain ⟨before, -, last, -⟩ := last_of_unanswered mem
  obtain ⟨x, prepared, chosen, middle, reaches⟩ := reaches_of_call (mem_processCalls.2 ⟨⟨_, mem, rfl⟩, process⟩)
  have output : accepted before = accepted (trace host config bench) := by
    rw [last, accepted_append]
    exact (List.append_nil _).symm
  have lines {told : List String}
      (finish : accepted ((Plan.finish x prepared).trace host middle) = told.flatMap Utf8.encodeLine) :
      accepted before = (Exercise.menu.map menuLine ++ ((openingLine x).toList ++ told)).flatMap Utf8.encodeLine := by
    rw [output, reaches.accepted_eq, finish, ← List.flatMap_append, List.append_assoc]
  have late := reaches.unanswered_late mem
  have finish : Plan.finish x prepared = Plan.settle x prepared >>= fun _ => Plan.halt x := rfl
  rw [finish] at late lines
  cases settled : (Plan.settle x prepared).follow host middle with
  | error stop after =>
    -- the request of the exercise, before which there is nothing to tell
    rw [Plan.trace_bind_error settled] at late lines
    obtain ⟨other, silent⟩ := Plan.settle_unanswered late process
    exact ⟨before, last, x, [], reaches.selected_eq, lines silent, by rw [if_neg other]⟩
  | ok a after =>
    -- the halt
    rw [Plan.trace_bind_ok settled] at late lines
    have halting : .unanswered call ∈ (Plan.halt x).trace host after := by
      refine (List.mem_append.1 late).resolve_left fun early => ?_
      cases (Plan.word_of_follow settled).clean _ early
    obtain ⟨rfl, silent⟩ := Plan.halt_unanswered halting process
    obtain ⟨told, printed, tells⟩ := reaches.settled_tells settled
    refine ⟨before, last, x, told, reaches.selected_eq, lines ?_, by rwa [if_pos rfl]⟩
    rw [accepted_append, silent, List.append_nil, printed]

/-- A call that does not come back has made its trap, and no other trap follows. -/
theorem traps_of_unanswered {kernel : TrapHandler σ} {before : List Event} {call : Call}
    (last : trace kernel.host config bench = before ++ [.unanswered call]) :
    ∃ trap, call.trap? = some trap ∧ traps kernel config bench = trapsOf before ++ [trap] := by
  have issued : traps kernel config bench = trapsOf before ++ call.trap?.toList := by
    rw [traps_eq, last, trapsOf_concat]
    rfl
  cases made : call.trap? with
  | some trap =>
    rw [made] at issued
    exact ⟨trap, rfl, issued⟩
  | none =>
    obtain ⟨name, argv, rfl, zero⟩ := Call.zero_of_no_trap made
    have mem : .unanswered (.exec name argv) ∈ (Plan.drill config).trace kernel.host bench := by
      rw [← trace_eq, last]
      simp
    obtain ⟨s, hangs⟩ : Event.From kernel.host (.unanswered (.exec name argv)) := Plan.from_of_mem mem
    rw [kernel.answer_of_zero zero] at hangs
    cases hangs

/-! ## Machines that come back, and more random words -/

theorem trace_resumed {first second : Host σ} (resumes : second.Resumes first) (config : Config) (bench : Bench σ) :
    trace second config bench = trace first config bench ∨
      Resumed (trace first config bench) (trace second config bench) := by
  rw [trace_eq, trace_eq]
  exact resumes.trace_resumed (Plan.drill config) bench

theorem not_outOfWords {plan : Plan α} (noDraw : plan.Only fun s => s.isDraw = false) {after : Bench σ} :
    plan.follow host bench ≠ .error .outOfWords after := by
  intro stopped
  rcases noDraw.stop_eq (Plan.breaks_of_follow stopped) with no | no <;> cases no

/-- A drill runs out of random words only if the bound of its exercise accepts none of them. -/
theorem undrawn_of_outOfWords {after : Bench σ} (h : run host config bench = .error .outOfWords after) :
    ∃ x bound, selected host bench = some x ∧ config.bound? x = some bound ∧
      Random.draw? bound bench.words = none := by
  rw [← Plan.follow_drill, Plan.drill_eq, Plan.follow_bind] at h
  rcases bind_eq_error h with early | ⟨chosen, middle, choice, late⟩
  · exact absurd early (not_outOfWords Plan.noDraw_choice)
  have words : middle.words = bench.words := by
    have same := words_atConsole (choose host) bench
    rw [← follow_choice, choice] at same
    exact same
  match chosen with
  | none => cases late
  | some x =>
    cases bounded : config.bound? x with
    | none =>
      have noDraw := (Plan.noDraw_start bounded).bind fun prepared => Plan.noDraw_finish x prepared
      exact absurd late (not_outOfWords noDraw)
    | some bound =>
      obtain ⟨next, prepare, noDraw⟩ := Plan.prepare_draws bounded
      have noDraw (value : UInt32) := (noDraw value).bind fun prepared => Plan.noDraw_finish x prepared
      rw [Plan.pursue, Plan.start, prepare, bind_assoc, bind_assoc, Plan.follow_bind, Plan.follow_log,
        log_bind_apply, Plan.follow_bind, Plan.follow_draw] at late
      refine ⟨x, bound, selected_of_follow choice, bounded, ?_⟩
      rcases bind_eq_error late with drawing | ⟨value, rest, -, later⟩
      · rcases draw_eq_error drawing with ⟨-, no, -⟩ | ⟨none, -⟩
        · cases no
        · rw [← words]
          exact none
      · exact absurd later (not_outOfWords (noDraw value))

theorem outcome_alike {B : Bench σ → Bench τ → Prop} {r : EStateM.Result Stop (Bench σ) Termination}
    {r' : EStateM.Result Stop (Bench τ) Termination} (h : Alike B r r') : (verdict r).1 = (verdict r').1 := by
  cases h with
  | ok related => rfl
  | error related => rfl

/-- More random words make no difference to a drill that had enough. -/
theorem run_more_words {more : List UInt32} {longer : Bench σ} (supplied : Bench.Supplied more bench longer)
    (enough : ∀ after, run host config bench ≠ .error .outOfWords after) :
    trace host config longer = trace host config bench ∧
      (verdict (run host config longer)).1 = (verdict (run host config bench)).1 := by
  have recorded : Bench.Supplied more bench.recorded longer.recorded := by
    obtain ⟨console, words⟩ := supplied
    exact ⟨congrArg Console.recorded console, words⟩
  have here := (Plan.drill config).follow_more_words host supplied
  have traced := (Plan.drill config).follow_more_words host.recorded recorded
  have same := run_recorded host config bench
  rw [Plan.follow_drill] at here traced
  constructor
  · rw [trace_eq_record, trace_eq_record, left, left]
    generalize run host.recorded config bench.recorded = r at traced same
    cases traced with
    | alike alike => exact congrArg (fun c => c.machine.2) alike.leftBy.console
    | stopped out =>
      subst out
      generalize run host config bench = r' at same enough
      cases same with
      | error related => exact absurd rfl (enough _)
  · generalize run host config bench = r at here enough
    cases here with
    | alike alike => exact (outcome_alike alike).symm
    | stopped out => exact absurd rfl (out ▸ enough _)

end Drill

end ProcessDrill
