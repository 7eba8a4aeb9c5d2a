import ProcessDrill.Proofs.Drill.Series
import ProcessDrill.Proofs.Drill.Steps
/-!
# The stages of a drill

A drill chooses an exercise, starts it, which brings it to the point of its request, and finishes it.
* `Drill.selected` is the exercise that a drill chooses, `Drill.Reaches` says that it comes to its request.
* `Request.Told` is the record of a request: what is logged before the call and behind it, and the line that is
  printed.
* `Drill.Served` says that the console has not failed a drill.

Main statements: `reaches_of_call`, only a drill that comes to its request makes calls that are none of the
console, however it ends; `Reaches.prepares`, the request is that of the tokens and of the random words;
`answer_told`, what is told of an answer stands in the record behind it; `Served.reaches`, a drill that its console
has not failed comes to its request.
-/

namespace ProcessDrill

set_option autoImplicit false

variable {σ α β : Type}

/-! ## Parts without process calls -/

def Step.isAsk : Step → Bool
  | ask _ _ => true
  | _ => false

theorem mem_processCalls {events : List Event} {call : Call} :
    call ∈ processCalls events ↔ (∃ event ∈ events, event.call? = some call) ∧ call.isProcess = true := by
  rw [processCalls, List.mem_filter, List.mem_filterMap]

theorem processCalls_eq_nil {events : List Event}
    (h : ∀ event ∈ events, event.call?.any Call.isProcess = false) : processCalls events = [] := by
  refine List.eq_nil_iff_forall_not_mem.2 fun call mem => ?_
  obtain ⟨⟨event, inside, asked⟩, process⟩ := mem_processCalls.1 mem
  have := h event inside
  rw [asked, Option.any_some, process] at this
  cases this

namespace Plan

variable {plan : Plan α}

namespace Only

theorem no_process_of_word {events : List Event} {a : α} (h : plan.Only fun s => s.isAsk = false)
    (word : plan.Word events a) : ∀ event ∈ events, event.call?.any Call.isProcess = false := by
  induction plan generalizing events with
  | done b =>
    obtain ⟨rfl, -, -⟩ := word
    exact nofun
  | step s next ih =>
    obtain ⟨first, result, _, more, here, rest, rfl⟩ := word
    refine List.forall_mem_append.2 ⟨?_, ih result (h.2 result) rest⟩
    have console : (∀ event ∈ first, event.IsConsole) → ∀ event ∈ first, event.call?.any Call.isProcess = false := by
      intro all event mem
      rcases all event mem with ⟨_, asked⟩ | ⟨_, asked⟩ <;> rw [asked] <;> rfl
    cases s with
    | write bytes => exact console fun event mem => .inr (Written.isWrite here event mem)
    | token limit => exact console (Refills.isConsole here)
    | ask call process => cases h.1
    | log record =>
      obtain rfl : first = _ := here
      exact List.forall_mem_singleton.2 rfl
    | draw bound =>
      obtain rfl : first = _ := here
      exact nofun

theorem no_process (h : plan.Only fun s => s.isAsk = false) (host : Host σ) (bench : Bench σ) :
    ∀ event ∈ plan.trace host bench, event.call?.any Call.isProcess = false := by
  obtain ⟨word, a, complete, cut⟩ := cut_trace host plan bench
  exact cut.forall_call? (P := fun call? => call?.any Call.isProcess = false) (h.no_process_of_word complete)

theorem processCalls_eq (h : plan.Only fun s => s.isAsk = false) (host : Host σ) (bench : Bench σ) :
    processCalls (plan.trace host bench) = [] :=
  processCalls_eq_nil (h.no_process host bench)

end Only

/-! ## The stages -/

def choice : Plan (Option Exercise) := do
  printLines (Exercise.menu.map Drill.menuLine)
  selection

/-- Brings the exercise that was chosen to its request. -/
def start (config : Config) (x : Exercise) : Plan (Except InputError (Option Request)) := do
  log .info .drill ("test case " ++ Text.signed x.number.toInt ++ ": " ++ x.title)
  prepare config x

def finish (x : Exercise) (prepared : Except InputError (Option Request)) : Plan Termination := do
  settle x prepared
  halt x

def pursue (config : Config) : Option Exercise → Plan Termination
  | none => pure .noSelection
  | some x => start config x >>= finish x

theorem drill_eq (config : Config) : drill config = choice >>= pursue config := by
  rw [drill, choice, bind_assoc]
  rfl

theorem only_choice {kind : Step → Prop} (write : ∀ bytes, kind (.write bytes))
    (token : ∀ limit, kind (.token limit)) (log : ∀ record, record.isTitle = false → kind (.log record)) :
    choice.Only kind :=
  (only_printLines write _).bind fun _ => only_selection token log

theorem only_start {kind : Step → Prop} {config : Config} {x : Exercise} (write : ∀ bytes, kind (.write bytes))
    (token : ∀ limit, kind (.token limit)) (log : ∀ record, kind (.log record))
    (draw : ∀ bound, config.bound? x = some bound → kind (.draw bound)) : (start config x).Only kind :=
  (Only.single (log _)).bind fun _ => only_prepare token write draw

theorem only_finish {kind : Step → Prop} (write : ∀ bytes, kind (.write bytes))
    (ask : ∀ call process, kind (.ask call process)) (log : ∀ record, record.isTitle = false → kind (.log record))
    (x : Exercise) (prepared : Except InputError (Option Request)) : (finish x prepared).Only kind :=
  (only_settle write ask log x prepared).bind fun _ => only_halt write ask log x

theorem noAsk_choice : choice.Only (·.isAsk = false) :=
  only_choice (fun _ => rfl) (fun _ => rfl) fun _ _ => rfl

theorem noAsk_start (config : Config) (x : Exercise) : (start config x).Only (·.isAsk = false) :=
  only_start (fun _ => rfl) (fun _ => rfl) (fun _ => rfl) fun _ _ => rfl

theorem noDraw_choice : choice.Only (·.isDraw = false) :=
  only_choice (fun _ => rfl) (fun _ => rfl) fun _ _ => rfl

theorem noDraw_start {config : Config} {x : Exercise} (h : config.bound? x = none) :
    (start config x).Only (·.isDraw = false) := by
  refine only_start (fun _ => rfl) (fun _ => rfl) (fun _ => rfl) fun bound draws => ?_
  rw [h] at draws
  cases draws

theorem noDraw_finish (x : Exercise) (prepared : Except InputError (Option Request)) :
    (finish x prepared).Only (·.isDraw = false) :=
  only_finish (fun _ => rfl) (fun _ _ => rfl) (fun _ _ => rfl) x prepared

theorem uses_choice {before after : Source} {events : List Event} {selected : Option Exercise}
    (h : Along Step.Uses choice before events selected after) :
    selected = before.exercise? ∧ after = before.rest := by
  obtain ⟨_, _, _, _, shown, read, -⟩ := along_bind.1 h
  obtain rfl := uses_printLines shown
  exact uses_selection read

theorem prepares_of_start {config : Config} {x : Exercise} {before after : Source} {events : List Event}
    {prepared : Except InputError (Option Request)}
    (h : Along Step.Uses (start config x) before events prepared after) : Prepares config before x prepared after := by
  obtain ⟨_, _, _, _, logged, reached, -⟩ := along_bind.1 h
  obtain rfl := uses_log logged
  exact prepares_of_uses reached

/-- The calls of the last stage: the request, if there is one, and the halt. -/
theorem processCalls_finish (x : Exercise) (prepared : Except InputError (Option Request)) (host : Host σ)
    (bench : Bench σ) :
    processCalls ((finish x prepared).trace host bench) <+:
      prepared.toOption.join.toList.map Request.call ++ [.halt] := by
  obtain ⟨word, t, complete, cut⟩ := cut_trace host (finish x prepared) bench
  obtain ⟨first, _, more, settled, halted, rfl⟩ := word_bind complete
  obtain ⟨request, report, eq, settled⟩ := word_settle settled
  obtain ⟨answer, halt, refusal, eq', halted, -⟩ := word_halt halted
  have calls := cut.calls.filter Call.isProcess
  have whole : processCalls (first ++ more) = prepared.toOption.join.toList.map Request.call ++ [.halt] := by
    rw [processCalls_append, ← processCalls_unlogged first, ← processCalls_unlogged more, eq, eq',
      settled.processCalls_eq, halted.processCalls_eq]
  rwa [← whole]

end Plan

/-! ## The record of a request -/

/-- The record from the announcement of a request on. If the call is answered, what was found is logged, and the
report is printed, as far as the output goes. -/
inductive Request.Told (r : Request) : List Event → Prop
  | unanswered : Told r [.logged ⟨.debug, .exercise, r.announcement⟩, .unanswered r.call]
  | answered (answer : r.call.Answer) {rest : List Event}
      (shown : accepted rest <+: Utf8.encodeLine (r.report answer) ∨
        Utf8.encodeLine (r.report answer) <+: accepted rest) :
      Told r (.logged ⟨.debug, .exercise, r.announcement⟩ :: .answered r.call answer ::
        .logged ⟨.info, .exercise, r.finding answer⟩ :: rest)

namespace Plan

variable {r : Request} {host : Host σ} {before after : Stock} {events : List Event}

theorem told_of_happens {a : Unit} (h : Along Step.Happens (request r) before events a after) :
    ∃ answer report, accepted report = Utf8.encodeLine (r.report answer) ∧
      events = .logged ⟨.debug, .exercise, r.announcement⟩ :: .answered r.call answer ::
        .logged ⟨.info, .exercise, r.finding answer⟩ :: report := by
  obtain ⟨_, _, _, _, announced, rest, rfl⟩ := along_bind.1 h
  obtain ⟨_, answer, _, _, asked, found, rfl⟩ := along_bind.1 rest
  obtain ⟨_, _, _, report, logged, printed, rfl⟩ := along_bind.1 found
  obtain ⟨rfl, rfl⟩ := along_single.1 announced
  obtain ⟨rfl, rfl⟩ := along_single.1 asked
  obtain ⟨rfl, rfl⟩ := along_single.1 logged
  have printed := (word_printLine (word_of_happens printed)).accepted_eq
  rw [List.flatMap_singleton] at printed
  exact ⟨answer, report, printed, rfl⟩

/-- A call that is announced breaks off unanswered, or what comes behind its answer does. -/
theorem breaks_asking {call : Call} {process : call.isProcess = true} {next : call.Answer → Plan α}
    {level : Log.Level} {source : Log.Source} {message : String} {stop : Stop}
    (h : (log level source message >>= fun _ => ask call process >>= next).Breaks host before events stop after) :
    events = [.logged ⟨level, source, message⟩, .unanswered call] ∨ ∃ answer more,
      events = .logged ⟨level, source, message⟩ :: .answered call answer :: more ∧
        (next answer).Breaks host before more stop after := by
  rcases h with logged | ⟨_, _, _, _, ⟨rfl, rfl⟩, rest, rfl⟩
  · exact logged.elim
  rcases rest with ⟨rfl, -, -⟩ | ⟨_, answer, _, more, ⟨rfl, rfl⟩, rest, rfl⟩
  · exact .inl rfl
  · exact .inr ⟨answer, more, rfl, rest⟩

theorem told_of_breaks {stop : Stop} (h : (request r).Breaks host before events stop after) : r.Told events := by
  rcases breaks_asking h with rfl | ⟨answer, _, rfl, rest⟩
  · exact .unanswered
  rcases rest with logged | ⟨_, _, _, report, ⟨rfl, rfl⟩, rest, rfl⟩
  · exact logged.elim
  refine .answered answer (.inl ?_)
  have breaks : (printLine (r.report answer)).Breaks host _ report stop after := rest
  obtain ⟨word, a, complete, cut⟩ := breaks.cut
  have taken := cut.accepted
  rwa [(word_printLine complete).accepted_eq, List.flatMap_singleton] at taken

theorem processCalls_request (r : Request) (host : Host σ) (bench : Bench σ) :
    processCalls ((request r).trace host bench) <+: [r.call] := by
  obtain ⟨word, a, complete, cut⟩ := cut_trace host (request r) bench
  obtain ⟨answer, report, eq, printed⟩ := word_request complete
  have whole : processCalls word = [r.call] := by
    rw [← processCalls_unlogged, eq, ← List.singleton_append, processCalls_append,
      processCalls_of_console printed.isConsole]
    cases r <;> rfl
  rw [← whole]
  exact cut.calls.filter Call.isProcess

theorem finish_request (x : Exercise) (r : Request) :
    finish x (.ok (some r)) = request r >>= fun _ => halt x := rfl

theorem told_finish (x : Exercise) (r : Request) (host : Host σ) (bench : Bench σ) :
    r.Told ((finish x (.ok (some r))).trace host bench) := by
  cases h : (request r).follow host bench with
  | ok a after =>
    obtain ⟨answer, report, printed, eq⟩ := told_of_happens (happens_of_follow h)
    rw [finish_request, trace_bind_ok h, eq]
    refine .answered answer (.inr ?_)
    show _ <+: accepted (report ++ _)
    rw [accepted_append, printed]
    exact List.prefix_append _ _
  | error stop after =>
    rw [finish_request, trace_bind_error h]
    exact told_of_breaks (breaks_of_follow h)

/-- Whoever comes to the halt asks for it. -/
theorem mem_halt (x : Exercise) (host : Host σ) (bench : Bench σ) :
    .halt ∈ processCalls ((halt x).trace host bench) := by
  cases h : (halt x).follow host bench with
  | ok t after =>
    obtain ⟨answer, halted, refusal, eq, halt, -⟩ := word_halt (word_of_follow h)
    rw [← processCalls_unlogged, eq, halt.processCalls_eq]
    exact List.mem_singleton_self _
  | error stop after =>
    obtain ⟨event, mem, asked⟩ : ∃ event ∈ (halt x).trace host bench, event.call? = some .halt := by
      rcases breaks_asking (breaks_of_follow h) with eq | ⟨answer, more, eq, -⟩
      · exact ⟨.unanswered .halt, eq ▸ by simp, rfl⟩
      · exact ⟨.answered .halt answer, eq ▸ by simp, rfl⟩
    exact mem_processCalls.2 ⟨⟨event, mem, asked⟩, rfl⟩

end Plan

/-- The answer to a request is the one of its record. -/
theorem Request.Told.of_answered {r : Request} {events : List Event} (told : r.Told events)
    (calls : processCalls events <+: [r.call, .halt]) {answer : r.call.Answer}
    (mem : .answered r.call answer ∈ events) :
    ∃ rest, events = .logged ⟨.debug, .exercise, r.announcement⟩ :: .answered r.call answer ::
        .logged ⟨.info, .exercise, r.finding answer⟩ :: rest ∧
      (accepted rest <+: Utf8.encodeLine (r.report answer) ∨ Utf8.encodeLine (r.report answer) <+: accepted rest) := by
  cases told with
  | unanswered => simp at mem
  | @answered other rest shown =>
    have once : .answered r.call answer ∉ rest := by
      intro mem
      have again : r.call ∈ processCalls rest := mem_processCalls.2 ⟨⟨_, mem, rfl⟩, Plan.isProcess_call r⟩
      have first : processCalls (.logged ⟨.debug, .exercise, r.announcement⟩ :: .answered r.call other ::
          .logged ⟨.info, .exercise, r.finding other⟩ :: rest) = r.call :: processCalls rest := by
        cases r <;> rfl
      rw [first, List.prefix_cons_inj] at calls
      have halt := List.mem_singleton.1 (calls.subset again)
      cases r <;> cases halt
    have same : answer = other := by
      simpa [once] using mem
    rw [same]
    exact ⟨rest, rfl, shown⟩

theorem Request.call_injective {r r' : Request} (h : r.call = r'.call) : r = r' := by
  cases r <;> cases r' <;> cases h <;> rfl

theorem prepared_of_request {prepared : Except InputError (Option Request)} {r : Request}
    (h : prepared.toOption.join = some r) : prepared = .ok (some r) := by
  match prepared with
  | .ok (some _) =>
    cases h
    rfl
  | .ok none => cases h
  | .error e => cases h

/-! ## What a request tells of its exercise -/

namespace Drill

variable {config : Config} {words : List UInt32} {answer : Option (List UInt8)} {x : Exercise}

/-- A program that is asked for is one that was drawn, or one that was named and fits. -/
theorem of_exec {name : List UInt8} {argv : Argv} (h : request? config words answer x = some (.exec name argv)) :
    (x = .missingFile ∧ ∃ value rest, Random.draw? config.fileNameBound words = some (value, rest) ∧
        name = fileName value) ∨
      ((x = .nullArguments ∨ x = .runProgram) ∧ answer = some name ∧ name.length < config.nameCapacity) := by
  cases x with
  | missingFile =>
    obtain ⟨⟨value, rest⟩, drawn, same⟩ := Option.map_eq_some_iff.1 h
    cases same
    exact .inl ⟨rfl, value, rest, drawn, rfl⟩
  | nullArguments =>
    obtain ⟨typed, given, same⟩ := Option.map_eq_some_iff.1 h
    cases same
    obtain ⟨given, fits⟩ := Option.filter_eq_some_iff.1 given
    exact .inr ⟨.inl rfl, given, of_decide_eq_true fits⟩
  | runProgram =>
    obtain ⟨typed, given, same⟩ := Option.map_eq_some_iff.1 h
    cases same
    obtain ⟨given, fits⟩ := Option.filter_eq_some_iff.1 given
    exact .inr ⟨.inr rfl, given, of_decide_eq_true fits⟩
  | execFailure => cases h
  | _ =>
    obtain ⟨_, -, no⟩ := Option.map_eq_some_iff.1 h
    cases no

/-- A process that is waited for is one that was drawn, or one whose number was typed. -/
theorem of_join {pid : Pid} (h : request? config words answer x = some (.join pid)) :
    (x = .strangerJoin ∧ ∃ value rest, Random.draw? config.pidBound words = some (value, rest) ∧
        pid = ⟨value.toUInt64⟩) ∨
      (x = .joinChild ∧ ∃ n, answer.bind Token.integer? = some n ∧ pid = .ofInt32 n) := by
  cases x with
  | strangerJoin =>
    obtain ⟨⟨value, rest⟩, drawn, same⟩ := Option.map_eq_some_iff.1 h
    cases same
    exact .inl ⟨rfl, value, rest, drawn, rfl⟩
  | joinChild =>
    obtain ⟨n, given, same⟩ := Option.map_eq_some_iff.1 h
    cases same
    exact .inr ⟨rfl, n, given, rfl⟩
  | execFailure => cases h
  | _ =>
    obtain ⟨_, -, no⟩ := Option.map_eq_some_iff.1 h
    cases no

end Drill

/-! ## Stages of a drill -/

namespace Drill

def choose (host : Host σ) : Session σ (Option Exercise) := do
  showMenu host
  readSelection host

/-- The exercise that a drill chooses, if it comes to choose one. -/
def selected (host : Host σ) (bench : Bench σ) : Option Exercise :=
  match choose host bench.console with
  | .ok selected _ => selected
  | .error _ _ => none

theorem follow_choice (host : Host σ) : Plan.choice.follow host = atConsole (choose host) := by
  rw [Plan.choice, Plan.follow_bind, Plan.follow_printLines, Plan.follow_selection, choose, atConsole_bind]
  rfl

theorem selected_of_follow {host : Host σ} {bench middle : Bench σ} {chosen : Option Exercise}
    (h : Plan.choice.follow host bench = .ok chosen middle) : selected host bench = chosen := by
  rw [follow_choice] at h
  obtain ⟨c, here, -⟩ := atConsole_eq_ok h
  rw [selected, here]

theorem follow_of_selected {host : Host σ} {bench : Bench σ} {x : Exercise} (h : selected host bench = some x) :
    ∃ chosen, Plan.choice.follow host bench = .ok (some x) chosen := by
  rw [selected] at h
  split at h
  · next c run =>
    rw [follow_choice, atConsole, run, h]
    exact ⟨_, rfl⟩
  · cases h

/-- The tokens of the input of a drill, when `future` is still to come. -/
def tokens (host : Host σ) (config : Config) (bench : Bench σ) (future : List UInt8) : List (List UInt8) :=
  Text.tokens (bench.console.pending ++ (delivered (trace host config bench) ++ future))

/-- A drill has chosen an exercise, which leaves the bench `chosen`, and has brought it to its request, which
leaves the bench `middle`. -/
structure Reaches (host : Host σ) (config : Config) (bench : Bench σ) (x : Exercise)
    (prepared : Except InputError (Option Request)) (chosen middle : Bench σ) : Prop where
  choice : Plan.choice.follow host bench = .ok (some x) chosen
  start : (Plan.start config x).follow host chosen = .ok prepared middle

variable {host : Host σ} {config : Config} {bench chosen middle : Bench σ} {x : Exercise}
variable {prepared : Except InputError (Option Request)}

namespace Reaches

variable (h : Reaches host config bench x prepared chosen middle)
include h

theorem run_eq : run host config bench = (Plan.finish x prepared).follow host middle := by
  rw [← Plan.follow_drill, Plan.drill_eq, Plan.follow_bind_ok h.choice]
  exact Plan.follow_bind_ok h.start

theorem trace_eq : trace host config bench =
    Plan.choice.trace host bench ++
      ((Plan.start config x).trace host chosen ++ (Plan.finish x prepared).trace host middle) := by
  have started : (Plan.pursue config (some x)).trace host chosen = _ := Plan.trace_bind_ok h.start
  rw [Drill.trace_eq, Plan.drill_eq, Plan.trace_bind_ok h.choice, started]

theorem selected_eq : selected host bench = some x :=
  selected_of_follow h.choice

theorem processCalls_eq :
    processCalls (trace host config bench) = processCalls ((Plan.finish x prepared).trace host middle) := by
  have choice := Plan.noAsk_choice.processCalls_eq host bench
  have start := (Plan.noAsk_start config x).processCalls_eq host chosen
  rw [h.trace_eq, processCalls_append, processCalls_append, choice, start]
  rfl

/-- The request is that of the tokens, whatever input is still to come. -/
theorem prepares {future : List UInt8} (nothing : (left host config bench).console.atEnd = true → future = []) :
    (bench.stock.source (delivered (trace host config bench) ++ future)).exercise? = some x ∧
      ∃ after, Prepares config (bench.stock.source (delivered (trace host config bench) ++ future)).rest x prepared
        after := by
  rw [left, ← Plan.follow_drill, Plan.drill_eq] at nothing
  have choice := Plan.uses_of_follow h.choice nothing
  rw [Plan.follow_bind_ok h.choice] at nothing
  have start := Plan.uses_of_follow h.start nothing
  obtain ⟨selected, rest⟩ := Plan.uses_choice choice
  have prepares := Plan.prepares_of_start start
  rw [← Plan.drill_eq, ← Drill.trace_eq] at selected rest
  rw [← rest]
  exact ⟨selected.symm, _, prepares⟩

theorem exercise_eq {future : List UInt8} (nothing : (left host config bench).console.atEnd = true → future = []) :
    ((tokens host config bench future)[0]?.bind Token.integer?).bind Exercise.ofNumber? = some x := by
  rw [← List.head?_eq_getElem?]
  exact (h.prepares nothing).1

theorem request_eq {future : List UInt8} (nothing : (left host config bench).console.atEnd = true → future = []) :
    request? config bench.words (tokens host config bench future)[1]? x = prepared.toOption.join := by
  obtain ⟨-, after, prepares⟩ := h.prepares nothing
  rw [prepares.request_eq, ← List.head?_tail]
  rfl

theorem told {r : Request} (requested : prepared = .ok (some r)) :
    ∃ before events, trace host config bench = before ++ events ∧ r.Told events ∧
      processCalls events = processCalls (trace host config bench) := by
  subst requested
  refine ⟨Plan.choice.trace host bench ++ (Plan.start config x).trace host chosen, _, ?_,
    Plan.told_finish x r host middle, h.processCalls_eq.symm⟩
  rw [h.trace_eq, List.append_assoc]

/-- A drill that comes to its request makes its call, and none but the halt behind it. -/
theorem calls {r : Request} (requested : prepared = .ok (some r)) :
    r.call ∈ processCalls (trace host config bench) ∧ processCalls (trace host config bench) <+: [r.call, .halt] := by
  have calls := Plan.processCalls_finish x prepared host middle
  rw [← h.processCalls_eq, requested] at calls
  obtain ⟨before, events, -, told, same⟩ := h.told requested
  rw [← same] at calls ⊢
  refine ⟨?_, calls⟩
  cases told with
  | unanswered => exact mem_processCalls.2 ⟨⟨.unanswered r.call, by simp, rfl⟩, Plan.isProcess_call r⟩
  | answered answer shown => exact mem_processCalls.2 ⟨⟨.answered r.call answer, by simp, rfl⟩, Plan.isProcess_call r⟩

end Reaches

/-- Whatever ends a drill, its calls that are none of the console come from its last stage. -/
theorem reaches_of_call {call : Call} (mem : call ∈ processCalls (trace host config bench)) :
    ∃ x prepared chosen middle, Reaches host config bench x prepared chosen middle := by
  have choice := Plan.noAsk_choice.processCalls_eq host bench
  rw [trace_eq, Plan.drill_eq] at mem
  cases chosen : Plan.choice.follow host bench with
  | error stop after =>
    rw [Plan.trace_bind_error chosen, choice] at mem
    cases mem
  | ok selected middle =>
    rw [Plan.trace_bind_ok chosen, processCalls_append, choice] at mem
    match selected with
    | none => cases mem
    | some x =>
      have start := (Plan.noAsk_start config x).processCalls_eq host middle
      cases started : (Plan.start config x).follow host middle with
      | error stop after =>
        have traced : (Plan.pursue config (some x)).trace host middle = _ := Plan.trace_bind_error started
        rw [traced, start] at mem
        cases mem
      | ok prepared last => exact ⟨x, prepared, middle, last, chosen, started⟩

/-- A call that some request makes comes from this request. -/
theorem reaches_of_request {r : Request} (mem : r.call ∈ processCalls (trace host config bench)) :
    ∃ x chosen middle, Reaches host config bench x (.ok (some r)) chosen middle := by
  obtain ⟨x, prepared, chosen, middle, reaches⟩ := reaches_of_call mem
  have calls := Plan.processCalls_finish x prepared host middle
  rw [← reaches.processCalls_eq] at calls
  rcases List.mem_append.1 (calls.subset mem) with requested | halt
  · obtain ⟨r', present, same⟩ := List.mem_map.1 requested
    obtain rfl := Request.call_injective same
    obtain rfl := prepared_of_request (Option.mem_toList.1 present)
    exact ⟨x, chosen, middle, reaches⟩
  · have same := List.mem_singleton.1 halt
    cases r <;> cases same

/-- What is told of an answer to a request stands in the record behind it. -/
theorem answer_told {r : Request} {answer : r.call.Answer} (mem : .answered r.call answer ∈ trace host config bench) :
    ∃ before rest, trace host config bench = before ++ .answered r.call answer ::
        .logged ⟨.info, .exercise, r.finding answer⟩ :: rest ∧
      (accepted rest <+: Utf8.encodeLine (r.report answer) ∨ Utf8.encodeLine (r.report answer) <+: accepted rest) := by
  have asked : r.call ∈ processCalls (trace host config bench) :=
    mem_processCalls.2 ⟨⟨_, mem, rfl⟩, Plan.isProcess_call r⟩
  obtain ⟨x, chosen, middle, reaches⟩ := reaches_of_request asked
  obtain ⟨-, calls⟩ := reaches.calls rfl
  obtain ⟨before, events, whole, told, same⟩ := reaches.told rfl
  have early : processCalls before = [] := by
    rw [whole, processCalls_append] at same
    exact List.self_eq_append_left.1 same
  rw [whole] at mem
  have late : .answered r.call answer ∈ events := by
    refine (List.mem_append.1 mem).resolve_left fun first => ?_
    have : r.call ∈ processCalls before := mem_processCalls.2 ⟨⟨_, first, rfl⟩, Plan.isProcess_call r⟩
    rw [early] at this
    cases this
  obtain ⟨rest, eq, shown⟩ := told.of_answered (same ▸ calls) late
  refine ⟨before ++ [.logged ⟨.debug, .exercise, r.announcement⟩], rest, ?_, shown⟩
  rw [whole, eq, List.append_assoc, List.singleton_append]

/-! ## A console that works -/

/-- The console has not failed a drill: no read or write was refused or has hung, and no token was given up. -/
structure Served (host : Host σ) (config : Config) (bench : Bench σ) : Prop where
  console : ∀ event ∈ trace host config bench, event.IsConsole → event.stop? = none
  patient : ∀ after, run host config bench ≠ .error .outOfPatience after

end Drill

theorem Drill.served_of_ok {host : Host σ} {config : Config} {bench after : Bench σ} {t : Termination}
    (h : Drill.run host config bench = .ok t after) : Drill.Served host config bench where
  console := fun event mem _ => (Plan.word_of_happens (Drill.run_ok h)).clean event mem
  patient := by
    intro after stopped
    rw [h] at stopped
    cases stopped

theorem Drill.served_of_verdict {host : Host σ} {config : Config} {bench : Bench σ} {t : Termination}
    (h : (Drill.verdict (Drill.run host config bench)).1 = .ok t) : Drill.Served host config bench := by
  cases ended : Drill.run host config bench with
  | ok t' after => exact served_of_ok ended
  | error stop after =>
    rw [ended] at h
    cases h

/-- Without a call that hangs, only the console forces a stop. -/
theorem clean_of_console {events : List Event} (console : ∀ event ∈ events, event.IsConsole → event.stop? = none)
    (answered : ∀ call, .unanswered call ∈ events → call.isProcess = false) : Clean events := by
  intro event mem
  have served := console event mem
  cases event with
  | logged record => rfl
  | answered call answer =>
    cases call with
    | read buffer => exact served (.inl ⟨buffer, rfl⟩)
    | write bytes => exact served (.inr ⟨bytes, rfl⟩)
    | _ => rfl
  | unanswered call =>
    have other := answered call mem
    cases call with
    | read buffer => exact served (.inl ⟨buffer, rfl⟩)
    | write bytes => exact served (.inr ⟨bytes, rfl⟩)
    | _ => cases other

namespace Drill

variable {host : Host σ} {config : Config} {bench : Bench σ} {x : Exercise}

/-- If nothing is drawn, a drill that its console has not failed comes to the request of the exercise that the
first token chooses. -/
theorem Served.reaches (served : Served host config bench) {future : List UInt8}
    (nothing : (left host config bench).console.atEnd = true → future = [])
    (selects : (tokens host config bench future)[0]?.bind Token.integer? = some x.number)
    (drawless : config.bound? x = none) :
    ∃ prepared chosen middle, Reaches host config bench x prepared chosen middle := by
  have selects : (bench.stock.source (delivered (trace host config bench) ++ future)).exercise? = some x := by
    rw [← List.head?_eq_getElem?] at selects
    exact (congrArg (·.bind Exercise.ofNumber?) selects).trans (Exercise.ofNumber?_number x)
  have console := served.console
  have patient := served.patient
  rw [left, ← Plan.follow_drill, Plan.drill_eq] at nothing
  rw [trace_eq, Plan.drill_eq] at console selects
  rw [← Plan.follow_drill, Plan.drill_eq] at patient
  have choosing : ∃ selected chosen, Plan.choice.follow host bench = .ok selected chosen := by
    have quiet := Plan.noAsk_choice.no_process host bench
    refine Plan.noDraw_choice.follow_ok (clean_of_console (fun event mem => ?_) fun call => quiet _)
      fun after stopped => ?_
    · exact console event (Plan.subset_trace_bind host _ _ bench mem)
    · exact patient _ (Plan.follow_bind_error stopped)
  obtain ⟨selected, chosen, choice⟩ := choosing
  obtain ⟨same, -⟩ := Plan.uses_choice (Plan.uses_of_follow choice nothing)
  obtain rfl : selected = some x := same.trans selects
  -- the second stage is followed on the bench that the first one leaves, and its record is part of the whole
  rw [Plan.trace_bind_ok choice] at console
  rw [Plan.follow_bind_ok choice] at patient
  have starting : ∃ prepared middle, (Plan.start config x).follow host chosen = .ok prepared middle := by
    have quiet := (Plan.noAsk_start config x).no_process host chosen
    refine (Plan.noDraw_start drawless).follow_ok (clean_of_console (fun event mem => ?_) fun call => quiet _)
      fun after stopped => ?_
    · exact console event (List.mem_append_right _ (Plan.subset_trace_bind host _ _ chosen mem))
    · exact patient _ (Plan.follow_bind_error stopped)
  obtain ⟨prepared, middle, start⟩ := starting
  exact ⟨prepared, chosen, middle, choice, start⟩

theorem Served.reaches_request {r : Request} (served : Served host config bench) {future : List UInt8}
    (nothing : (left host config bench).console.atEnd = true → future = [])
    (selects : (tokens host config bench future)[0]?.bind Token.integer? = some x.number)
    (drawless : config.bound? x = none)
    (requested : request? config bench.words (tokens host config bench future)[1]? x = some r) :
    ∃ chosen middle, Reaches host config bench x (.ok (some r)) chosen middle := by
  obtain ⟨prepared, chosen, middle, reaches⟩ := served.reaches nothing selects drawless
  have same := reaches.request_eq nothing
  rw [requested] at same
  obtain rfl := prepared_of_request same.symm
  exact ⟨chosen, middle, reaches⟩

theorem Served.request_ok {r : Request} {chosen middle : Bench σ} (served : Served host config bench)
    (reaches : Reaches host config bench x (.ok (some r)) chosen middle)
    (answers : ∀ s, (host.answer r.call s).1 ≠ none) :
    ∃ a after, (Plan.request r).follow host middle = .ok a after := by
  have noDraw : (Plan.request r).Only (·.isDraw = false) :=
    Plan.only_request (fun _ => rfl) (fun _ _ => rfl) (fun _ _ => rfl) r
  refine noDraw.follow_ok (clean_of_console (fun event mem => ?_) fun call mem => ?_) fun after stopped => ?_
  · refine served.console event ?_
    rw [reaches.trace_eq]
    exact List.mem_append_right _ (List.mem_append_right _ (Plan.subset_trace_bind host _ _ middle mem))
  · rw [Bool.eq_false_iff]
    intro process
    have asked := mem_processCalls.2 ⟨⟨_, mem, rfl⟩, process⟩
    obtain rfl := List.mem_singleton.1 ((Plan.processCalls_request r host middle).subset asked)
    obtain ⟨s, none⟩ : Event.From host (.unanswered r.call) := Plan.from_of_mem mem
    exact absurd none (answers s)
  · have stops := served.patient after
    rw [reaches.run_eq] at stops
    exact stops (Plan.follow_bind_error stopped)

/-- A drill that its console has not failed reports an answer to its request, if it gets one, and halts. -/
theorem Served.reports {r : Request} {chosen middle : Bench σ} (served : Served host config bench)
    (reaches : Reaches host config bench x (.ok (some r)) chosen middle)
    (answers : ∀ s, (host.answer r.call s).1 ≠ none) :
    (∃ answer, (∃ s, (host.answer r.call s).1 = some answer) ∧ ∃ before after,
      accepted (trace host config bench) = before ++ Utf8.encodeLine (r.report answer) ++ after) ∧
    .halt ∈ processCalls (trace host config bench) := by
  obtain ⟨a, after, finished⟩ := served.request_ok reaches answers
  obtain ⟨answer, report, printed, eq⟩ := Plan.told_of_happens (Plan.happens_of_follow finished)
  have traced : (Plan.finish x (.ok (some r))).trace host middle =
      (Plan.request r).trace host middle ++ (Plan.halt x).trace host after := by
    rw [Plan.finish_request, Plan.trace_bind_ok finished]
  refine ⟨⟨answer, ?_, ?_⟩, ?_⟩
  · have mem : Event.answered r.call answer ∈ (Plan.request r).trace host middle := by
      rw [eq]
      simp
    exact Plan.from_of_mem mem
  · refine ⟨accepted (Plan.choice.trace host bench ++ (Plan.start config x).trace host chosen),
      accepted ((Plan.halt x).trace host after), ?_⟩
    have silent : accepted ((Plan.request r).trace host middle) = Utf8.encodeLine (r.report answer) := by
      rw [eq, accepted_cons, accepted_cons, accepted_cons, printed]
      cases r <;> rfl
    rw [reaches.trace_eq, traced]
    simp only [accepted_append, silent, List.append_assoc]
  · rw [reaches.processCalls_eq, traced, processCalls_append]
    exact List.mem_append_right _ (Plan.mem_halt x host after)

end Drill

end ProcessDrill
