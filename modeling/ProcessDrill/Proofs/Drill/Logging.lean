import ProcessDrill.Proofs.Drill.Pids
import ProcessDrill.Proofs.Drill.Transcript
import ProcessDrill.Proofs.Plan.Notes
/-!
# What a drill logs

`warnings` are the messages of a record that warn. Main statement: `run_logged`, the log of a drill, for any
configuration, random words, machine and state of the console, whether the drill comes to its end or stops anywhere.
* What stands next to each call that is none of the console, and next to each record of one, is as `Event.Paired`
  says: such a call is announced just before it, and what it was answered is logged just behind it, so before anything
  is printed of it; and there is no such record without its call.
* The announcement names the call with its arguments, unless a process is waited for whose number was drawn and has
  more than 31 bits. The record behind it carries the answer, unless a program was started whose number is not one of
  32 bits.
* If an exercise was chosen, one record names it. It stands behind the menu and the selection, in which there is no
  other call, and before all that belongs to the exercise. If none was chosen there is no such record.
* A drill that comes to its end without an exercise has warned once. With one, it has warned of an answer that is of
  no use, and of a halt that was refused, and of nothing else.
-/

namespace ProcessDrill

set_option autoImplicit false

variable {σ α β : Type}

/-! ## The drill notes its calls -/

theorem Request.announcement?_call (r : Request) :
    r.call.announcement? = some ⟨.debug, .exercise, r.announcement⟩ := by
  cases r <;> rfl

theorem Request.finding?_answered (r : Request) (answer : r.call.Answer) :
    (Event.answered r.call answer).finding? = some ⟨.info, .exercise, r.finding answer⟩ := by
  rw [Event.finding?]
  cases r with
  | exec name argv =>
    cases answer <;> simp only [Event.record?, answerText, finding, text, String.append_assoc] <;> rfl
  | join pid =>
    cases answer <;> simp only [Event.record?, answerText, finding, text, String.append_assoc] <;> rfl
  | exit status =>
    simp only [Event.record?, finding, text, String.append_assoc]
    rfl

namespace Plan

theorem isRemark_drill {level : Log.Level} {message : String} (debug : level ≠ .debug)
    (first : message.toList.head? ≠ some 'h') : (⟨level, .drill, message⟩ : Log.Record).IsRemark := by
  refine ⟨debug, ?_⟩
  rintro (⟨-, no⟩ | ⟨-, rest, eq⟩)
  · cases no
  · refine first ?_
    show message.toList.head? = _
    rw [← eq]
    rfl

theorem notes_log {level : Log.Level} {message : String} (debug : level ≠ .debug)
    (first : message.toList.head? ≠ some 'h') : (log level .drill message).Notes :=
  .remark (isRemark_drill debug first) (.done ())

theorem notes_printLine (line : String) : (printLine line).Notes :=
  .of_only (only_printLine (fun _ => rfl) line)

theorem notes_selection : selection.Notes := by
  refine (Notes.of_only (only_readInt fun _ => rfl)).bind fun result => ?_
  match result with
  | .error e =>
    refine Notes.bind (notes_log nofun ?_) fun _ => .done _
    simp
  | .ok choice =>
    dsimp only
    split
    · exact .done _
    · refine Notes.bind (notes_log nofun ?_) fun _ => .done _
      simp

theorem notes_request (r : Request) : (request r).Notes := by
  have eq : request r = step (.log ⟨.debug, .exercise, r.announcement⟩) fun _ =>
      step (.ask r.call (isProcess_call r)) fun answer =>
        noting (.answered r.call answer) (printLine (r.report answer)) := by
    have noted (answer : r.call.Answer) : noting (.answered r.call answer) (printLine (r.report answer)) =
        step (.log ⟨.info, .exercise, r.finding answer⟩) fun _ => printLine (r.report answer) := by
      rw [noting, r.finding?_answered]
    simp only [noted]
    rfl
  rw [eq]
  exact .call r.announcement?_call fun answer => notes_printLine _

theorem notes_settle (x : Exercise) (prepared : Except InputError (Option Request)) : (settle x prepared).Notes := by
  match prepared with
  | .ok (some r) => exact notes_request r
  | .ok none => exact .done ()
  | .error e =>
    refine Notes.bind (notes_log nofun ?_) fun _ => notes_printLine _
    simp

theorem notes_halt (x : Exercise) : (halt x).Notes := by
  have eq : halt x = step (.log ⟨.debug, .drill, "halt()"⟩) fun _ => step (.ask .halt rfl) fun answer =>
      noting (.answered .halt answer) (match answer with
        | .ok () => pure (.halted x)
        | .error e => do
          printLine ("halt() refused: " ++ e.name)
          pure (.haltRefused x e)) := by
    show step _ (fun _ => step _ fun answer => _) = _
    congr 1
    funext _
    congr 1
    funext answer
    cases answer <;> rfl
  rw [eq]
  refine .call rfl fun answer => ?_
  match answer with
  | .ok () => exact .done _
  | .error e => exact (notes_printLine _).bind fun _ => .done _

theorem notes_drill (config : Config) : (drill config).Notes := by
  refine (Notes.of_only (only_printLines (fun _ => rfl) _)).bind fun _ => notes_selection.bind fun selected => ?_
  match selected with
  | none => exact .done _
  | some x =>
    refine Notes.bind (notes_log nofun ?_) fun _ => ?_
    · simp
    have prepared : (prepare config x).Notes :=
      .of_only (only_prepare (fun _ => rfl) (fun _ => rfl) fun _ _ => rfl)
    exact prepared.bind fun prepared => (notes_settle x prepared).bind fun _ => notes_halt x

end Plan

/-! ## Records of one kind -/

/-- A cut adds no record to the log. -/
theorem Cut.logged {word events : List Event} (h : Cut word events) {r : Log.Record} (mem : .logged r ∈ events) :
    .logged r ∈ word := by
  cases h with
  | between h => exact h.subset mem
  | within h asked again forced =>
    rcases List.mem_append.1 mem with mem | last
    · exact h.subset (List.mem_append_left _ mem)
    · rw [← List.mem_singleton.1 last] at again
      cases again

theorem Plan.Only.logged_of_word {plan : Plan α} {P : Log.Record → Prop} {events : List Event} {a : α}
    (h : plan.Only fun s => ∀ r, s = .log r → P r) (word : plan.Word events a) {r : Log.Record}
    (mem : .logged r ∈ events) : P r := by
  induction plan generalizing events with
  | done b =>
    obtain ⟨rfl, -, -⟩ := word
    cases mem
  | step s next ih =>
    obtain ⟨first, result, _, more, here, rest, rfl⟩ := word
    refine (List.mem_append.1 mem).elim (fun mem => ?_) (ih result (h.2 result) rest)
    cases s with
    | log record =>
      obtain rfl : first = _ := here
      cases List.mem_singleton.1 mem
      exact h.1 r rfl
    | ask call process =>
      obtain rfl : first = _ := here
      cases List.mem_singleton.1 mem
    | _ => rcases here.isConsole rfl _ mem with ⟨_, no⟩ | ⟨_, no⟩ <;> cases no

theorem Plan.Only.logged {plan : Plan α} {P : Log.Record → Prop} (h : plan.Only fun s => ∀ r, s = .log r → P r)
    (host : Host σ) (bench : Bench σ) {r : Log.Record} (mem : .logged r ∈ plan.trace host bench) : P r := by
  obtain ⟨word, a, complete, cut⟩ := cut_trace host plan bench
  exact h.logged_of_word complete (cut.logged mem)

/-! ## The exercise that was chosen -/

namespace Drill

variable {host : Host σ} {config : Config} {bench : Bench σ} {x : Exercise}

/-- The record that names an exercise. -/
def titleRecord (x : Exercise) : Log.Record :=
  ⟨.info, .drill, "test case " ++ Text.signed x.number.toInt ++ ": " ++ x.title⟩

theorem titles_choice (host : Host σ) (bench : Bench σ) {r : Log.Record}
    (mem : .logged r ∈ Plan.choice.trace host bench) : r.isTitle = false := by
  refine Plan.Only.logged (P := fun r => r.isTitle = false) ?_ host bench mem
  refine Plan.only_choice (fun _ => nofun) (fun _ => nofun) fun record other r same => ?_
  cases same
  exact other

/-- A record that is logged never stops a plan. -/
theorem trace_log_bind (level : Log.Level) (source : Log.Source) (message : String) (f : Unit → Plan α)
    (host : Host σ) (bench : Bench σ) :
    ∃ middle, (Plan.log level source message >>= f).trace host bench =
      .logged ⟨level, source, message⟩ :: (f ()).trace host middle := by
  obtain ⟨middle, logged⟩ : ∃ middle, (Plan.log level source message).follow host bench = .ok () middle := by
    rw [Plan.follow_log]
    exact ⟨_, rfl⟩
  have eq : (Plan.log level source message).trace host bench = [.logged ⟨level, source, message⟩] :=
    (Plan.along_single.1 (Plan.happens_of_follow logged)).1
  refine ⟨middle, ?_⟩
  rw [Plan.trace_bind_ok logged, eq]
  rfl

theorem titles_later (host : Host σ) (config : Config) (x : Exercise) (bench : Bench σ) {r : Log.Record}
    (mem : .logged r ∈ (Plan.prepare config x >>= Plan.finish x).trace host bench) : r.isTitle = false := by
  refine Plan.Only.logged (P := fun r => r.isTitle = false) ?_ host bench mem
  refine (Plan.only_prepare (fun _ => nofun) (fun _ => nofun) fun _ _ => nofun).bind fun prepared => ?_
  refine Plan.only_finish (fun _ => nofun) (fun _ _ => nofun) (fun record other r same => ?_) x prepared
  cases same
  exact other

theorem trace_of_selected (config : Config) (h : selected host bench = some x) :
    ∃ later, trace host config bench = Plan.choice.trace host bench ++ .logged (titleRecord x) :: later ∧
      ∀ r, .logged r ∈ later → r.isTitle = false := by
  obtain ⟨chosen, choice⟩ := follow_of_selected h
  have named : Plan.pursue config (some x) =
      Plan.log .info .drill (titleRecord x).message >>= fun _ => Plan.prepare config x >>= Plan.finish x := by
    show Plan.start config x >>= Plan.finish x = _
    rw [Plan.start, bind_assoc]
    rfl
  obtain ⟨middle, traced⟩ := trace_log_bind .info .drill (titleRecord x).message
    (fun _ => Plan.prepare config x >>= Plan.finish x) host chosen
  refine ⟨_, ?_, fun r mem => titles_later host config x middle mem⟩
  rw [trace_eq, Plan.drill_eq, Plan.trace_bind_ok choice, named, traced]
  rfl

theorem no_title (h : selected host bench = none) {r : Log.Record} (mem : .logged r ∈ trace host config bench) :
    r.isTitle = false := by
  rw [trace_eq, Plan.drill_eq] at mem
  cases choice : Plan.choice.follow host bench with
  | error stop after =>
    rw [Plan.trace_bind_error choice] at mem
    exact titles_choice host bench mem
  | ok chosen after =>
    rw [Plan.trace_bind_ok choice] at mem
    obtain rfl := (selected_of_follow choice).symm.trans h
    rcases List.mem_append.1 mem with mem | no
    · exact titles_choice host bench mem
    · cases no

end Drill

/-! ## Warnings -/

def Event.warning? : Event → Option String
  | logged r => if r.level = .warn then some r.message else none
  | _ => none

/-- The messages that warn, in order. -/
def warnings (events : List Event) : List String :=
  events.filterMap Event.warning?

@[simp]
theorem warnings_append (before after : List Event) : warnings (before ++ after) = warnings before ++ warnings after :=
  List.filterMap_append

/-- The error of a result. -/
def fault? : Except InputError α → Option InputError
  | .ok _ => none
  | .error e => some e

/-- The warning of an exercise whose answer is of no use. -/
def Exercise.warnings (x : Exercise) (fault : Option InputError) : List String :=
  fault.toList.map fun e => "test case " ++ Text.signed x.number.toInt ++ " aborted: " ++ e.message

/-- The warning of a halt that was refused. -/
def Termination.warnings : Termination → List String
  | haltRefused _ e => ["halt refused: " ++ e.name]
  | _ => []

namespace Plan

variable {events : List Event} {x : Exercise}

theorem warnings_of_only {plan : Plan α} (h : plan.Only fun s => ∀ r, s = .log r → r.level ≠ .warn) {a : α}
    (word : plan.Word events a) : warnings events = [] := by
  refine List.filterMap_eq_nil_iff.2 fun event mem => ?_
  cases event with
  | logged r => exact if_neg (h.logged_of_word word mem)
  | _ => rfl

theorem warnings_printLine {line : String} {a : Unit} (h : (printLine line).Word events a) : warnings events = [] :=
  warnings_of_only (only_printLine (fun _ => nofun) line) h

theorem warnings_log {level : Log.Level} {source : Log.Source} {message : String} {a : Unit}
    (h : (log level source message).Word events a) : warnings events = if level = .warn then [message] else [] := by
  obtain rfl : events = _ := along_single.1 h
  cases level <;> rfl

theorem warnings_selection {selected : Option Exercise} (h : selection.Word events selected) :
    (warnings events).length = if selected = none then 1 else 0 := by
  obtain ⟨reads, result, more, first, rest, rfl⟩ := word_bind h
  rw [warnings_append, warnings_of_only (only_readInt fun _ => nofun) first]
  match result with
  | .error e =>
    obtain ⟨_, _, _, logged, last, rfl⟩ := word_bind rest
    obtain ⟨rfl, rfl⟩ := word_pure last
    rw [List.append_nil, warnings_log logged]
    rfl
  | .ok choice =>
    dsimp only at rest
    split at rest
    · obtain ⟨rfl, rfl⟩ := word_pure rest
      rfl
    · obtain ⟨_, _, _, logged, last, rfl⟩ := word_bind rest
      obtain ⟨rfl, rfl⟩ := word_pure last
      rw [List.append_nil, warnings_log logged]
      rfl

theorem warnings_choice {selected : Option Exercise} (h : choice.Word events selected) :
    (warnings events).length = if selected = none then 1 else 0 := by
  obtain ⟨menu, _, more, shown, read, rfl⟩ := word_bind h
  rw [warnings_append, warnings_of_only (only_printLines (fun _ => nofun) _) shown]
  exact warnings_selection read

theorem warnings_start {config : Config} {prepared : Except InputError (Option Request)}
    (h : (start config x).Word events prepared) : warnings events = [] := by
  obtain ⟨_, _, more, titled, reached, rfl⟩ := word_bind h
  rw [warnings_append, warnings_log titled,
    warnings_of_only (only_prepare (fun _ => nofun) (fun _ => nofun) fun _ _ => nofun) reached]
  rfl

theorem warnings_settle {prepared : Except InputError (Option Request)} {a : Unit}
    (h : (settle x prepared).Word events a) : warnings events = x.warnings (fault? prepared) := by
  match prepared with
  | .ok (some r) =>
    obtain ⟨_, _, _, announced, rest, rfl⟩ := word_bind h
    obtain ⟨_, answer, _, asked, told, rfl⟩ := word_bind rest
    obtain ⟨_, _, _, found, printed, rfl⟩ := word_bind told
    obtain rfl := along_single.1 asked
    rw [warnings_append, warnings_append, warnings_append, warnings_log announced, warnings_log found,
      warnings_printLine printed]
    rfl
  | .ok none =>
    obtain ⟨rfl, -⟩ := word_pure h
    rfl
  | .error e =>
    obtain ⟨_, _, _, logged, printed, rfl⟩ := word_bind h
    rw [warnings_append, warnings_log logged, warnings_printLine printed]
    rfl

theorem warnings_halt {t : Termination} (h : (halt x).Word events t) : warnings events = t.warnings := by
  obtain ⟨_, _, _, announced, rest, rfl⟩ := word_bind h
  obtain ⟨_, answer, _, asked, answered, rfl⟩ := word_bind rest
  obtain rfl := along_single.1 asked
  rw [warnings_append, warnings_append, warnings_log announced]
  match answer with
  | .ok () =>
    obtain ⟨rfl, rfl⟩ := word_pure answered
    rfl
  | .error e =>
    obtain ⟨_, _, _, logged, refused, rfl⟩ := word_bind answered
    obtain ⟨_, _, _, printed, last, rfl⟩ := word_bind refused
    obtain ⟨rfl, rfl⟩ := word_pure last
    rw [warnings_append, warnings_append, warnings_log logged, warnings_printLine printed]
    rfl

theorem warnings_finish {prepared : Except InputError (Option Request)} {t : Termination}
    (h : (finish x prepared).Word events t) :
    t.exercise? = some x ∧ warnings events = x.warnings (fault? prepared) ++ t.warnings := by
  obtain ⟨first, _, more, settled, halted, rfl⟩ := word_bind h
  rw [warnings_append, warnings_settle settled, warnings_halt halted]
  obtain ⟨answer, _, _, -, -, rfl⟩ := word_halt halted
  exact ⟨Termination.exercise?_ofHalt x answer, rfl⟩

theorem accepted_choice {selected : Option Exercise} (h : choice.Word events selected) :
    accepted events = (Exercise.menu.map Drill.menuLine).flatMap Utf8.encodeLine := by
  obtain ⟨menu, _, more, shown, read, rfl⟩ := word_bind h
  have reads := Refills.accepted_eq (word_selection read)
  rw [accepted_unlogged] at reads
  rw [accepted_append, (word_printLines shown).accepted_eq, reads, List.append_nil]

end Plan

namespace Drill

variable {host : Host σ} {config : Config} {bench after : Bench σ} {t : Termination}

theorem follow_of_run (h : run host config bench = .ok t after) : ∃ middle,
    Plan.choice.follow host bench = .ok (selected host bench) middle ∧
      (Plan.pursue config (selected host bench)).follow host middle = .ok t after := by
  rw [← Plan.follow_drill, Plan.drill_eq, Plan.follow_bind] at h
  obtain ⟨chosen, middle, choice, rest⟩ := bind_eq_ok h
  rw [selected_of_follow choice]
  exact ⟨middle, choice, rest⟩

theorem warnings_unselected (h : run host config bench = .ok t after) (none : selected host bench = none) :
    t = .noSelection ∧ (warnings (trace host config bench)).length = 1 := by
  obtain ⟨middle, choice, pursued⟩ := follow_of_run h
  rw [none] at choice pursued
  cases pursued
  have warned := Plan.warnings_choice (Plan.word_of_follow choice)
  refine ⟨rfl, ?_⟩
  rw [trace_eq, Plan.drill_eq, Plan.trace_bind_ok choice, warnings_append, List.length_append, warned]
  rfl

/-- Why the answer is of no use, if the exercise did not come to its request. -/
theorem Reaches.inputError?_eq {x : Exercise} {prepared : Except InputError (Option Request)} {chosen middle : Bench σ}
    (reaches : Reaches host config bench x prepared chosen middle) {future : List UInt8}
    (nothing : (left host config bench).console.atEnd = true → future = []) :
    inputError? config (tokens host config bench future)[1]? x = fault? prepared := by
  obtain ⟨-, after, prepares⟩ := reaches.prepares nothing
  have faulty (e : InputError) : prepared = .error e ↔
      inputError? config (tokens host config bench future)[1]? x = some e := by
    rw [← List.head?_tail]
    exact prepares.eq_error_iff e
  match prepared with
  | .error e => exact (faulty e).1 rfl
  | .ok _ => exact Option.eq_none_iff_forall_ne_some.2 fun e fault => nomatch (faulty e).2 fault

theorem warnings_selected {x : Exercise} (h : run host config bench = .ok t after)
    (chosen : selected host bench = some x)
    {future : List UInt8} (nothing : after.console.atEnd = true → future = []) :
    t.exercise? = some x ∧ warnings (trace host config bench) =
      x.warnings (inputError? config (tokens host config bench future)[1]? x) ++ t.warnings := by
  obtain ⟨middle, choice, pursued⟩ := follow_of_run h
  rw [chosen] at choice pursued
  have began : (Plan.start config x >>= Plan.finish x).follow host middle = .ok t after := pursued
  rw [Plan.follow_bind] at began
  obtain ⟨prepared, last, started, finished⟩ := bind_eq_ok began
  have reaches : Reaches host config bench x prepared middle last := ⟨choice, started⟩
  rw [← left_of_ok h] at nothing
  have quiet := Plan.warnings_choice (Plan.word_of_follow choice)
  have starting := Plan.warnings_start (Plan.word_of_follow started)
  obtain ⟨ended, finish⟩ := Plan.warnings_finish (Plan.word_of_follow finished)
  refine ⟨ended, ?_⟩
  rw [reaches.trace_eq, reaches.inputError?_eq nothing, warnings_append, warnings_append,
    List.eq_nil_of_length_eq_zero quiet, starting, finish]
  rfl

/-- What a drill logs, for any configuration, random words, machine and state of the console, whether it comes to its
end or stops anywhere. -/
theorem run_logged (host : Host σ) (config : Config) (bench : Bench σ) :
    let events := trace host config bench
    (∀ before event after, events = before ++ event :: after → Event.Paired before event after) ∧
    (∀ call ∈ processCalls events, ∀ r, call.announcement? = some r →
      (r.Names call ↔
        ∀ pid, call = .join pid → selected host bench = some .strangerJoin → pid.raw.toNat < 2147483648)) ∧
    (∀ call answer r, .answered call answer ∈ events → (Event.answered call answer).finding? = some r →
      (r.Carries call answer ↔ ∀ name argv pid, Event.answered call answer = .answered (.exec name argv) (.ok pid) →
        pid.raw.toNat < 2147483648 ∨ 18446744071562067968 ≤ pid.raw.toNat)) ∧
    (∀ x, selected host bench = some x → ∃ before later, events = before ++ .logged (titleRecord x) :: later ∧
      before = Plan.choice.trace host bench ∧ processCalls before = [] ∧
      accepted before = (Exercise.menu.map menuLine).flatMap Utf8.encodeLine ∧
      ∀ r, .logged r ∈ before ++ later → ¬ (r.level = .info ∧ r.source = .drill)) ∧
    (selected host bench = none → ∀ r, .logged r ∈ events → ¬ (r.level = .info ∧ r.source = .drill)) ∧
    (∀ t after, run host config bench = .ok t after → selected host bench = none →
      t = .noSelection ∧ (warnings events).length = 1) ∧
    (∀ t after x, run host config bench = .ok t after → selected host bench = some x →
      ∀ future, (after.console.atEnd = true → future = []) →
        t.exercise? = some x ∧ warnings events =
          x.warnings (inputError? config (tokens host config bench future)[1]? x) ++ t.warnings) := by
  intro events
  have title (r : Log.Record) (no : r.isTitle = false) : ¬ (r.level = .info ∧ r.source = .drill) := by
    rintro ⟨level, source⟩
    rw [Log.Record.isTitle, level, source] at no
    cases no
  refine ⟨fun before event after eq => ?_, ?_, ?_, fun x chosen => ?_, fun none r mem => title r (no_title none mem),
    ?_, ?_⟩
  · have noted := (Plan.notes_drill config).noted host bench
    rw [← trace_eq] at noted
    exact noted.paired eq
  · intro call asked r announced
    rw [Call.announcement?_names announced]
    refine forall_congr' fun pid => forall_congr' fun waits => ?_
    subst waits
    exact typed?_join_iff asked
  · intro call answer r mem found
    rw [Event.finding?_carries found]
    simp only [Pid.typed?_text_iff]
  · obtain ⟨later, eq, others⟩ := trace_of_selected config chosen
    obtain ⟨middle, choice⟩ := follow_of_selected chosen
    refine ⟨_, later, eq, rfl, Plan.noAsk_choice.processCalls_eq host bench,
      Plan.accepted_choice (Plan.word_of_follow choice), ?_⟩
    intro r mem
    rcases List.mem_append.1 mem with mem | mem
    · exact title r (titles_choice host bench mem)
    · exact title r (others r mem)
  · exact fun t after h none => warnings_unselected h none
  · exact fun t after x h chosen future nothing => warnings_selected h chosen nothing

/-- The number that is drawn is the least one that has more than 31 bits. The call is announced as that of another
process. -/
theorem drawn_number_misannounced :
    let config : Config := { pidBound := 4294967295 }
    let machine : Machine := { reads := [.bytes [52, 10]] }
    let bench : Bench Machine := ⟨{ machine }, [2147483649]⟩
    let r : Log.Record := ⟨.debug, .exercise, "join(-2147483648)"⟩
    Bench.new machine [2147483649] config = .ok bench ∧
      (∃ before event after, trace Machine.direct config bench = before ++ .logged r :: event :: after ∧
        event.call? = some (.join ⟨2147483648⟩)) ∧
      ¬ r.Names (.join ⟨2147483648⟩) ∧ r.Names (.join ⟨18446744071562067968⟩) := by
  intro config machine bench r
  have calls : processCalls (trace Machine.direct config bench) = [.join ⟨2147483648⟩, .halt] := by
    decide +kernel
  have asked : .join ⟨2147483648⟩ ∈ processCalls (trace Machine.direct config bench) := by
    rw [calls]
    exact List.mem_cons_self
  obtain ⟨⟨event, mem, join⟩, -⟩ := mem_processCalls.1 asked
  obtain ⟨before, after, split⟩ := List.append_of_mem mem
  have noted := (Plan.notes_drill config).noted Machine.direct bench
  rw [← trace_eq] at noted
  obtain ⟨⟨earlier, r', announced, rfl⟩, -⟩ := (noted.paired split).call _ join rfl
  have announcement : (Call.join ⟨2147483648⟩).announcement? = some r := by
    decide +kernel
  obtain rfl : r = r' := Option.some_inj.1 (announcement.symm.trans announced)
  have other : r.Names (.join ⟨18446744071562067968⟩) := Log.Record.names_iff.2 (by decide +kernel)
  refine ⟨rfl, ⟨earlier, event, after, ?_, join⟩, fun names => ?_, other⟩
  · rw [split, List.append_assoc]
    rfl
  · cases (names _).1 (Log.Record.names_iff.1 other)

end Drill

end ProcessDrill
