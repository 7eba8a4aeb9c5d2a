import ProcessDrill.Proofs.Drill.Plan
/-!
# The phases of a drill

`Phases` are the eight phases of a drill: the menu, the reads for the selection, the line of the exercise,
the reads for the answer, the request, its report, the halt, and its refusal. `Phases.InOrder` says what each
of them may be. Main statement: `Plan.phases_of_word`, a drill that comes to its end goes through its phases
in order.
-/

namespace ProcessDrill

set_option autoImplicit false

/-! ## Phases -/

def Termination.ofHalt (x : Exercise) : Except Errno Unit → Termination
  | .ok () => .halted x
  | .error e => .haltRefused x e

/-- Whether an exercise asks for an answer. -/
def Exercise.asks : Exercise → Bool
  | nullArguments => true
  | runProgram => true
  | joinChild => true
  | exitProcess => true
  | _ => false

structure Phases where
  menu : List Event
  selection : List Event
  line : List Event := []
  answer : List Event := []
  request : List Event := []
  report : List Event := []
  halt : List Event := []
  refusal : List Event := []

namespace Phases

def word (phases : Phases) : List Event :=
  phases.menu ++ (phases.selection ++ (phases.line ++ (phases.answer ++
    (phases.request ++ (phases.report ++ (phases.halt ++ phases.refusal))))))

/-- A request with its report, or the report of a bad answer, or neither. -/
inductive Settled : Except InputError (Option Request) → List Event → List Event → Prop
  | requested (r : Request) (answer : r.call.Answer) {report : List Event}
      (h : Printed [r.report answer] report) :
      Settled (.ok (some r)) [.answered r.call answer] report
  | nothing : Settled (.ok none) [] []
  | refused (e : InputError) {report : List Event} (h : Printed ["error: " ++ e.message] report) :
      Settled (.error e) [] report

/-- A halt, with its refusal if it is refused. -/
inductive Halted : Except Errno Unit → List Event → List Event → Prop
  | obeyed : Halted (.ok ()) [.answered .halt (.ok ())] []
  | refused (e : Errno) {refusal : List Event} (h : Printed ["halt() refused: " ++ e.name] refusal) :
      Halted (.error e) [.answered .halt (.error e)] refusal

structure Busy (x : Exercise) (prepared : Except InputError (Option Request))
    (answered : Except Errno Unit) (phases : Phases) : Prop where
  line : Printed (Drill.openingLine x).toList phases.line
  answer : Refills phases.answer
  asks : phases.answer ≠ [] → x.asks = true
  nothing : prepared = .ok none → x = .execFailure
  settled : Settled prepared phases.request phases.report
  halted : Halted answered phases.halt phases.refusal

/-- The phases of a drill; without a selection there are no more than two. -/
structure InOrder (phases : Phases) : Prop where
  menu : Printed (Exercise.menu.map Drill.menuLine) phases.menu
  selection : Refills phases.selection
  exercise : phases = ⟨phases.menu, phases.selection, [], [], [], [], [], []⟩ ∨
    ∃ x prepared answered, Busy x prepared answered phases

end Phases

/-! ## Calls alone -/

/-- The record without what was logged. -/
def unlogged (events : List Event) : List Event :=
  events.filter (·.call?.isSome)

@[simp]
theorem unlogged_append (before after : List Event) :
    unlogged (before ++ after) = unlogged before ++ unlogged after :=
  List.filter_append _ _

theorem unlogged_of_console {events : List Event} (h : ∀ event ∈ events, event.IsConsole) :
    unlogged events = events := by
  refine List.filter_eq_self.2 fun event mem => ?_
  rcases h event mem with ⟨_, asked⟩ | ⟨_, asked⟩ <;> rw [asked] <;> rfl

/-- The calls of a record that are none of the console. -/
def processCalls (events : List Event) : List Call :=
  (events.filterMap Event.call?).filter Call.isProcess

@[simp]
theorem processCalls_append (before after : List Event) :
    processCalls (before ++ after) = processCalls before ++ processCalls after := by
  simp [processCalls]

theorem processCalls_of_console {events : List Event} (h : ∀ event ∈ events, event.IsConsole) :
    processCalls events = [] := by
  refine List.filter_eq_nil_iff.2 fun call mem => ?_
  obtain ⟨event, inside, asked⟩ := List.mem_filterMap.1 mem
  rcases h event inside with ⟨_, other⟩ | ⟨_, other⟩
  all_goals
    rw [other] at asked
    cases asked
    exact Bool.false_ne_true

theorem processCalls_unlogged (events : List Event) :
    processCalls (unlogged events) = processCalls events := by
  rw [processCalls, processCalls, unlogged, List.filterMap_filter]
  congr 2
  funext event
  cases event.call? <;> rfl

theorem Phases.Settled.processCalls_eq {prepared : Except InputError (Option Request)}
    {made report : List Event} (h : Settled prepared made report) :
    processCalls (made ++ report) = (prepared.toOption.join).toList.map Request.call := by
  cases h with
  | requested r answer printed =>
    rw [processCalls_append, processCalls_of_console printed.isConsole]
    cases r <;> rfl
  | nothing => rfl
  | refused e printed => exact processCalls_of_console printed.isConsole

theorem Phases.Halted.processCalls_eq {answered : Except Errno Unit} {halt refusal : List Event}
    (h : Halted answered halt refusal) :
    processCalls (halt ++ refusal) = [.halt] := by
  cases h with
  | obeyed => rfl
  | refused e printed =>
    rw [processCalls_append, processCalls_of_console printed.isConsole]
    rfl

theorem Phases.Halted.mem {answered : Except Errno Unit} {halt refusal : List Event}
    (h : Halted answered halt refusal) : .answered .halt answered ∈ halt := by
  cases h <;> exact List.mem_singleton_self _

/-! ## Complete records -/

namespace Plan

variable {α β : Type} {config : Config} {x : Exercise} {events : List Event}

theorem word_bind {plan : Plan α} {f : α → Plan β} {b : β} (h : (plan >>= f).Word events b) :
    ∃ first a more, plan.Word first a ∧ (f a).Word more b ∧ events = first ++ more := by
  obtain ⟨first, a, _, more, here, rest, eq⟩ := along_bind.1 h
  exact ⟨first, a, more, here, rest, eq⟩

theorem word_pure {a b : α} (h : (pure a : Plan α).Word events b) : events = [] ∧ b = a :=
  ⟨h.1, h.2.1⟩

theorem word_log {level : Log.Level} {source : Log.Source} {message : String} {a : Unit}
    (h : (log level source message).Word events a) : unlogged events = [] := by
  obtain rfl : events = [.logged ⟨level, source, message⟩] := along_single.1 h
  rfl

theorem word_printLine {line : String} {a : Unit} (h : (printLine line).Word events a) :
    Printed [line] events := by
  obtain ⟨text, _, feed, first, second, rfl⟩ := word_bind h
  have := Printed.cons (along_single.1 first) (along_single.1 second) .nil
  rwa [List.append_nil] at this

theorem word_printLines {lines : List String} {a : Unit} (h : (printLines lines).Word events a) :
    Printed lines events := by
  induction lines generalizing events with
  | nil =>
    obtain ⟨rfl, -⟩ := word_pure h
    exact .nil
  | cons line lines ih =>
    obtain ⟨_, _, more, here, rest, rfl⟩ := word_bind h
    obtain ⟨text, _, feed, first, second, rfl⟩ := word_bind here
    exact .cons (along_single.1 first) (along_single.1 second) (ih rest)

theorem word_readInt {result : Except InputError Int32} (h : readInt.Word events result) :
    Refills events := by
  obtain ⟨first, _, _, reads, rest, rfl⟩ := word_bind h
  obtain ⟨rfl, -⟩ := word_pure rest
  rw [List.append_nil]
  exact along_single.1 reads

theorem word_readName {capacity : Nat} {result : Except InputError (List UInt8)}
    (h : (readName capacity).Word events result) : Refills events := by
  obtain ⟨first, _, _, reads, rest, rfl⟩ := word_bind h
  obtain ⟨rfl, -⟩ := word_pure rest
  rw [List.append_nil]
  exact along_single.1 reads

theorem word_selection {selected : Option Exercise} (h : selection.Word events selected) :
    Refills (unlogged events) := by
  obtain ⟨reads, result, more, first, rest, rfl⟩ := word_bind h
  have refills := word_readInt first
  have silent : unlogged more = [] := by
    match result with
    | .error e =>
      obtain ⟨_, _, _, logged, last, rfl⟩ := word_bind rest
      rw [unlogged_append, word_log logged, (word_pure last).1]
      rfl
    | .ok choice =>
      dsimp only at rest
      split at rest
      · rw [(word_pure rest).1]
        rfl
      · obtain ⟨_, _, _, logged, last, rfl⟩ := word_bind rest
        rw [unlogged_append, word_log logged, (word_pure last).1]
        rfl
  rw [unlogged_append, silent, List.append_nil, unlogged_of_console refills.isConsole]
  exact refills

theorem word_asking {plan : Plan α} {f : α → β} {b : β}
    (reads : ∀ {events a}, plan.Word events a → Refills events)
    (h : (opening x >>= fun _ => plan >>= fun a => pure (f a)).Word events b) :
    ∃ line answer, unlogged events = line ++ answer ∧
      Printed (Drill.openingLine x).toList line ∧ Refills answer ∧ ∃ a, b = f a := by
  obtain ⟨line, _, more, opened, rest, rfl⟩ := word_bind h
  obtain ⟨answer, a, _, asked, last, rfl⟩ := word_bind rest
  obtain ⟨rfl, rfl⟩ := word_pure last
  have printed := word_printLines opened
  have refills := reads asked
  refine ⟨line, answer, ?_, printed, refills, a, rfl⟩
  rw [List.append_nil, unlogged_append, unlogged_of_console printed.isConsole,
    unlogged_of_console refills.isConsole]

theorem word_prepare {prepared : Except InputError (Option Request)}
    (h : (prepare config x).Word events prepared) :
    ∃ line answer, unlogged events = line ++ answer ∧
      Printed (Drill.openingLine x).toList line ∧ Refills answer ∧
      (answer ≠ [] → x.asks = true) ∧ (prepared = .ok none → x = .execFailure) := by
  cases x with
  | missingFile =>
    obtain ⟨_, value, _, drawn, last, rfl⟩ := word_bind h
    obtain rfl := along_single.1 drawn
    obtain ⟨rfl, rfl⟩ := word_pure last
    exact ⟨[], [], rfl, .nil, .nil, by simp, by simp⟩
  | nullArguments =>
    obtain ⟨line, answer, eq, printed, refills, name, rfl⟩ := word_asking word_readName h
    exact ⟨line, answer, eq, printed, refills, fun _ => rfl, by cases name <;> simp [Except.map]⟩
  | execFailure =>
    obtain ⟨line, _, _, opened, last, rfl⟩ := word_bind h
    obtain ⟨rfl, -⟩ := word_pure last
    have printed := word_printLines opened
    refine ⟨line, [], ?_, printed, .nil, by simp, fun _ => rfl⟩
    rw [unlogged_append, unlogged_of_console printed.isConsole]
    rfl
  | strangerJoin =>
    obtain ⟨_, value, _, drawn, rest, rfl⟩ := word_bind h
    obtain rfl := along_single.1 drawn
    obtain ⟨line, _, _, opened, last, rfl⟩ := word_bind rest
    obtain ⟨rfl, rfl⟩ := word_pure last
    have printed := word_printLines opened
    refine ⟨line, [], ?_, printed, .nil, by simp, by simp⟩
    rw [List.nil_append, unlogged_append, unlogged_of_console printed.isConsole]
    rfl
  | runProgram =>
    obtain ⟨line, answer, eq, printed, refills, name, rfl⟩ := word_asking word_readName h
    exact ⟨line, answer, eq, printed, refills, fun _ => rfl, by cases name <;> simp [Except.map]⟩
  | joinChild =>
    obtain ⟨line, answer, eq, printed, refills, n, rfl⟩ := word_asking word_readInt h
    exact ⟨line, answer, eq, printed, refills, fun _ => rfl, by cases n <;> simp [Except.map]⟩
  | exitProcess =>
    obtain ⟨line, answer, eq, printed, refills, n, rfl⟩ := word_asking word_readInt h
    exact ⟨line, answer, eq, printed, refills, fun _ => rfl, by cases n <;> simp [Except.map]⟩

theorem word_request {r : Request} {a : Unit} (h : (request r).Word events a) :
    ∃ answer report, unlogged events = .answered r.call answer :: report ∧
      Printed [r.report answer] report := by
  obtain ⟨announced, _, _, logged, rest, rfl⟩ := word_bind h
  obtain ⟨asked, answer, _, made, found, rfl⟩ := word_bind rest
  obtain ⟨_, _, report, logged', printed, rfl⟩ := word_bind found
  obtain rfl : asked = [.answered r.call answer] := along_single.1 made
  have printed := word_printLine printed
  refine ⟨answer, report, ?_, printed⟩
  simp only [unlogged_append, word_log logged, word_log logged', unlogged_of_console printed.isConsole]
  rfl

theorem word_settle {prepared : Except InputError (Option Request)} {a : Unit}
    (h : (settle x prepared).Word events a) :
    ∃ made report, unlogged events = made ++ report ∧ Phases.Settled prepared made report := by
  match prepared with
  | .ok (some r) =>
    obtain ⟨answer, report, eq, printed⟩ := word_request h
    exact ⟨_, report, eq, .requested r answer printed⟩
  | .ok none =>
    obtain ⟨rfl, -⟩ := word_pure h
    exact ⟨[], [], rfl, .nothing⟩
  | .error e =>
    obtain ⟨_, _, report, logged, printed, rfl⟩ := word_bind h
    have printed := word_printLine printed
    refine ⟨[], report, ?_, .refused e printed⟩
    rw [unlogged_append, word_log logged, unlogged_of_console printed.isConsole]

theorem word_halt {t : Termination} (h : (halt x).Word events t) :
    ∃ answer halted refusal, unlogged events = halted ++ refusal ∧
      Phases.Halted answer halted refusal ∧ t = .ofHalt x answer := by
  obtain ⟨_, _, _, logged, rest, rfl⟩ := word_bind h
  obtain ⟨asked, answer, more, made, answered, rfl⟩ := word_bind rest
  obtain rfl : asked = [.answered .halt answer] := along_single.1 made
  rw [unlogged_append, unlogged_append, word_log logged]
  match answer with
  | .ok () =>
    obtain ⟨rfl, rfl⟩ := word_pure answered
    exact ⟨_, _, [], rfl, .obeyed, rfl⟩
  | .error e =>
    obtain ⟨_, _, _, logged', refused, rfl⟩ := word_bind answered
    obtain ⟨refusal, _, _, printed, last, rfl⟩ := word_bind refused
    obtain ⟨rfl, rfl⟩ := word_pure last
    have printed := word_printLine printed
    refine ⟨_, _, refusal, ?_, .refused e printed, rfl⟩
    rw [List.append_nil, unlogged_append, word_log logged', unlogged_of_console printed.isConsole]
    rfl

theorem phases_of_word {t : Termination} (h : (drill config).Word events t) :
    ∃ phases : Phases, phases.InOrder ∧ unlogged events = phases.word := by
  obtain ⟨menu, _, _, shown, behind, rfl⟩ := word_bind h
  obtain ⟨selection, selected, more, read, rest, rfl⟩ := word_bind behind
  have shown := word_printLines shown
  have refills := word_selection read
  match selected with
  | none =>
    obtain ⟨rfl, -⟩ := word_pure rest
    refine ⟨{ menu, selection := unlogged selection }, ⟨shown, refills, .inl rfl⟩, ?_⟩
    rw [unlogged_append, unlogged_of_console shown.isConsole, List.append_nil]
    simp [Phases.word]
  | some x =>
    obtain ⟨_, _, _, logged, gone, rfl⟩ := word_bind rest
    obtain ⟨_, prepared, _, reached, ended, rfl⟩ := word_bind gone
    obtain ⟨_, _, _, settled, halted, rfl⟩ := word_bind ended
    obtain ⟨line, answer, eq₁, printed, refills', asks, nothing⟩ := word_prepare reached
    obtain ⟨request, report, eq₂, settled⟩ := word_settle settled
    obtain ⟨answered, halt, refusal, eq₃, halted, -⟩ := word_halt halted
    refine ⟨⟨menu, unlogged selection, line, answer, request, report, halt, refusal⟩,
      ⟨shown, refills, .inr ⟨x, prepared, answered, ?_⟩⟩, ?_⟩
    · exact ⟨printed, refills', asks, nothing, settled, halted⟩
    simp only [unlogged_append, unlogged_of_console shown.isConsole, word_log logged, eq₁, eq₂, eq₃,
      Phases.word, List.append_assoc, List.nil_append]

end Plan

end ProcessDrill
