import ProcessDrill.Proofs.Drill.Phases
import ProcessDrill.Proofs.Plan.Source
/-!
# The course of a drill

A drill on a list of tokens. `Prepares` is what an exercise makes of its token and of the random words, and
`Course` all that a drill can come to: its phases, how it ends, and what it leaves. Main statement:
`Plan.course_of_uses`, a drill takes such a course.
-/

namespace ProcessDrill

set_option autoImplicit false

variable {α : Type}

/-! ## The first token -/

namespace Source

variable (source : Source)

/-- The source behind its first token. -/
def rest : Source :=
  { source with tokens := source.tokens.tail }

def int : Except InputError Int32 :=
  Token.asInt (Token.given Console.maxIntToken source.tokens.head?)

def name (capacity : Nat) : Except InputError (List UInt8) :=
  Token.asName capacity (Token.given capacity source.tokens.head?)

/-- The token as the number of an exercise. -/
def exercise? : Option Exercise :=
  (source.tokens.head?.bind Token.integer?).bind Exercise.ofNumber?

theorem toOption_int : source.int.toOption = source.tokens.head?.bind Token.integer? := by
  rw [int]
  cases source.tokens.head? with
  | none => rfl
  | some ink =>
    rw [Token.asInt_given, Option.bind_some]
    cases Token.integer? ink <;> rfl

theorem toOption_name (capacity : Nat) :
    (source.name capacity).toOption = source.tokens.head?.filter (·.length < capacity) := by
  rw [name]
  cases source.tokens.head? with
  | none => rfl
  | some ink =>
    rw [Token.asName_given, Option.filter_some]
    by_cases fits : ink.length < capacity
    · rw [if_pos fits, if_pos (decide_eq_true fits)]
      rfl
    · rw [if_neg fits, if_neg (by simpa using fits)]
      rfl

end Source

/-! ## What can come of it -/

/-- What an exercise is brought to, and what it leaves of its source: one draws a number, another asks for an
answer. -/
inductive Prepares (config : Config) (before : Source) :
    Exercise → Except InputError (Option Request) → Source → Prop
  | missingFile {value : UInt32} {words : List UInt32}
      (drawn : Random.draw? config.fileNameBound before.words = some (value, words)) :
      Prepares config before .missingFile (.ok (some (.exec (Drill.fileName value) .empty)))
        { before with words }
  | nullArguments : Prepares config before .nullArguments
      ((before.name config.nameCapacity).map fun name => some (.exec name (.null 1))) before.rest
  | execFailure : Prepares config before .execFailure (.ok none) before
  | strangerJoin {value : UInt32} {words : List UInt32}
      (drawn : Random.draw? config.pidBound before.words = some (value, words)) :
      Prepares config before .strangerJoin (.ok (some (.join ⟨value.toUInt64⟩))) { before with words }
  | runProgram : Prepares config before .runProgram
      ((before.name config.nameCapacity).map fun name => some (.exec name .empty)) before.rest
  | joinChild : Prepares config before .joinChild
      (before.int.map fun n => some (.join (.ofInt32 n))) before.rest
  | exitProcess : Prepares config before .exitProcess (before.int.map fun n => some (.exit n)) before.rest

/-- A drill from this source goes through these phases, ends so, and leaves that. -/
inductive Course (config : Config) (before : Source) (phases : Phases) : Termination → Source → Prop
  | unselected (chosen : before.exercise? = none)
      (alone : phases = ⟨phases.menu, phases.selection, [], [], [], [], [], []⟩) :
      Course config before phases .noSelection before.rest
  | selected {x : Exercise} {prepared : Except InputError (Option Request)}
      {answered : Except Errno Unit} {after : Source} (chosen : before.exercise? = some x)
      (prepares : Prepares config before.rest x prepared after)
      (busy : Phases.Busy x prepared answered phases) :
      Course config before phases (.ofHalt x answered) after

namespace Plan

variable {config : Config} {x : Exercise} {before after : Source} {events : List Event}

/-! ## What leaves the source as it is -/

theorem uses_log {level : Log.Level} {source : Log.Source} {message : String} {a : Unit}
    (h : Along Step.Uses (log level source message) before events a after) : after = before :=
  (along_single.1 h).2

theorem uses_printLine {line : String} {a : Unit}
    (h : Along Step.Uses (printLine line) before events a after) : after = before := by
  obtain ⟨_, _, _, _, first, second, -⟩ := along_bind.1 h
  exact (along_single.1 second).2.trans (along_single.1 first).2

theorem uses_printLines {lines : List String} {a : Unit}
    (h : Along Step.Uses (printLines lines) before events a after) : after = before := by
  induction lines generalizing before events with
  | nil => exact h.2.2
  | cons line lines ih =>
    obtain ⟨_, _, _, _, first, rest, -⟩ := along_bind.1 h
    exact (ih rest).trans (uses_printLine first)

theorem uses_settle {prepared : Except InputError (Option Request)} {a : Unit}
    (h : Along Step.Uses (settle x prepared) before events a after) : after = before := by
  match prepared with
  | .ok (some r) =>
    obtain ⟨_, _, _, _, announced, rest, -⟩ := along_bind.1 h
    obtain ⟨_, answer, _, _, asked, found, -⟩ := along_bind.1 rest
    obtain ⟨_, _, _, _, logged, printed, -⟩ := along_bind.1 found
    rw [uses_printLine printed, uses_log logged, (along_single.1 asked).2, uses_log announced]
  | .ok none =>
    obtain ⟨-, -, rfl⟩ := along_pure.1 h
    rfl
  | .error e =>
    obtain ⟨_, _, _, _, logged, printed, -⟩ := along_bind.1 h
    rw [uses_printLine printed, uses_log logged]

theorem uses_halt {t : Termination} (h : Along Step.Uses (halt x) before events t after) :
    after = before := by
  obtain ⟨_, _, _, _, announced, rest, -⟩ := along_bind.1 h
  obtain ⟨_, answer, _, _, asked, answered, -⟩ := along_bind.1 rest
  rw [← uses_log announced, ← (along_single.1 asked).2]
  match answer with
  | .ok () => exact (along_pure.1 answered).2.2
  | .error e =>
    obtain ⟨_, _, _, _, logged, refused, -⟩ := along_bind.1 answered
    obtain ⟨_, _, _, _, printed, last, -⟩ := along_bind.1 refused
    rw [(along_pure.1 last).2.2, uses_printLine printed, uses_log logged]

/-! ## What takes a token -/

theorem uses_readInt {result : Except InputError Int32}
    (h : Along Step.Uses readInt before events result after) : result = before.int ∧ after = before.rest := by
  obtain ⟨_, token, _, _, read, last, -⟩ := along_bind.1 h
  obtain ⟨-, rfl, rfl⟩ := along_pure.1 last
  obtain ⟨-, rfl, rfl⟩ := along_single.1 read
  exact ⟨rfl, rfl⟩

theorem uses_readName {capacity : Nat} {result : Except InputError (List UInt8)}
    (h : Along Step.Uses (readName capacity) before events result after) :
    result = before.name capacity ∧ after = before.rest := by
  obtain ⟨_, token, _, _, read, last, -⟩ := along_bind.1 h
  obtain ⟨-, rfl, rfl⟩ := along_pure.1 last
  obtain ⟨-, rfl, rfl⟩ := along_single.1 read
  exact ⟨rfl, rfl⟩

theorem uses_selection {selected : Option Exercise}
    (h : Along Step.Uses selection before events selected after) :
    selected = before.exercise? ∧ after = before.rest := by
  obtain ⟨_, result, middle, _, read, rest, -⟩ := along_bind.1 h
  obtain ⟨value, rfl⟩ := uses_readInt read
  rw [Source.exercise?, ← Source.toOption_int, ← value]
  match result with
  | .error e =>
    obtain ⟨_, _, _, _, logged, last, -⟩ := along_bind.1 rest
    obtain ⟨-, rfl, rfl⟩ := along_pure.1 last
    exact ⟨rfl, uses_log logged⟩
  | .ok choice =>
    dsimp only at rest
    split at rest
    · next x found =>
      obtain ⟨-, rfl, rfl⟩ := along_pure.1 rest
      exact ⟨found.symm, rfl⟩
    · next found =>
      obtain ⟨_, _, _, _, logged, last, -⟩ := along_bind.1 rest
      obtain ⟨-, rfl, rfl⟩ := along_pure.1 last
      exact ⟨found.symm, uses_log logged⟩

theorem uses_asking {plan : Plan (Except InputError α)} {f : α → Request}
    {prepared : Except InputError (Option Request)}
    (h : Along Step.Uses (opening x >>= fun _ => plan >>= fun result =>
      pure (result.map fun a => some (f a))) before events prepared after) :
    ∃ events result, Along Step.Uses plan before events result after ∧
      prepared = result.map fun a => some (f a) := by
  obtain ⟨_, _, _, _, opened, rest, -⟩ := along_bind.1 h
  obtain ⟨_, result, _, _, asked, last, -⟩ := along_bind.1 rest
  obtain ⟨-, rfl, rfl⟩ := along_pure.1 last
  obtain rfl := uses_printLines opened
  exact ⟨_, result, asked, rfl⟩

theorem uses_draw {bound value : UInt32} (h : Along Step.Uses (draw bound) before events value after) :
    ∃ words, Random.draw? bound before.words = some (value, words) ∧ after = { before with words } := by
  obtain ⟨-, drawn, same⟩ := along_single.1 h
  obtain ⟨tokens, words⟩ := after
  obtain rfl : tokens = before.tokens := same
  exact ⟨words, drawn, rfl⟩

theorem prepares_of_uses {prepared : Except InputError (Option Request)}
    (h : Along Step.Uses (prepare config x) before events prepared after) :
    Prepares config before x prepared after := by
  cases x with
  | missingFile =>
    obtain ⟨_, value, _, _, draws, last, -⟩ := along_bind.1 h
    obtain ⟨-, rfl, rfl⟩ := along_pure.1 last
    obtain ⟨words, drawn, rfl⟩ := uses_draw draws
    exact .missingFile drawn
  | nullArguments =>
    obtain ⟨_, name, read, rfl⟩ := uses_asking h
    obtain ⟨rfl, rfl⟩ := uses_readName read
    exact .nullArguments
  | execFailure =>
    obtain ⟨_, _, _, _, opened, last, -⟩ := along_bind.1 h
    obtain ⟨-, rfl, rfl⟩ := along_pure.1 last
    obtain rfl := uses_printLines opened
    exact .execFailure
  | strangerJoin =>
    obtain ⟨_, value, _, _, draws, rest, -⟩ := along_bind.1 h
    obtain ⟨_, _, _, _, opened, last, -⟩ := along_bind.1 rest
    obtain ⟨-, rfl, rfl⟩ := along_pure.1 last
    obtain rfl := uses_printLines opened
    obtain ⟨words, drawn, rfl⟩ := uses_draw draws
    exact .strangerJoin drawn
  | runProgram =>
    obtain ⟨_, name, read, rfl⟩ := uses_asking h
    obtain ⟨rfl, rfl⟩ := uses_readName read
    exact .runProgram
  | joinChild =>
    obtain ⟨_, n, read, rfl⟩ := uses_asking h
    obtain ⟨rfl, rfl⟩ := uses_readInt read
    exact .joinChild
  | exitProcess =>
    obtain ⟨_, n, read, rfl⟩ := uses_asking h
    obtain ⟨rfl, rfl⟩ := uses_readInt read
    exact .exitProcess

/-! ## A whole drill -/

theorem course_of_uses {t : Termination} (h : Along Step.Uses (drill config) before events t after) :
    ∃ phases : Phases, Printed (Exercise.menu.map Drill.menuLine) phases.menu ∧
      Refills phases.selection ∧ unlogged events = phases.word ∧ Course config before phases t after := by
  obtain ⟨menu, _, _, _, shown, behind, rfl⟩ := along_bind.1 h
  obtain ⟨reads, selected, _, more, read, rest, rfl⟩ := along_bind.1 behind
  obtain rfl := uses_printLines shown
  obtain ⟨selected_eq, rfl⟩ := uses_selection read
  have printed := word_printLines (word_of_uses shown)
  have refills := word_selection (word_of_uses read)
  match selected with
  | none =>
    obtain ⟨rfl, rfl, rfl⟩ := along_pure.1 rest
    refine ⟨{ menu, selection := unlogged reads }, printed, refills, ?_, .unselected selected_eq.symm rfl⟩
    rw [unlogged_append, unlogged_of_console printed.isConsole, List.append_nil]
    simp [Phases.word]
  | some x =>
    obtain ⟨first, _, _, _, logged, gone, rfl⟩ := along_bind.1 rest
    obtain ⟨second, prepared, _, _, reached, ended, rfl⟩ := along_bind.1 gone
    obtain ⟨third, _, _, fourth, settled, halted, rfl⟩ := along_bind.1 ended
    obtain rfl := uses_log logged
    obtain rfl := uses_settle settled
    obtain rfl := uses_halt halted
    -- Only the preparation has used up anything; the phases are those of the record alone.
    obtain ⟨line, answer, eq₁, opened, refills', asks, nothing⟩ := word_prepare (word_of_uses reached)
    obtain ⟨request, report, eq₂, made⟩ := word_settle (word_of_uses settled)
    obtain ⟨answered, halt, refusal, eq₃, halt_of, rfl⟩ := word_halt (word_of_uses halted)
    refine ⟨⟨menu, unlogged reads, line, answer, request, report, halt, refusal⟩, printed, refills, ?_, ?_⟩
    · simp only [unlogged_append, unlogged_of_console printed.isConsole, word_log (word_of_uses logged),
        eq₁, eq₂, eq₃, Phases.word, List.append_assoc, List.nil_append]
    · exact .selected selected_eq.symm (prepares_of_uses reached)
        ⟨opened, refills', asks, nothing, made, halt_of⟩

end Plan

end ProcessDrill
