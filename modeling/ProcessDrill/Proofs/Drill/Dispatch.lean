import Mathlib
import ProcessDrill.Machine
import ProcessDrill.Proofs.Drill.Course
import ProcessDrill.Proofs.Text.Written
/-!
# What a drill asks of the machine

The first token of the input chooses the exercise, and the second is the answer to it. `Drill.request?` is the
request that an exercise comes to.

Main statement: `run_dispatches`, what a drill that comes to its end has made of its input, number by number. The input
are the bytes that were pending, those that were delivered, and any bytes that may still come, which are none behind
the end of the input.
* If the first token is a number of the menu, the calls that are none of the console are the one call that this number
  stands for, if it comes to one, and then the halt. The answer to the halt ends the drill.
* The program of number 1 has the digits of the number that is drawn as its name, and number 4 waits for the process
  whose number is drawn. Both lie below their bounds.
* Numbers 2 and 5 start the program that is named by the second token, if it leaves room for a terminator, and numbers
  6 and 7 use the integer that it spells, if it spells one. Number 3 makes no call.
* If there is no first token, or it is no integer, or its value is not on the menu, there are no such calls.
-/

namespace ProcessDrill

set_option autoImplicit false

variable {σ α β : Type}

/-! ## Numbers of exercises -/

theorem Exercise.exists_number {n : Int32} (low : 1 ≤ n) (high : n ≤ 7) :
    ∃ x : Exercise, x.number = n := by
  have low : 1 ≤ n.toInt := Int32.le_iff_toInt_le.1 low
  have high : n.toInt ≤ 7 := Int32.le_iff_toInt_le.1 high
  have all : n.toInt = 1 ∨ n.toInt = 2 ∨ n.toInt = 3 ∨ n.toInt = 4 ∨ n.toInt = 5 ∨ n.toInt = 6 ∨
      n.toInt = 7 := by omega
  rcases all with eq | eq | eq | eq | eq | eq | eq
  · exact ⟨.missingFile, Int32.toInt_inj.1 eq.symm⟩
  · exact ⟨.nullArguments, Int32.toInt_inj.1 eq.symm⟩
  · exact ⟨.execFailure, Int32.toInt_inj.1 eq.symm⟩
  · exact ⟨.strangerJoin, Int32.toInt_inj.1 eq.symm⟩
  · exact ⟨.runProgram, Int32.toInt_inj.1 eq.symm⟩
  · exact ⟨.joinChild, Int32.toInt_inj.1 eq.symm⟩
  · exact ⟨.exitProcess, Int32.toInt_inj.1 eq.symm⟩

theorem Exercise.ofNumber?_eq_none_iff {n : Int32} : ofNumber? n = none ↔ n < 1 ∨ 7 < n := by
  constructor
  · intro none
    by_cases low : n < 1
    · exact .inl low
    by_cases high : 7 < n
    · exact .inr high
    obtain ⟨x, rfl⟩ := exists_number (Int32.not_lt.1 low) (Int32.not_lt.1 high)
    rw [ofNumber?_number] at none
    cases none
  · intro outside
    cases found : ofNumber? n with
    | none => rfl
    | some x =>
      obtain rfl := ofNumber?_eq_some_iff.1 found
      revert outside
      cases x <;> decide

theorem Exercise.bind_ofNumber?_eq_none {choice : Option Int32} (outside : ∀ n, choice = some n → n < 1 ∨ 7 < n) :
    choice.bind ofNumber? = none :=
  Option.bind_eq_none_iff.2 fun n chosen => ofNumber?_eq_none_iff.2 (outside n chosen)

/-! ## Requests -/

namespace Drill

/-- The request that an exercise comes to, with these random words and this answer: an answer that is missing
or of no use comes to none. -/
def request? (config : Config) (words : List UInt32) (answer : Option (List UInt8)) :
    Exercise → Option Request
  | .missingFile =>
    (Random.draw? config.fileNameBound words).map fun (value, _) => .exec (fileName value) .empty
  | .nullArguments =>
    (answer.filter (·.length < config.nameCapacity)).map fun name => .exec name (.null 1)
  | .execFailure => none
  | .strangerJoin =>
    (Random.draw? config.pidBound words).map fun (value, _) => .join ⟨value.toUInt64⟩
  | .runProgram =>
    (answer.filter (·.length < config.nameCapacity)).map fun name => .exec name .empty
  | .joinChild => (answer.bind Token.integer?).map fun n => .join (.ofInt32 n)
  | .exitProcess => (answer.bind Token.integer?).map .exit

/-- The words hold a number for an exercise that draws one. -/
def Draws (config : Config) (words : List UInt32) : Exercise → Prop
  | .missingFile => ∃ value rest, Random.draw? config.fileNameBound words = some (value, rest)
  | .strangerJoin => ∃ value rest, Random.draw? config.pidBound words = some (value, rest)
  | _ => True

end Drill

theorem toOption_map_some (f : α → β) (result : Except InputError α) :
    (result.map fun a => some (f a)).toOption.join = result.toOption.map f := by
  cases result <;> rfl

namespace Prepares

variable {config : Config} {x : Exercise} {before after : Source}
variable {prepared : Except InputError (Option Request)}

theorem request_eq (h : Prepares config before x prepared after) :
    prepared.toOption.join = Drill.request? config before.words before.tokens.head? x := by
  cases h with
  | missingFile drawn =>
    rw [Drill.request?, drawn]
    rfl
  | nullArguments => rw [toOption_map_some, Source.toOption_name, Drill.request?]
  | execFailure => rfl
  | strangerJoin drawn =>
    rw [Drill.request?, drawn]
    rfl
  | runProgram => rw [toOption_map_some, Source.toOption_name, Drill.request?]
  | joinChild => rw [toOption_map_some, Source.toOption_int, Drill.request?]
  | exitProcess => rw [toOption_map_some, Source.toOption_int, Drill.request?]

theorem draws (h : Prepares config before x prepared after) : Drill.Draws config before.words x := by
  cases h with
  | missingFile drawn => exact ⟨_, _, drawn⟩
  | strangerJoin drawn => exact ⟨_, _, drawn⟩
  | _ => trivial

end Prepares

namespace Phases

variable {phases : Phases} {x : Exercise} {prepared : Except InputError (Option Request)}
variable {answered : Except Errno Unit}

theorem Busy.processCalls_eq (busy : Busy x prepared answered phases)
    (menu : ∀ event ∈ phases.menu, event.IsConsole) (selection : Refills phases.selection) :
    processCalls phases.word = prepared.toOption.join.toList.map Request.call ++ [.halt] := by
  have settled := busy.settled.processCalls_eq
  have halted := busy.halted.processCalls_eq
  rw [processCalls_append] at settled halted
  simp only [word, processCalls_append, processCalls_of_console menu,
    processCalls_of_console selection.isConsole, processCalls_of_console busy.line.isConsole,
    processCalls_of_console busy.answer.isConsole, List.nil_append]
  rw [halted, ← List.append_assoc, settled]

end Phases

/-! ## The calls of a drill on the tokens -/

namespace Plan

variable {config : Config} {before after : Source} {events : List Event}

theorem uses_drill {t : Termination} (h : Along Step.Uses (drill config) before events t after) :
    match (before.tokens.head?.bind Token.integer?).bind Exercise.ofNumber? with
    | none => processCalls events = [] ∧ t = .noSelection
    | some x =>
      processCalls events =
          (Drill.request? config before.words before.tokens.tail.head? x).toList.map Request.call ++
            [.halt] ∧
        Drill.Draws config before.words x ∧
        ∃ answer, .answered .halt answer ∈ events ∧ t = .ofHalt x answer := by
  obtain ⟨phases, menu, selection, eq, course⟩ := course_of_uses h
  have calls : processCalls events = processCalls phases.word := by
    rw [← eq, processCalls_unlogged]
  rw [← Source.exercise?, calls]
  cases course with
  | unselected chosen alone =>
    rw [chosen, alone]
    refine ⟨?_, rfl⟩
    simp only [Phases.word, List.append_nil, processCalls_append, processCalls_of_console menu.isConsole,
      processCalls_of_console selection.isConsole]
  | @selected x prepared answered _ chosen prepares busy =>
    rw [chosen]
    refine ⟨?_, prepares.draws, answered, ?_, rfl⟩
    · rw [busy.processCalls_eq menu.isConsole selection, prepares.request_eq]
      rfl
    · have mem : .answered .halt answered ∈ unlogged events := by
        rw [eq]
        simp [Phases.word, busy.halted.mem]
      exact (List.mem_filter.1 mem).1

end Plan

/-! ## Any drill that comes to its end -/

namespace Drill

/-- A drill that has chosen an exercise ends with the answer to the halt. -/
inductive Halts (events : List Event) (x : Exercise) : Termination → Prop
  | halted (answered : .answered .halt (.ok ()) ∈ events) : Halts events x (.halted x)
  | refused {e : Errno} (answered : .answered .halt (.error e) ∈ events) : Halts events x (.haltRefused x e)

theorem halts_ofHalt {events : List Event} {answer : Except Errno Unit} (x : Exercise)
    (answered : .answered .halt answer ∈ events) : Halts events x (.ofHalt x answer) := by
  cases answer with
  | ok _ => exact .halted answered
  | error e => exact .refused answered

variable {host : Host σ} {config : Config} {bench after : Bench σ}

theorem calls_of_run {t : Termination} (h : run host config bench = .ok t after) {future : List UInt8}
    (nothing : after.console.atEnd = true → future = []) :
    let events := trace host config bench
    let tokens := Text.tokens (bench.console.pending ++ (delivered events ++ future))
    (∀ x : Exercise, tokens[0]?.bind Token.integer? = some x.number →
      processCalls events = (request? config bench.words tokens[1]? x).toList.map Request.call ++ [.halt] ∧
        Draws config bench.words x ∧ Halts events x t) ∧
    ((∀ n, tokens[0]?.bind Token.integer? = some n → n < 1 ∨ 7 < n) → processCalls events = [] ∧ t = .noSelection) := by
  intro events tokens
  have uses := Plan.uses_drill (Plan.uses_of_happens (run_ok h) nothing)
  rw [show (bench.stock.source (delivered events ++ future)).tokens = tokens from rfl, List.head?_tail,
    List.head?_eq_getElem?] at uses
  refine ⟨fun x number => ?_, fun outside => ?_⟩
  · rw [number, Option.bind_some, Exercise.ofNumber?_number] at uses
    obtain ⟨calls, draws, answer, answered, rfl⟩ := uses
    exact ⟨calls, draws, halts_ofHalt x answered⟩
  · rw [Exercise.bind_ofNumber?_eq_none outside] at uses
    exact uses

/-- What a drill that comes to its end has made of its input: the calls that each number of the menu stands for. -/
theorem run_dispatches {t : Termination} (valid : config.Valid)
    (h : run host config bench = .ok t after) (future : List UInt8)
    (nothing : after.console.atEnd = true → future = []) :
    let events := trace host config bench
    let tokens := Text.tokens (bench.console.pending ++ (delivered events ++ future))
    let integer (ink : List UInt8) := if ink.length ≤ 40 then (Utf8.decode? ink).bind Numeral.parse else none
    let selects (n : Int32) := tokens[0]?.bind integer = some n
    let named := tokens[1]?.filter fun name => name.length < config.nameCapacity
    let typed := tokens[1]?.bind integer
    (selects 1 → Halts events .missingFile t ∧ ∃ value rest name,
      Random.draw? config.fileNameBound bench.words = some (value, rest) ∧ value < config.fileNameBound ∧
      Text.IsDecimal value.toNat name ∧ processCalls events = [.exec name .empty, .halt]) ∧
    (selects 2 → Halts events .nullArguments t ∧
      processCalls events = named.toList.map (fun name => .exec name (.null 1)) ++ [.halt]) ∧
    (selects 3 → Halts events .execFailure t ∧ processCalls events = [.halt]) ∧
    (selects 4 → Halts events .strangerJoin t ∧ ∃ value rest,
      Random.draw? config.pidBound bench.words = some (value, rest) ∧ value < config.pidBound ∧
      processCalls events = [.join ⟨value.toUInt64⟩, .halt]) ∧
    (selects 5 → Halts events .runProgram t ∧
      processCalls events = named.toList.map (fun name => .exec name .empty) ++ [.halt]) ∧
    (selects 6 → Halts events .joinChild t ∧
      processCalls events = typed.toList.map (fun n => .join ⟨n.toInt64.toUInt64⟩) ++ [.halt]) ∧
    (selects 7 → Halts events .exitProcess t ∧
      processCalls events = typed.toList.map (fun n => .exit n) ++ [.halt]) ∧
    ((∀ n, selects n → n < 1 ∨ 7 < n) → processCalls events = [] ∧ t = .noSelection) := by
  intro events tokens integer selects named typed
  obtain ⟨chosen, unchosen⟩ := calls_of_run h nothing
  have asked {α : Type} (x : Exercise) (given : Option α) (f : α → Request)
      (request : request? config bench.words tokens[1]? x = given.map f) (number : selects x.number) :
      Halts events x t ∧ processCalls events = given.toList.map (fun a => (f a).call) ++ [.halt] := by
    obtain ⟨made, -, halts⟩ := chosen x number
    refine ⟨halts, made.trans ?_⟩
    rw [request, Option.toList_map, List.map_map]
    rfl
  refine ⟨fun one => ?_, asked .nullArguments named (fun name => .exec name (.null 1)) rfl, fun three => ?_,
    fun four => ?_, asked .runProgram named (fun name => .exec name .empty) rfl,
    asked .joinChild typed (fun n => .join (.ofInt32 n)) rfl, asked .exitProcess typed (fun n => .exit n) rfl, unchosen⟩
  · obtain ⟨made, ⟨value, rest, drawn⟩, halts⟩ := chosen .missingFile one
    refine ⟨halts, value, rest, fileName value, drawn, Random.draw?_lt valid.fileNameBound_ne drawn,
      isDecimal_fileName value, ?_⟩
    rw [made, request?, drawn]
    rfl
  · obtain ⟨made, -, halts⟩ := chosen .execFailure three
    exact ⟨halts, made⟩
  · obtain ⟨made, ⟨value, rest, drawn⟩, halts⟩ := chosen .strangerJoin four
    refine ⟨halts, value, rest, drawn, Random.draw?_lt valid.pidBound_ne drawn, ?_⟩
    rw [made, request?, drawn]
    rfl

/-- The first number of the menu is chosen, and the first of two words makes a name of two digits. -/
theorem drawn_name_tried :
    let bench : Bench Machine := ⟨{ machine := { reads := [.bytes [49, 10]] } }, [3000000000, 7]⟩
    ∃ after, run Machine.direct {} bench = .ok (.haltRefused .missingFile .eperm) after ∧
      processCalls (trace Machine.direct {} bench) = [.exec [54, 57] .empty, .halt] := by
  intro bench
  have valid : ({} : Config).Valid := by decide
  have ended : (match run Machine.direct {} bench with
    | .ok t _ => some t
    | .error _ _ => none) = some (.haltRefused .missingFile .eperm) := by
    cbv
  split at ended
  · next t after h =>
    obtain rfl := Option.some_inj.1 ended
    have tokens : Text.tokens (bench.console.pending ++ (delivered (trace Machine.direct {} bench) ++ [])) = [[49]] := by
      cbv
    have one : ([[49]] : List (List UInt8))[0]?.bind Token.integer? = some 1 := by
      decide +kernel
    have dispatched := (run_dispatches valid h [] fun _ => rfl).1
    rw [tokens] at dispatched
    obtain ⟨-, value, rest, name, drawn, -, digits, calls⟩ := dispatched one
    have first : Random.draw? 99 bench.words = some (69, [7]) := by
      decide
    obtain ⟨rfl, rfl⟩ := Prod.mk.inj (Option.some_inj.1 (first.symm.trans drawn))
    have sixty_nine : Text.IsDecimal 69 [54, 57] := ⟨by decide, by simp, rfl, by decide⟩
    rw [digits.unique sixty_nine] at calls
    exact ⟨after, h, calls⟩
  · cases ended

end Drill

end ProcessDrill
