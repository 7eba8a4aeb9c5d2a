import Mathlib
import ProcessDrill.Proofs.Drill.Stages
import ProcessDrill.Proofs.Machine.Scripts
import ProcessDrill.Proofs.Text.Numbers
/-!
# Names of programs

The name of a program on its way from the input, or from a random number, to the kernel. `Drill.traps` are the traps of
a drill behind traps, which are those of its calls (`traps_eq`).

Main statement: `names_intact`, for drills behind the traps of any kernel, on a bench that was made for them. The input
are the bytes that were pending, those that were delivered, and any bytes that may still come.
* Every program that a trap asks for is shown by a path that ends with its first zero byte. Before that stands the name
  that was chosen: all of the second token, or the digits of the number that was drawn. It is not empty, it has no blank
  and no zero byte, and with its terminator it is no longer than the room for names, or than eleven bytes.
* A name that fits but has a zero byte makes no such trap. If the console works, it is reported as an invalid argument,
  and the drill still comes to ask for the halt.
-/

namespace ProcessDrill

set_option autoImplicit false

variable {σ : Type}

/-! ## Traps of a drill -/

/-- The traps that a record stands for. -/
def trapsOf (events : List Event) : List Trap :=
  events.filterMap fun event => event.call?.bind Call.trap?

theorem trapsOf_concat (events : List Event) (event : Event) :
    trapsOf (events ++ [event]) = trapsOf events ++ (event.call?.bind Call.trap?).toList := by
  rw [trapsOf, trapsOf, List.filterMap_append, List.filterMap_cons]
  cases event.call?.bind Call.trap? <;> rfl

theorem TrapHandler.simulates_traced (kernel : TrapHandler σ) :
    kernel.traced.host.Simulates kernel.host.recorded fun s t => s.1 = t.1 ∧ s.2 = trapsOf t.2 where
  answer := by
    rintro call ⟨s, past⟩ ⟨t, events⟩ ⟨same, traps⟩
    obtain rfl : s = t := same
    obtain rfl : past = trapsOf events := traps
    rw [answer_traced]
    cases h : (kernel.host.answer call s).1 with
    | some a =>
      rw [Host.recorded_answer_some h]
      exact ⟨rfl, rfl, (trapsOf_concat events (.answered call a)).symm⟩
    | none =>
      rw [Host.recorded_answer_none h]
      exact ⟨rfl, rfl, (trapsOf_concat events (.unanswered call)).symm⟩
  log := by
    rintro record ⟨s, past⟩ ⟨t, events⟩ ⟨same, traps⟩
    obtain rfl : s = t := same
    obtain rfl : past = trapsOf events := traps
    exact ⟨rfl, ((trapsOf_concat _ _).trans (List.append_nil _)).symm⟩
  patience := by
    rintro ⟨s, past⟩ ⟨t, events⟩ ⟨same, -⟩
    exact congrArg kernel.patience same

namespace Drill

/-- The traps of a drill behind traps, in order. -/
def traps (kernel : TrapHandler σ) (config : Config) (bench : Bench σ) : List Trap :=
  let machine := (bench.console.machine, [])
  (left kernel.traced.host config { bench with console := { bench.console with machine } }).console.machine.2

theorem traps_eq (kernel : TrapHandler σ) (config : Config) (bench : Bench σ) :
    traps kernel config bench = trapsOf (trace kernel.host config bench) := by
  have agree := agree_run (Step.agree_perform kernel.simulates_traced) config
  have begun : Bench.Related (fun s t => s.1 = t.1 ∧ s.2 = trapsOf t.2)
      { bench with console := { bench.console with machine := (bench.console.machine, []) } } bench.recorded :=
    ⟨⟨⟨rfl, rfl⟩, rfl, rfl⟩, rfl⟩
  have last := left_agree agree begun
  rw [trace_eq_record]
  exact last.console.machine.2

theorem mem_traps {kernel : TrapHandler σ} {config : Config} {bench : Bench σ} {trap : Trap} :
    trap ∈ traps kernel config bench ↔
      ∃ event ∈ trace kernel.host config bench, ∃ call, event.call? = some call ∧ call.trap? = some trap := by
  simp only [traps_eq, trapsOf, List.mem_filterMap, Option.bind_eq_some_iff]

/-- Behind a trap for a program stands a call with the bytes before the terminator. -/
theorem call_of_exec_trap {kernel : TrapHandler σ} {config : Config} {bench : Bench σ} {path : List UInt8}
    {argc : UInt64} {vector : Option (List (List UInt8))}
    (mem : .exec path argc vector ∈ traps kernel config bench) :
    ∃ name argv, path = name ++ [0] ∧ 0 ∉ name ∧
      .exec name argv ∈ processCalls (trace kernel.host config bench) := by
  obtain ⟨event, inside, call, asked, made⟩ := mem_traps.1 mem
  cases call with
  | exec name argv =>
    have called := mem_processCalls.2 ⟨⟨event, inside, asked⟩, rfl⟩
    by_cases zero : 0 ∈ name
    · simp only [Call.trap?, if_pos zero] at made
      cases made
    · simp only [Call.trap?, if_neg zero] at made
      refine ⟨name, argv, ?_, zero, called⟩
      cases argv <;> cases made <;> rfl
  | _ => cases made

/-! ## Where a name comes from -/

section

variable {host : Host σ} {config : Config} {bench : Bench σ} {future : List UInt8}
variable (nothing : (left host config bench).console.atEnd = true → future = [])
include nothing

/-- The name of a program that is asked for: the digits of a random number, or the second token, if it fits. -/
theorem name_chosen {name : List UInt8} {argv : Argv}
    (mem : .exec name argv ∈ processCalls (trace host config bench)) :
    ∃ x, selected host bench = some x ∧
      ((tokens host config bench future)[0]?.bind Token.integer?).bind Exercise.ofNumber? = some x ∧
      ((x = .missingFile ∧ ∃ value rest, Random.draw? config.fileNameBound bench.words = some (value, rest) ∧
          name = fileName value) ∨
        (x = .nullArguments ∨ x = .runProgram) ∧ (tokens host config bench future)[1]? = some name ∧
          name.length < config.nameCapacity) := by
  obtain ⟨x, chosen, middle, reaches⟩ := reaches_of_request (r := .exec name argv) mem
  exact ⟨x, reaches.selected_eq, reaches.exercise_eq nothing, of_exec (reaches.request_eq nothing)⟩

end

theorem fileName_plain (value : UInt32) :
    fileName value ≠ [] ∧ ∀ b ∈ fileName value, Text.isBlank b = false ∧ b ≠ 0 := by
  have digits := isDecimal_fileName value
  refine ⟨digits.nonempty, fun b mem => ⟨?_, ?_⟩⟩
  · simpa [Text.isInk] using Text.isInk_of_digit (digits.isDigit b mem)
  · rintro rfl
    exact absurd (digits.isDigit 0 mem).1 (by decide)

theorem typed_plain {bytes name : List UInt8} (mem : name ∈ Text.tokens bytes) :
    name ≠ [] ∧ ∀ b ∈ name, Text.isBlank b = false := by
  refine ⟨Text.ne_nil_of_mem_tokens mem, fun b inside => ?_⟩
  simpa [Text.isInk] using Text.isInk_of_mem_tokens mem b inside

/-! ## Names at the kernel -/

section

variable {kernel : TrapHandler σ} {config : Config} {bench : Bench σ} {future : List UInt8}
variable (nothing : (left kernel.host config bench).console.atEnd = true → future = [])
include nothing

theorem exec_trap_intact (valid : config.Valid) {path : List UInt8} {argc : UInt64}
    {vector : Option (List (List UInt8))} (mem : .exec path argc vector ∈ traps kernel config bench) :
    ∃ name, path = name ++ [0] ∧ Machine.pathName path = name ∧
      (name ≠ [] ∧ ∀ b ∈ name, Text.isBlank b = false ∧ b ≠ 0) ∧
      path.length ≤ max config.nameCapacity 11 ∧ path.length ≤ Config.maxNameCapacity ∧
      ((selected kernel.host bench = some .missingFile ∧ ∃ value rest,
          Random.draw? config.fileNameBound bench.words = some (value, rest) ∧ Text.IsDecimal value.toNat name) ∨
        (selected kernel.host bench = some .nullArguments ∨ selected kernel.host bench = some .runProgram) ∧
          (tokens kernel.host config bench future)[1]? = some name) := by
  obtain ⟨name, argv, rfl, zero, called⟩ := call_of_exec_trap mem
  obtain ⟨x, chosen, -, source⟩ := name_chosen nothing called
  have capacity := valid.nameCapacity_le
  refine ⟨name, rfl, Machine.pathName_terminated zero, ?_⟩
  rw [List.length_append, List.length_singleton, chosen]
  rcases source with ⟨rfl, value, rest, drawn, rfl⟩ | ⟨asked, typed, fits⟩
  · have short := length_fileName_le value
    have room : Config.maxNameCapacity = 256 := rfl
    exact ⟨fileName_plain value, by omega, by omega, .inl ⟨rfl, value, rest, drawn, isDecimal_fileName value⟩⟩
  · obtain ⟨nonempty, noBlank⟩ := typed_plain (List.mem_of_getElem? typed)
    refine ⟨⟨nonempty, fun b inside => ⟨noBlank b inside, ?_⟩⟩, by omega, by omega, .inr ⟨?_, typed⟩⟩
    · rintro rfl
      exact zero inside
    · exact asked.imp (congrArg some) (congrArg some)

section

variable {x : Exercise} {name : List UInt8} (asks : x = .nullArguments ∨ x = .runProgram)
variable (selects : (tokens kernel.host config bench future)[0]?.bind Token.integer? = some x.number)
variable (typed : (tokens kernel.host config bench future)[1]? = some name) (zero : 0 ∈ name)
include asks selects typed zero

theorem no_exec_trap (path : List UInt8) (argc : UInt64) (vector : Option (List (List UInt8))) :
    .exec path argc vector ∉ traps kernel config bench := by
  intro mem
  obtain ⟨name', argv, -, noZero, called⟩ := call_of_exec_trap mem
  obtain ⟨y, -, number, source⟩ := name_chosen nothing called
  rw [selects, Option.bind_some, Exercise.ofNumber?_number] at number
  obtain rfl := Option.some_inj.1 number
  rcases source with ⟨rfl, -⟩ | ⟨-, typed', -⟩
  · rcases asks with no | no <;> cases no
  · obtain rfl := Option.some_inj.1 (typed'.symm.trans typed)
    exact noZero zero

theorem zero_reported (fits : name.length < config.nameCapacity) (served : Served kernel.host config bench) :
    (∃ before after, accepted (trace kernel.host config bench) =
      before ++ Utf8.encodeLine ("exec(\"" ++ Text.escape name ++ "\") failed: EINVAL") ++ after) ∧
    .halt ∈ traps kernel config bench := by
  have drawless : config.bound? x = none := by
    rcases asks with rfl | rfl <;> rfl
  have kept : (some name).filter (·.length < config.nameCapacity) = some name := by
    rw [Option.filter_some, if_pos (decide_eq_true fits)]
  obtain ⟨argv, requested⟩ : ∃ argv, request? config bench.words (tokens kernel.host config bench future)[1]? x =
      some (.exec name argv) := by
    rw [typed]
    rcases asks with rfl | rfl
    · rw [request?, kept]
      exact ⟨.null 1, rfl⟩
    · rw [request?, kept]
      exact ⟨.empty, rfl⟩
  obtain ⟨chosen, middle, reaches⟩ := served.reaches_request nothing selects drawless requested
  -- in no state does the kernel see the name, so it cannot hang
  have refused (s : σ) : (kernel.host.answer (.exec name argv) s).1 = some (.error .einval) :=
    congrArg Prod.fst (kernel.answer_of_zero zero argv s)
  obtain ⟨⟨answer, ⟨s, answered⟩, output⟩, halted⟩ := served.reports reaches fun s none => by
    rw [refused s] at none
    cases none
  obtain rfl := Option.some_inj.1 ((refused s).symm.trans answered)
  have line : (Request.exec name argv).report (.error .einval) =
      "exec(\"" ++ Text.escape name ++ "\") failed: EINVAL" := by
    simp only [Request.report, Request.text, Errno.name, String.append_assoc]
    rfl
  rw [line] at output
  obtain ⟨⟨event, inside, asked⟩, -⟩ := mem_processCalls.1 halted
  exact ⟨output, mem_traps.2 ⟨event, inside, .halt, asked, rfl⟩⟩

end

end

/-- The kernel is shown the name that was chosen, all of it with one zero byte behind, and a name that it cannot be shown
is reported and makes no trap. -/
theorem names_intact (kernel : TrapHandler σ) (machine : σ) (words : List UInt32) (config : Config) (bench : Bench σ)
    (built : Bench.new machine words config = .ok bench) (i : Nat) (future : List UInt8)
    (nothing : (benchAt kernel.host config bench (i + 1)).console.atEnd = true → future = []) :
    let here := benchAt kernel.host config bench i
    let events := trace kernel.host config here
    let tokens := Text.tokens (here.console.pending ++ (delivered events ++ future))
    (∀ path argc vector, .exec path argc vector ∈ traps kernel config here →
      ∃ name, path = name ++ [0] ∧ Machine.pathName path = name ∧
        (name ≠ [] ∧ ∀ b ∈ name, Text.isBlank b = false ∧ b ≠ 0) ∧
        path.length ≤ max config.nameCapacity 11 ∧ path.length ≤ Config.maxNameCapacity ∧
        ((selected kernel.host here = some .missingFile ∧ ∃ value rest,
            Random.draw? config.fileNameBound here.words = some (value, rest) ∧ Text.IsDecimal value.toNat name) ∨
          (selected kernel.host here = some .nullArguments ∨ selected kernel.host here = some .runProgram) ∧
            tokens[1]? = some name)) ∧
    (∀ (x : Exercise) (name : List UInt8), x = .nullArguments ∨ x = .runProgram →
      tokens[0]?.bind Token.integer? = some x.number → tokens[1]? = some name →
      0 ∈ name → name.length < config.nameCapacity →
      (∀ path argc vector, .exec path argc vector ∉ traps kernel config here) ∧
      (Served kernel.host config here →
        (∃ before after, accepted events =
          before ++ Utf8.encodeLine ("exec(\"" ++ Text.escape name ++ "\") failed: EINVAL") ++ after) ∧
        .halt ∈ traps kernel config here)) := by
  intro here events tokens
  refine ⟨fun path argc vector => exec_trap_intact nothing (Config.valid_of_new built), ?_⟩
  intro x name asks selects typed zero fits
  exact ⟨no_exec_trap nothing asks selects typed zero, zero_reported nothing asks selects typed zero fits⟩

/-- A name is typed that has a zero byte in it. -/
theorem zero_byte_typed :
    let machine : Machine := { reads := [.bytes [53, 32, 97, 0, 10]] }
    let bench : Bench Machine := ⟨{ machine }, []⟩
    Bench.new machine [] {} = .ok bench ∧
      (∀ path argc vector, .exec path argc vector ∉ traps Machine.kernel {} bench) ∧
      (∃ before after, accepted (trace Machine.kernel.host {} bench) =
        before ++ Utf8.encodeLine ("exec(\"" ++ Text.escape [97, 0] ++ "\") failed: EINVAL") ++ after) ∧
      .halt ∈ traps Machine.kernel {} bench := by
  intro machine bench
  have built : Bench.new machine [] {} = .ok bench := rfl
  have ended : (verdict (run Machine.kernel.host {} bench)).1 = .ok (.haltRefused .runProgram .eperm) := by
    cbv
  have typed : Text.tokens (bench.console.pending ++ (delivered (trace Machine.kernel.host {} bench) ++ [])) =
      [[53], [97, 0]] := by
    cbv
  have intact := (names_intact Machine.kernel machine [] {} bench built 0 [] fun _ => rfl).2 .runProgram [97, 0]
  rw [show benchAt Machine.kernel.host {} bench 0 = bench from rfl, typed] at intact
  obtain ⟨noTrap, reported⟩ := intact (.inr rfl) (by cbv) rfl (by decide) (by decide)
  exact ⟨built, noTrap, reported (served_of_verdict ended)⟩

end Drill

end ProcessDrill
