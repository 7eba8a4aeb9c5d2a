import ProcessDrill.Proofs.Console.Quotes
import ProcessDrill.Proofs.Drill.Dispatch
import ProcessDrill.Proofs.Drill.Lines
/-!
# What a drill prints

* `Drill.inputError?` says why an answer is of no use to an exercise, and `Drill.Faults` the line about it.
* `Drill.Prints` is what a drill prints between the opening of an exercise and the halt.

Main statement: `run_transcript`, the output of a drill that comes to its end. The input are the bytes that were
pending, those that were delivered, and any bytes that may still come.
* The output is made of whole lines, each with one line feed, which is its last byte.
* The lines are those of the menu and, if the first token is no number on it, no others.
* Else the opening of the exercise follows, then what `Prints` says, then the refusal of the halt if it was refused.
-/

namespace ProcessDrill

set_option autoImplicit false

variable {σ : Type}

/-! ## Answers of no use -/

namespace Token

/-- Why this token, or none, is no integer. -/
def intError? : Option (List UInt8) → Option InputError
  | none => some .closed
  | some ink =>
    match integer? ink with
    | some _ => none
    | none => some (.notInteger (kept Console.maxIntToken ink).shown)

/-- Why this token, or none, is no name that leaves room for its terminator. -/
def nameError? (capacity : Nat) : Option (List UInt8) → Option InputError
  | none => some .closed
  | some ink => if ink.length < capacity then none else some (.nameTooLong ink.length capacity)

theorem asInt_eq_error_iff {ink : Option (List UInt8)} {e : InputError} :
    asInt (given Console.maxIntToken ink) = .error e ↔ intError? ink = some e := by
  cases ink with
  | none => simp [asInt, given, intError?]
  | some ink =>
    rw [asInt_given, intError?]
    cases integer? ink <;> simp

theorem asName_eq_error_iff {capacity : Nat} {ink : Option (List UInt8)} {e : InputError} :
    asName capacity (given capacity ink) = .error e ↔ nameError? capacity ink = some e := by
  cases ink with
  | none => simp [asName, given, nameError?]
  | some ink =>
    rw [asName_given, nameError?]
    split <;> simp

theorem integer?_of_intError? {ink : List UInt8} {e : InputError} (h : intError? (some ink) = some e) :
    integer? ink = none := by
  rw [intError?] at h
  split at h
  · cases h
  · assumption

end Token

/-- Why this answer is of no use to an exercise that asks for one. -/
def Drill.inputError? (config : Config) (answer : Option (List UInt8)) : Exercise → Option InputError
  | .nullArguments => Token.nameError? config.nameCapacity answer
  | .runProgram => Token.nameError? config.nameCapacity answer
  | .joinChild => Token.intError? answer
  | .exitProcess => Token.intError? answer
  | _ => none

/-- The line about an answer, or a missing one, that is of no use to an exercise which asks for one. -/
inductive Drill.Faults (config : Config) : Exercise → Option (List UInt8) → String → Prop
  | closed {x : Exercise} (asks : x ∈ [.nullArguments, .runProgram, .joinChild, .exitProcess]) :
      Faults config x none "error: input ended before a value was entered"
  | notInteger {x : Exercise} {ink : List UInt8} {text : String} (asks : x ∈ [.joinChild, .exitProcess])
      (other : ink.length ≤ 40 → (Utf8.decode? ink).bind Numeral.parse = none) (quotes : Token.Quotes ink text) :
      Faults config x (some ink) ("error: '" ++ text ++ "' is not an integer")
  | nameTooLong {x : Exercise} {ink : List UInt8} {length capacity : String} (asks : x ∈ [.nullArguments, .runProgram])
      (long : config.nameCapacity ≤ ink.length) (typed : Text.IsSigned ink.length length)
      (held : Text.IsSigned config.nameCapacity capacity) :
      Faults config x (some ink)
        ("error: name is " ++ length ++ " bytes but the buffer holds " ++ capacity ++ " bytes including the NUL")

namespace Drill

variable {config : Config} {x : Exercise} {answer : Option (List UInt8)} {line : String}

theorem line_notInteger (text : String) :
    "error: " ++ (InputError.notInteger text).message = "error: '" ++ text ++ "' is not an integer" := by
  simp only [InputError.message, String.append_assoc]
  rfl

theorem line_nameTooLong (length capacity : Nat) :
    "error: " ++ (InputError.nameTooLong length capacity).message = "error: name is " ++ Text.signed length ++
      " bytes but the buffer holds " ++ Text.signed capacity ++ " bytes including the NUL" := by
  simp only [InputError.message, String.append_assoc]
  rfl

theorem faults_int_iff (asks : x ∈ [.joinChild, .exitProcess]) :
    Faults config x answer line ↔ ∃ e, Token.intError? answer = some e ∧ line = "error: " ++ e.message := by
  constructor
  · intro faults
    cases faults with
    | closed _ => exact ⟨.closed, rfl, rfl⟩
    | @notInteger ink text _ other quotes =>
      have none : Token.integer? ink = none := ite_eq_right_iff.2 other
      refine ⟨.notInteger (Token.quoted ink), ?_, ?_⟩
      · rw [Token.intError?, none]
        rfl
      · rw [line_notInteger, Token.quotes_iff.1 quotes]
    | nameTooLong names _ _ _ => cases x <;> simp at asks names
  · rintro ⟨e, faulty, rfl⟩
    match answer with
    | none =>
      cases faulty
      exact .closed (List.mem_append_right [Exercise.nullArguments, .runProgram] asks)
    | some ink =>
      rw [Token.intError?] at faulty
      split at faulty
      · cases faulty
      · next none =>
        cases faulty
        rw [line_notInteger]
        exact .notInteger asks (ite_eq_right_iff.1 none) (Token.quotes_quoted ink)

theorem faults_name_iff (asks : x ∈ [.nullArguments, .runProgram]) :
    Faults config x answer line ↔
      ∃ e, Token.nameError? config.nameCapacity answer = some e ∧ line = "error: " ++ e.message := by
  constructor
  · intro faults
    cases faults with
    | closed _ => exact ⟨.closed, rfl, rfl⟩
    | notInteger integers _ _ => cases x <;> simp at asks integers
    | @nameTooLong ink length capacity _ long typed held =>
      refine ⟨.nameTooLong ink.length config.nameCapacity, if_neg (Nat.not_lt.2 long), ?_⟩
      rw [line_nameTooLong, Text.isSigned_iff.1 typed, Text.isSigned_iff.1 held]
  · rintro ⟨e, faulty, rfl⟩
    match answer with
    | none =>
      cases faulty
      exact .closed (List.mem_append_left [Exercise.joinChild, .exitProcess] asks)
    | some ink =>
      rw [Token.nameError?] at faulty
      split at faulty
      · cases faulty
      · next long =>
        cases faulty
        rw [line_nameTooLong]
        exact .nameTooLong asks (Nat.not_lt.1 long) (Text.isSigned_iff.2 rfl) (Text.isSigned_iff.2 rfl)

theorem faults_iff :
    Faults config x answer line ↔ ∃ e, inputError? config answer x = some e ∧ line = "error: " ++ e.message := by
  cases x with
  | nullArguments => exact faults_name_iff (by decide)
  | runProgram => exact faults_name_iff (by decide)
  | joinChild => exact faults_int_iff (by decide)
  | exitProcess => exact faults_int_iff (by decide)
  | _ =>
    refine iff_of_false ?_ nofun
    rintro (asks | ⟨asks, -, -⟩ | ⟨asks, -, -, -⟩)
    all_goals exact absurd asks (by decide)

end Drill

theorem map_eq_error_iff {ε α β : Type} {f : α → β} {result : Except ε α} {e : ε} :
    result.map f = .error e ↔ result = .error e := by
  cases result <;> simp [Except.map]

/-- An exercise comes to no request, with an error, exactly if its answer is of no use. -/
theorem Prepares.eq_error_iff {config : Config} {x : Exercise} {before after : Source}
    {prepared : Except InputError (Option Request)} (h : Prepares config before x prepared after)
    (e : InputError) : prepared = .error e ↔ Drill.inputError? config before.tokens.head? x = some e := by
  cases h with
  | nullArguments => exact map_eq_error_iff.trans Token.asName_eq_error_iff
  | runProgram => exact map_eq_error_iff.trans Token.asName_eq_error_iff
  | joinChild => exact map_eq_error_iff.trans Token.asInt_eq_error_iff
  | exitProcess => exact map_eq_error_iff.trans Token.asInt_eq_error_iff
  | _ => simp [Drill.inputError?]

/-! ## Lines -/

open Text

theorem Errno.oneLine_name (e : Errno) : OneLine e.name := by
  cases e <;> decide

theorem Drill.oneLine_menuText : ∀ line ∈ menuText, OneLine line := by
  decide

theorem Drill.oneLine_openingLine {x : Exercise} {line : String} (h : line ∈ (openingLine x).toList) :
    OneLine line := by
  cases x with
  | missingFile => cases h
  | _ =>
    obtain rfl := List.mem_singleton.1 h
    decide

theorem Request.oneLine_text (r : Request) : OneLine r.text := by
  cases r with
  | exec name argv =>
    refine (oneLine_append _ _).2 ⟨(oneLine_append _ _).2 ⟨by decide, oneLine_escape name⟩, by decide⟩
  | join pid =>
    exact (oneLine_append _ _).2 ⟨(oneLine_append _ _).2 ⟨by decide, oneLine_signed _⟩, by decide⟩
  | exit status =>
    exact (oneLine_append _ _).2 ⟨(oneLine_append _ _).2 ⟨by decide, oneLine_signed _⟩, by decide⟩

theorem Request.oneLine_report (r : Request) (answer : r.call.Answer) : OneLine (r.report answer) := by
  have text := r.oneLine_text
  match r, answer with
  | exec name argv, .ok pid => simp +decide [report, text, Pid.text, oneLine_signed]
  | exec name argv, .error e => simp +decide [report, text, e.oneLine_name]
  | join pid, .ok joined =>
    have kind : OneLine (if joined.normal then " (normal)" else " (abnormal)") := by
      split <;> decide
    simp +decide [report, text, Joined.text, oneLine_signed, kind]
  | join pid, .error e => simp +decide [report, text, e.oneLine_name]
  | exit status, word => simp +decide [report, text, oneLine_signed]

theorem Token.oneLine_shown {token : Token} (h : lineFeed ∉ token.bytes) : OneLine token.shown := by
  have more : OneLine (if token.bytes.length < token.length then "..." else "") := by
    split <;> decide
  exact (oneLine_append _ _).2 ⟨oneLine_ofList_decodeLossy h, more⟩

theorem Token.oneLine_intError {ink : Option (List UInt8)} {e : InputError} (h : intError? ink = some e)
    (isInk : ∀ token ∈ ink, ∀ b ∈ token, isInk b = true) : OneLine e.message := by
  match ink with
  | none =>
    cases h
    decide
  | some token =>
    rw [intError?] at h
    split at h
    · cases h
    · cases h
      have shown : OneLine (kept Console.maxIntToken token).shown := by
        refine oneLine_shown fun mem => ?_
        exact lineFeed_not_mem_of_ink (isInk token rfl) (List.mem_of_mem_take mem)
      simp +decide [InputError.message, shown]

theorem Token.oneLine_nameError {capacity : Nat} {ink : Option (List UInt8)} {e : InputError}
    (h : nameError? capacity ink = some e) : OneLine e.message := by
  match ink with
  | none =>
    cases h
    decide
  | some token =>
    rw [nameError?] at h
    split at h
    · cases h
    · cases h
      simp +decide [InputError.message, oneLine_decimal]

/-- No token can bring a line feed into the message that it is of no use. -/
theorem Drill.oneLine_message {config : Config} {answer : Option (List UInt8)} {x : Exercise} {e : InputError}
    (h : inputError? config answer x = some e) (isInk : ∀ token ∈ answer, ∀ b ∈ token, isInk b = true) :
    OneLine e.message := by
  cases x with
  | nullArguments => exact Token.oneLine_nameError h
  | runProgram => exact Token.oneLine_nameError h
  | joinChild => exact Token.oneLine_intError h isInk
  | exitProcess => exact Token.oneLine_intError h isInk
  | _ => cases h

/-! ## The lines of a drill -/

theorem accepted_unlogged (events : List Event) : accepted (unlogged events) = accepted events := by
  induction events with
  | nil => rfl
  | cons event events ih =>
    rw [← List.singleton_append, unlogged_append, accepted_append, accepted_append, ih]
    congr 1
    cases event <;> rfl

theorem accepted_process (r : Request) (answer : r.call.Answer) :
    accepted [.answered r.call answer] = [] := by
  cases r <;> rfl

/-- The line that tells of a halt that was refused. -/
def Termination.lines : Termination → List String
  | haltRefused _ e => ["halt() refused: " ++ e.name]
  | _ => []

/-- What became of an exercise, as it is told: a bad answer, or the request with its answer. There is nothing to
tell of the exercise that makes no request. -/
def Drill.Tells (x : Exercise) (fault : Option InputError) (request : Option Request) (events : List Event)
    (lines : List String) : Prop :=
  match fault, request with
  | some e, _ => lines = ["error: " ++ e.message]
  | none, some r => ∃ answer, .answered r.call answer ∈ events ∧ lines = [r.report answer]
  | none, none => x = .execFailure ∧ lines = []

theorem Drill.Tells.mono {x : Exercise} {fault : Option InputError} {request : Option Request}
    {events more : List Event} {lines : List String} (h : Tells x fault request events lines)
    (sub : events ⊆ more) : Tells x fault request more lines := by
  match fault, request with
  | some e, _ => exact h
  | none, some r =>
    obtain ⟨answer, mem, eq⟩ := h
    exact ⟨answer, sub mem, eq⟩
  | none, none => exact h

namespace Phases

theorem Settled.tells {x : Exercise} {prepared : Except InputError (Option Request)}
    {made report : List Event} (h : Settled prepared made report) {fault : Option InputError}
    (faulty : ∀ e, prepared = .error e ↔ fault = some e) (nothing : prepared = .ok none → x = .execFailure) :
    ∃ lines, accepted (made ++ report) = lines.flatMap Utf8.encodeLine ∧
      Drill.Tells x fault prepared.toOption.join made lines := by
  cases h with
  | requested r answer printed =>
    have none : fault = none := Option.eq_none_iff_forall_ne_some.2 fun e eq => by cases (faulty e).2 eq
    refine ⟨[r.report answer], ?_, ?_⟩
    · rw [accepted_append, accepted_process, printed.accepted_eq]
      rfl
    · rw [none]
      exact ⟨answer, List.mem_singleton_self _, rfl⟩
  | nothing =>
    have none : fault = none := Option.eq_none_iff_forall_ne_some.2 fun e eq => by cases (faulty e).2 eq
    rw [none]
    exact ⟨[], rfl, nothing rfl, rfl⟩
  | refused e printed =>
    rw [(faulty e).1 rfl]
    exact ⟨["error: " ++ e.message], printed.accepted_eq, rfl⟩

theorem Halted.accepted_eq {answered : Except Errno Unit} {halt refusal : List Event}
    (h : Halted answered halt refusal) (x : Exercise) :
    accepted (halt ++ refusal) = (Termination.ofHalt x answered).lines.flatMap Utf8.encodeLine := by
  cases h with
  | obeyed => rfl
  | refused e printed =>
    rw [accepted_append, printed.accepted_eq]
    rfl

theorem Busy.accepted_eq {phases : Phases} {x : Exercise} {prepared : Except InputError (Option Request)}
    {answered : Except Errno Unit} (busy : Busy x prepared answered phases) {menu told : List String}
    (shown : Printed menu phases.menu) (selection : Refills phases.selection)
    (lines : accepted (phases.request ++ phases.report) = told.flatMap Utf8.encodeLine) :
    accepted phases.word = (menu ++ ((Drill.openingLine x).toList ++
      (told ++ (Termination.ofHalt x answered).lines))).flatMap Utf8.encodeLine := by
  have halted := busy.halted.accepted_eq x
  rw [accepted_append] at lines halted
  simp only [word, accepted_append, shown.accepted_eq, selection.accepted_eq, busy.line.accepted_eq,
    busy.answer.accepted_eq, List.nil_append, List.flatMap_append]
  rw [halted, ← lines, List.append_assoc]

end Phases

theorem Plan.uses_drill_lines {config : Config} {before after : Source} {events : List Event} {t : Termination}
    (h : Along Step.Uses (drill config) before events t after) :
    ∃ rest, accepted events = (Exercise.menu.map Drill.menuLine ++ rest).flatMap Utf8.encodeLine ∧
      match (before.tokens.head?.bind Token.integer?).bind Exercise.ofNumber? with
      | none => rest = []
      | some x => ∃ told, rest = (Drill.openingLine x).toList ++ (told ++ t.lines) ∧
        Drill.Tells x (Drill.inputError? config before.tokens.tail.head? x)
          (Drill.request? config before.words before.tokens.tail.head? x) events told := by
  obtain ⟨phases, menu, selection, eq, course⟩ := course_of_uses h
  have output : accepted events = accepted phases.word := by
    rw [← eq, accepted_unlogged]
  rw [← Source.exercise?, output]
  cases course with
  | unselected chosen alone =>
    rw [chosen, alone]
    refine ⟨[], ?_, rfl⟩
    simp only [Phases.word, List.append_nil, accepted_append, menu.accepted_eq, selection.accepted_eq]
  | @selected x prepared answered _ chosen prepares busy =>
    obtain ⟨told, lines, tells⟩ := busy.settled.tells prepares.eq_error_iff busy.nothing
    rw [prepares.request_eq] at tells
    rw [chosen]
    refine ⟨_, busy.accepted_eq menu selection lines, told, rfl, tells.mono fun event mem => ?_⟩
    have inside : event ∈ unlogged events := by
      rw [eq]
      simp [Phases.word, mem]
    exact (List.mem_filter.1 inside).1

namespace Drill

variable {host : Host σ} {config : Config} {bench after : Bench σ}

theorem oneLine_lines (t : Termination) : ∀ line ∈ t.lines, OneLine line := by
  cases t with
  | haltRefused x e =>
    refine List.forall_mem_singleton.2 ((oneLine_append _ _).2 ⟨by decide, e.oneLine_name⟩)
  | _ => exact nofun

theorem Tells.oneLine {config : Config} {words : List UInt32} {answer : Option (List UInt8)} {x : Exercise}
    {events : List Event} {lines : List String}
    (h : Tells x (inputError? config answer x) (request? config words answer x) events lines)
    (isInk : ∀ token ∈ answer, ∀ b ∈ token, isInk b = true) : ∀ line ∈ lines, OneLine line := by
  cases faulty : inputError? config answer x with
  | some e =>
    rw [faulty] at h
    obtain rfl : lines = ["error: " ++ e.message] := h
    exact List.forall_mem_singleton.2 ((oneLine_append _ _).2 ⟨by decide, oneLine_message faulty isInk⟩)
  | none =>
    cases made : request? config words answer x with
    | some r =>
      rw [faulty, made] at h
      obtain ⟨answer, -, rfl⟩ := h
      exact List.forall_mem_singleton.2 (r.oneLine_report answer)
    | none =>
      rw [faulty, made] at h
      obtain ⟨-, rfl⟩ := h
      exact nofun

theorem lines_of_run {t : Termination} (h : run host config bench = .ok t after) {future : List UInt8}
    (nothing : after.console.atEnd = true → future = []) :
    let events := trace host config bench
    let tokens := Text.tokens (bench.console.pending ++ (delivered events ++ future))
    ∃ rest, accepted events = (menuText ++ rest).flatMap Utf8.encodeLine ∧ (∀ line ∈ rest, OneLine line) ∧
      ((∀ n, tokens[0]?.bind Token.integer? = some n → n < 1 ∨ 7 < n) → rest = []) ∧
      ∀ x : Exercise, tokens[0]?.bind Token.integer? = some x.number →
        ∃ told, rest = (openingLine x).toList ++ (told ++ t.lines) ∧
          Tells x (inputError? config tokens[1]? x) (request? config bench.words tokens[1]? x) events told := by
  intro events tokens
  obtain ⟨rest, output, lines⟩ := Plan.uses_drill_lines (Plan.uses_of_happens (run_ok h) nothing)
  rw [show (bench.stock.source (delivered events ++ future)).tokens = tokens from rfl, List.head?_tail,
    List.head?_eq_getElem?] at lines
  rw [menuText_eq] at output
  refine ⟨rest, output, ?_, fun outside => ?_, fun x number => ?_⟩
  · split at lines
    · obtain rfl := lines
      exact nofun
    · obtain ⟨told, rfl, tells⟩ := lines
      simp only [List.forall_mem_append]
      refine ⟨fun line => oneLine_openingLine, tells.oneLine fun token mem => ?_, oneLine_lines t⟩
      exact isInk_of_mem_tokens (List.mem_of_getElem? mem)
  · rw [Exercise.bind_ofNumber?_eq_none outside] at lines
    exact lines
  · rw [number, Option.bind_some, Exercise.ofNumber?_number] at lines
    exact lines

/-- What a drill prints between the opening of an exercise and the halt: the line about an answer of no use, or the
one about its only call, with the answer to that call. -/
inductive Prints (config : Config) (answer : Option (List UInt8)) (events : List Event) (x : Exercise) :
    List String → Prop
  | fault {line : String} (faults : Faults config x answer line) (none : processCalls events = [.halt]) :
      Prints config answer events x [line]
  | report {call : Call} {reply : call.Answer} {line : String} (useful : ∀ line, ¬ Faults config x answer line)
      (other : x ≠ .execFailure) (one : processCalls events = [call, .halt])
      (answered : .answered call reply ∈ events) (reports : Reports call reply line) :
      Prints config answer events x [line]
  | nothing (same : x = .execFailure) (none : processCalls events = [.halt]) : Prints config answer events x []

theorem request?_eq_none {words : List UInt32} {answer : Option (List UInt8)} {x : Exercise} {e : InputError}
    (h : inputError? config answer x = some e) : request? config words answer x = none := by
  have noName {f : List UInt8 → Request} (faulty : Token.nameError? config.nameCapacity answer = some e) :
      (answer.filter (·.length < config.nameCapacity)).map f = none := by
    match answer, faulty with
    | none, _ => rfl
    | some ink, faulty =>
      have long : ¬ ink.length < config.nameCapacity := fun fits => by cases (if_pos fits).symm.trans faulty
      rw [Option.filter_some_neg (by simpa using long), Option.map_none]
  have noInt {f : Int32 → Request} (faulty : Token.intError? answer = some e) :
      (answer.bind Token.integer?).map f = none := by
    match answer, faulty with
    | none, _ => rfl
    | some ink, faulty => rw [Option.bind_some, Token.integer?_of_intError? faulty, Option.map_none]
  cases x with
  | nullArguments => exact noName h
  | runProgram => exact noName h
  | joinChild => exact noInt h
  | exitProcess => exact noInt h
  | _ => cases h

theorem Tells.prints {words : List UInt32} {answer : Option (List UInt8)} {x : Exercise} {events : List Event}
    {lines : List String} (h : Tells x (inputError? config answer x) (request? config words answer x) events lines)
    (calls : processCalls events = (request? config words answer x).toList.map Request.call ++ [.halt]) :
    Prints config answer events x lines := by
  cases faulty : inputError? config answer x with
  | some e =>
    rw [faulty] at h
    obtain rfl : lines = ["error: " ++ e.message] := h
    rw [request?_eq_none faulty] at calls
    exact .fault (faults_iff.2 ⟨e, faulty, rfl⟩) calls
  | none =>
    have useful (line : String) : ¬ Faults config x answer line := by
      intro faults
      obtain ⟨e, some, -⟩ := faults_iff.1 faults
      cases faulty.symm.trans some
    cases made : request? config words answer x with
    | some r =>
      rw [faulty, made] at h
      rw [made] at calls
      obtain ⟨reply, answered, rfl⟩ := h
      refine .report useful ?_ calls answered (reports_report r reply)
      rintro rfl
      cases made
    | none =>
      rw [faulty, made] at h
      rw [made] at calls
      obtain ⟨same, rfl⟩ := h
      exact .nothing same calls

/-- The output of a drill that comes to its end, line by line. -/
theorem run_transcript {t : Termination} (h : run host config bench = .ok t after) (future : List UInt8)
    (nothing : after.console.atEnd = true → future = []) :
    let events := trace host config bench
    let tokens := Text.tokens (bench.console.pending ++ (delivered events ++ future))
    let integer (ink : List UInt8) := if ink.length ≤ 40 then (Utf8.decode? ink).bind Numeral.parse else none
    let selects (n : Int32) := tokens[0]?.bind integer = some n
    let encoded (line : String) := line.toList.flatMap String.utf8EncodeChar
    ∃ rest, accepted events = (menuText ++ rest).flatMap (fun line => encoded line ++ [0x0a]) ∧
      (∀ line ∈ menuText ++ rest, 0x0a ∉ encoded line) ∧
      ((∀ n, selects n → n < 1 ∨ 7 < n) → t = .noSelection ∧ processCalls events = [] ∧ rest = []) ∧
      ∀ x n opening, Opens x n opening → selects n →
        ∃ told, Prints config tokens[1]? events x told ∧
          (t = .halted x ∧ .answered .halt (.ok ()) ∈ events ∧ rest = opening ++ told ∨
            ∃ e name, t = .haltRefused x e ∧ .answered .halt (.error e) ∈ events ∧ e.Shows name ∧
              rest = opening ++ (told ++ ["halt() refused: " ++ name])) := by
  intro events tokens integer selects encoded
  obtain ⟨chosen, unchosen⟩ := calls_of_run h nothing
  obtain ⟨rest, output, single, unselected, selected⟩ := lines_of_run h nothing
  refine ⟨rest, output, fun line mem => ?_, fun outside => ?_, fun x n opening opens number => ?_⟩
  · have oneLine : OneLine line := (List.mem_append.1 mem).elim (oneLine_menuText line) (single line)
    exact mt (Utf8.mem_encode_iff line).1 oneLine
  · obtain ⟨calls, none⟩ := unchosen outside
    exact ⟨none, calls, unselected outside⟩
  · obtain ⟨rfl, rfl⟩ := opens_iff.1 opens
    obtain ⟨told, rfl, tells⟩ := selected x number
    obtain ⟨calls, -, halts⟩ := chosen x number
    refine ⟨told, tells.prints calls, ?_⟩
    cases halts with
    | halted answered =>
      exact .inl ⟨rfl, answered, congrArg ((openingLine x).toList ++ ·) (List.append_nil told)⟩
    | @refused e answered => exact .inr ⟨e, e.name, rfl, answered, Errno.shows_iff.2 rfl, rfl⟩

/-- A program is chosen and named by bytes of three kinds, and it is started. -/
theorem program_reported :
    let bench : Bench Machine := ⟨{ machine := { reads := [.bytes [53, 32, 97, 34, 255, 10]], execs := [7] } }, []⟩
    ∃ after, run Machine.direct {} bench = .ok (.haltRefused .runProgram .eperm) after ∧
      accepted (trace Machine.direct {} bench) = (menuText ++ ["Enter the name of a program that DOES exist.",
        "exec(\"a\\\"\\xff\") started pid 7", "halt() refused: EPERM"]).flatMap
          (fun line => line.toList.flatMap String.utf8EncodeChar ++ [0x0a]) := by
  intro bench
  have ended : (match run Machine.direct {} bench with
    | .ok t _ => some t
    | .error _ _ => none) = some (.haltRefused .runProgram .eperm) := by
    cbv
  split at ended
  · next t after h =>
    obtain rfl := Option.some_inj.1 ended
    have tokens : Text.tokens (bench.console.pending ++ (delivered (trace Machine.direct {} bench) ++ [])) =
        [[53], [97, 34, 255]] := by
      cbv
    have five : ([[53], [97, 34, 255]] : List (List UInt8))[0]?.bind Token.integer? = some 5 := by
      decide +kernel
    have calls : processCalls (trace Machine.direct {} bench) = [.exec [97, 34, 255] .empty, .halt] := by
      cbv
    let asks (event : Event) : Bool := event.call?.any Call.isProcess
    have asked : (trace Machine.direct {} bench).filter asks =
        [.answered (.exec [97, 34, 255] .empty) (.ok ⟨7⟩), .answered .halt (.error .eperm)] := by
      cbv
    obtain ⟨rest, output, -, -, chosen⟩ := run_transcript h [] fun _ => rfl
    rw [tokens] at chosen
    obtain ⟨told, prints, ends⟩ := chosen .runProgram 5 _ .runProgram five
    obtain ⟨no, -⟩ | ⟨e, name, same, -, named, rfl⟩ := ends
    · cases no
    cases same
    obtain rfl := Errno.shows_iff.1 named
    cases prints with
    | fault faults none => cases calls.symm.trans none
    | nothing other _ => cases other
    | @report call reply line useful other one answered reports =>
      obtain rfl : Call.exec [97, 34, 255] .empty = call := (List.cons.inj (calls.symm.trans one)).1
      have mem := List.mem_filter_of_mem (p := asks) answered rfl
      rw [asked] at mem
      obtain rfl : reply = .ok ⟨7⟩ := by simpa using mem
      obtain rfl := (reports_iff (.exec _ _)).1 reports
      have shown : (Request.exec [97, 34, 255] .empty).report (.ok ⟨7⟩) = "exec(\"a\\\"\\xff\") started pid 7" := by
        cbv
      rw [shown] at output
      exact ⟨after, h, output⟩
  · cases ended

end Drill

end ProcessDrill
