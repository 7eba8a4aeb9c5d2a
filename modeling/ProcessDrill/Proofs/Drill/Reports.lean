import ProcessDrill.Machine
import ProcessDrill.Proofs.Drill.Stages
import ProcessDrill.Proofs.Host.Records
import ProcessDrill.Proofs.Plan.Records
import ProcessDrill.Proofs.Text.Lossy
import ProcessDrill.Proofs.Text.Printable
/-!
# Reports of programs

`execLine` is the line that tells what became of a program that was asked for, and `execTold?` reads such a line.

Main statement: `exec_reports_told_apart`.
* A run that comes to its end has printed the line of the answer to its call, and nothing else.
* The name, byte for byte, and the answer can be read from the line, whatever bytes are in the name.
* So two lines are the same only if the names are, and both calls were refused with the same error or have started
  programs with the same number in 32 bits.
* Before its line feed, which is the last byte, the line is printable.
-/

namespace ProcessDrill

set_option autoImplicit false

variable {σ : Type}

theorem Errno.printable_name (e : Errno) : Text.Printable e.name := by
  cases e <;> decide

/-! ## The line -/

section

variable (name : List UInt8) (argv : Argv)

def execLine (answer : Except Errno Pid) : List UInt8 :=
  Utf8.encodeLine ((Request.exec name argv).report answer)

/-- What stands behind the name, from the quote on. -/
def outcomeText : Except Errno Int32 → String
  | .ok n => "\") started pid " ++ Text.signed n.toInt
  | .error e => "\") failed: " ++ e.name

theorem report_eq (answer : Except Errno Pid) :
    (Request.exec name argv).report answer =
      "exec(\"" ++ Text.escape name ++ outcomeText (answer.map Pid.toInt32) := by
  cases answer with
  | ok pid =>
    simp only [Request.report, Request.text, Pid.text, String.append_assoc]
    rfl
  | error e =>
    simp only [Request.report, Request.text, String.append_assoc]
    rfl

theorem printable_report (answer : Except Errno Pid) : Text.Printable ((Request.exec name argv).report answer) := by
  rw [report_eq, Text.printable_append, Text.printable_append]
  refine ⟨⟨by decide, Text.printable_escape name⟩, ?_⟩
  cases answer.map Pid.toInt32 with
  | ok n => exact Text.printable_append.2 ⟨by decide, Text.printable_signed _⟩
  | error e => exact Text.printable_append.2 ⟨by decide, e.printable_name⟩

theorem execLine_eq (answer : Except Errno Pid) :
    execLine name argv answer = Utf8.encode ((Request.exec name argv).report answer) ++ [lineFeed] := rfl

end

/-! ## Reading the line -/

/-- What follows the quote behind the name: the process number in 32 bits, or the error. -/
def outcomeTold? (text : List Char) : Option (Except Errno Int32) :=
  if ") started pid ".toList <+: text then (Numeral.parse (text.drop 14)).map .ok
  else (Errno.ofName? (String.ofList (text.drop 10))).map .error

/-- What a report of a program tells: its name, and what became of it. -/
def execTold? (line : List UInt8) : Option (List UInt8 × Except Errno Int32) := do
  let text := line.dropLast.map fun b => Char.ofNat b.toNat
  let (name, rest) ← Text.unescape? (text.drop 6)
  let outcome ← outcomeTold? rest
  pure (name, outcome)

theorem outcomeTold?_outcomeText (outcome : Except Errno Int32) :
    (outcomeText outcome).toList = '\x22' :: (outcomeText outcome).toList.tail ∧
      outcomeTold? (outcomeText outcome).toList.tail = some outcome := by
  cases outcome with
  | ok n =>
    have text : (outcomeText (.ok n)).toList = '\x22' :: (") started pid ".toList ++ (Text.signed n.toInt).toList) := by
      rw [outcomeText, String.toList_append]
      rfl
    refine ⟨by rw [text, List.tail_cons], ?_⟩
    have behind : (") started pid ".toList ++ (Text.signed n.toInt).toList).drop 14 = (Text.signed n.toInt).toList :=
      List.drop_left' rfl
    rw [text, List.tail_cons, outcomeTold?, if_pos (List.prefix_append _ _), behind, Numeral.parse_signed]
    rfl
  | error e =>
    have text : (outcomeText (.error e)).toList = '\x22' :: (") failed: ".toList ++ e.name.toList) := by
      rw [outcomeText, String.toList_append]
      rfl
    have other : ¬ ") started pid ".toList <+: ") failed: ".toList ++ e.name.toList := by
      rintro ⟨rest, same⟩
      exact absurd (congrArg (fun text => text[2]?) same) (by simp)
    refine ⟨by rw [text, List.tail_cons], ?_⟩
    have behind : (") failed: ".toList ++ e.name.toList).drop 10 = e.name.toList := List.drop_left' rfl
    rw [text, List.tail_cons, outcomeTold?, if_neg other, behind, String.ofList_toList, Errno.ofName?_name]
    rfl

theorem execTold?_execLine (name : List UInt8) (argv : Argv) (answer : Except Errno Pid) :
    execTold? (execLine name argv answer) = some (name, answer.map Pid.toInt32) := by
  obtain ⟨quote, told⟩ := outcomeTold?_outcomeText (answer.map Pid.toInt32)
  have text : ((execLine name argv answer).dropLast.map fun b => Char.ofNat b.toNat).drop 6 =
      (Text.escape name).toList ++ (outcomeText (answer.map Pid.toInt32)).toList := by
    rw [execLine_eq, List.dropLast_concat, (printable_report name argv answer).map_encode, report_eq,
      String.toList_append, String.toList_append, List.append_assoc]
    rfl
  rw [execTold?, text, quote, Text.unescape?_escape]
  show (outcomeTold? _).bind _ = _
  rw [told]
  rfl

/-! ## The line of a run -/

theorem Plan.trace_request (host : Host σ) (r : Request) (bench : Bench σ) :
    (request r).trace host bench = Session.record (r.perform host.recorded) bench.console := by
  have console : bench.recorded.console = bench.console.recorded := rfl
  rw [trace, follow_request, Drill.atConsole, Session.record, console]
  cases r.perform host.recorded bench.console.recorded <;> rfl

/-- A program that was asked for is reported by its line, and by nothing else. -/
theorem accepted_exec {host : Host σ} {name : List UInt8} {argv : Argv} {c d : Console σ}
    (run : (Request.exec name argv).perform host c = .ok () d) :
    ∃ answer, .answered (.exec name argv) answer ∈ Session.record ((Request.exec name argv).perform host.recorded) c ∧
      accepted (Session.record ((Request.exec name argv).perform host.recorded) c) = execLine name argv answer := by
  have follows : (Plan.request (.exec name argv)).follow host ⟨c, []⟩ = .ok () ⟨d, []⟩ := by
    rw [Plan.follow_request, Drill.atConsole, run]
  obtain ⟨answer, report, printed, eq⟩ := Plan.told_of_happens (Plan.happens_of_follow follows)
  rw [Plan.trace_request] at eq
  refine ⟨answer, ?_, ?_⟩
  · rw [eq]
    exact List.mem_cons_of_mem _ List.mem_cons_self
  · rw [eq]
    exact printed

/-- The name of a program and what became of it can be told from the line that a run prints. -/
theorem exec_reports_told_apart :
    (∀ {σ : Type} (host : Host σ) (c d : Console σ) (name : List UInt8) (argv : Argv),
      (Request.exec name argv).perform host c = .ok () d →
        let events := Session.record ((Request.exec name argv).perform host.recorded) c
        ∃ answer, .answered (.exec name argv) answer ∈ events ∧ accepted events = execLine name argv answer) ∧
    (∀ name argv answer, execTold? (execLine name argv answer) = some (name, answer.map Pid.toInt32)) ∧
    (∀ name name' argv argv' answer answer', execLine name argv answer = execLine name' argv' answer' ↔
      name = name' ∧ answer.map Pid.toInt32 = answer'.map Pid.toInt32) ∧
    ∀ name argv answer, ∃ text, execLine name argv answer = text ++ [lineFeed] ∧ ∀ b ∈ text, 0x20 ≤ b ∧ b ≤ 0x7e := by
  refine ⟨fun host c d name argv run => accepted_exec run, execTold?_execLine, ?_, ?_⟩
  · intro name name' argv argv' answer answer'
    constructor
    · intro same
      have told := execTold?_execLine name argv answer
      rw [same, execTold?_execLine, Option.some_inj] at told
      obtain ⟨rfl, outcome⟩ := Prod.mk.inj told
      exact ⟨rfl, outcome.symm⟩
    · rintro ⟨rfl, outcome⟩
      rw [execLine_eq, execLine_eq, report_eq, report_eq, outcome]
  · intro name argv answer
    exact ⟨_, execLine_eq name argv answer, (printable_report name argv answer).encode⟩

/-- A name that looks like the rest of a report. -/
def imitation : List UInt8 :=
  Utf8.encode "a\") started pid 7"

theorem imitation_told_apart :
    ∃ d answer, (Request.exec imitation .empty).perform Machine.direct { machine := { execs := [7] } } = .ok () d ∧
      accepted (Session.record ((Request.exec imitation .empty).perform Machine.direct.recorded)
        { machine := { execs := [7] } }) = execLine imitation .empty answer ∧
      execLine imitation .empty answer ≠ execLine (Utf8.encode "a") .empty (.ok ⟨7⟩) := by
  have ended : EStateM.run' ((Request.exec imitation .empty).perform Machine.direct)
      { machine := { execs := [7] } } = some () := by cbv
  rw [EStateM.run'] at ended
  split at ended
  · next done d run =>
    obtain ⟨answer, -, printed⟩ := exec_reports_told_apart.1 Machine.direct _ d imitation .empty run
    refine ⟨d, answer, run, printed, fun same => ?_⟩
    have names := ((exec_reports_told_apart.2.2.1 _ _ _ _ _ _).1 same).1
    exact absurd (Utf8.encode_injective names) (by decide)
  · cases ended

end ProcessDrill
