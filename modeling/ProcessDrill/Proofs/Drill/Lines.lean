import ProcessDrill.Drill
import ProcessDrill.Proofs.Text.Written
/-!
# The lines of a drill

What a drill prints, line by line, apart from the functions that print it.
* `Drill.menuText` is the menu, and `Drill.Opens x n lines` gives each exercise its number and the lines that open it.
* `Errno.Shows` and `Pid.Shows` are the texts of errors and of process numbers.
* `Reports call answer line`: the line about a call and what it was answered.

Main statement: `reports_iff`, a request is reported by this line, and by no other.
-/

namespace ProcessDrill

set_option autoImplicit false

/-! ## The menu -/

namespace Drill

/-- The menu. -/
def menuText : List String :=
  ["1.  Attempt to open non-existent file",
   "2.  Attempt to open file with null argument",
   "3.  Execution error",
   "4.  Attempt to join a non-child process",
   "5.  Execute process",
   "6.  Join child process",
   "7.  Exit process"]

/-- The number by which an exercise is chosen, and the lines that open it. -/
inductive Opens : Exercise → Int32 → List String → Prop
  | missingFile : Opens .missingFile 1 []
  | nullArguments : Opens .nullArguments 2 ["Enter the name of a program that DOES exist."]
  | execFailure : Opens .execFailure 3 ["I'm not actually sure how to cause an execution error. Sorry."]
  | strangerJoin : Opens .strangerJoin 4
      ["I'm hoping that the rand method will return the PID of a non-child process."]
  | runProgram : Opens .runProgram 5 ["Enter the name of a program that DOES exist."]
  | joinChild : Opens .joinChild 6 ["Enter the pid of a program that IS a parent."]
  | exitProcess : Opens .exitProcess 7 ["Enter the exit status for this process."]

theorem menuText_eq : Exercise.menu.map menuLine = menuText := by
  decide +kernel

theorem opens_iff {x : Exercise} {n : Int32} {lines : List String} :
    Opens x n lines ↔ n = x.number ∧ lines = (openingLine x).toList := by
  constructor
  · rintro (_ | _)
    all_goals exact ⟨rfl, rfl⟩
  · rintro ⟨rfl, rfl⟩
    cases x
    · exact .missingFile
    · exact .nullArguments
    · exact .execFailure
    · exact .strangerJoin
    · exact .runProgram
    · exact .joinChild
    · exact .exitProcess

end Drill

/-! ## Errors and process numbers -/

/-- The name of an error, by its number. -/
def Errno.Shows (e : Errno) (text : String) : Prop :=
  (e.number.toInt, text) ∈ ([(1, "EPERM"), (2, "ENOENT"), (3, "ESRCH"), (4, "EINTR"), (5, "EIO"), (7, "E2BIG"),
    (8, "ENOEXEC"), (9, "EBADF"), (10, "ECHILD"), (11, "EAGAIN"), (12, "ENOMEM"), (13, "EACCES"), (14, "EFAULT"),
    (22, "EINVAL"), (36, "ENAMETOOLONG"), (38, "ENOSYS")] : List (Int × String))

theorem Errno.shows_iff {e : Errno} {text : String} : e.Shows text ↔ text = e.name := by
  cases e <;> simp [Shows, number, name]

/-- The text of a process number: its low 32 bits with their sign. -/
def Pid.Shows (pid : Pid) (text : String) : Prop :=
  Text.IsSigned (Int.bmod pid.raw.toNat 4294967296) text

theorem Pid.shows_iff {pid : Pid} {text : String} : pid.Shows text ↔ text = pid.text := by
  have value : pid.toInt32.toInt = Int.bmod pid.raw.toNat 4294967296 := by
    rw [toInt32, Int64.toInt_toInt32, toInt_toInt64]
    exact Int.bmod_bmod_of_dvd (by decide)
  rw [Shows, Text.isSigned_iff, ← value]
  rfl

/-! ## Reports -/

/-- The line about a call and what it was answered. -/
inductive Reports : (call : Call) → call.Answer → String → Prop
  | started {name : List UInt8} {argv : Argv} {pid : Pid} {shown number : String}
      (escapes : Text.Escapes name shown.toList) (shows : pid.Shows number) :
      Reports (.exec name argv) (.ok pid) ("exec(\"" ++ shown ++ "\") started pid " ++ number)
  | failed {name : List UInt8} {argv : Argv} {e : Errno} {shown error : String}
      (escapes : Text.Escapes name shown.toList) (shows : e.Shows error) :
      Reports (.exec name argv) (.error e) ("exec(\"" ++ shown ++ "\") failed: " ++ error)
  | joined {pid : Pid} {joined : Joined} {number status : String} (shows : pid.Shows number)
      (signed : Text.IsSigned joined.status.toInt status) :
      Reports (.join pid) (.ok joined)
        ("join(" ++ number ++ ") -> status " ++ status ++ (if joined.normal then " (normal)" else " (abnormal)"))
  | refused {pid : Pid} {e : Errno} {number error : String} (shows : pid.Shows number) (named : e.Shows error) :
      Reports (.join pid) (.error e) ("join(" ++ number ++ ") failed: " ++ error)
  | returned {status : Int32} {word : Int64} {given back : String} (signed : Text.IsSigned status.toInt given)
      (returned : Text.IsSigned word.toInt back) :
      Reports (.exit status) word ("exit(" ++ given ++ ") returned " ++ back)

namespace Request

variable (name : List UInt8) (argv : Argv) (pid : Pid) (e : Errno)

theorem report_started : (exec name argv).report (.ok pid) =
    "exec(\"" ++ Text.escape name ++ "\") started pid " ++ pid.text := by
  simp only [report, text, String.append_assoc]
  rfl

theorem report_failed : (exec name argv).report (.error e) =
    "exec(\"" ++ Text.escape name ++ "\") failed: " ++ e.name := by
  simp only [report, text, String.append_assoc]
  rfl

theorem report_joined (joined : Joined) : (join pid).report (.ok joined) =
    "join(" ++ pid.text ++ ") -> status " ++ Text.signed joined.status.toInt ++
      (if joined.normal then " (normal)" else " (abnormal)") := by
  simp only [report, text, Joined.text, String.append_assoc]
  rfl

theorem report_refused : (join pid).report (.error e) = "join(" ++ pid.text ++ ") failed: " ++ e.name := by
  simp only [report, text, String.append_assoc]
  rfl

theorem report_returned (status : Int32) (word : Int64) : (exit status).report word =
    "exit(" ++ Text.signed status.toInt ++ ") returned " ++ Text.signed word.toInt := by
  simp only [report, text, String.append_assoc]
  rfl

end Request

theorem reports_report (r : Request) (answer : r.call.Answer) : Reports r.call answer (r.report answer) := by
  match r, answer with
  | .exec name argv, .ok pid =>
    rw [Request.report_started]
    exact .started (Text.escapes_iff.2 rfl) (Pid.shows_iff.2 rfl)
  | .exec name argv, .error e =>
    rw [Request.report_failed]
    exact .failed (Text.escapes_iff.2 rfl) (Errno.shows_iff.2 rfl)
  | .join pid, .ok joined =>
    rw [Request.report_joined]
    exact .joined (Pid.shows_iff.2 rfl) (Text.isSigned_iff.2 rfl)
  | .join pid, .error e =>
    rw [Request.report_refused]
    exact .refused (Pid.shows_iff.2 rfl) (Errno.shows_iff.2 rfl)
  | .exit status, word =>
    rw [Request.report_returned]
    exact .returned (Text.isSigned_iff.2 rfl) (Text.isSigned_iff.2 rfl)

theorem reports_iff (r : Request) {answer : r.call.Answer} {line : String} :
    Reports r.call answer line ↔ line = r.report answer := by
  refine ⟨fun reports => ?_, fun same => same ▸ reports_report r answer⟩
  cases r with
  | exec name argv =>
    cases reports with
    | started escapes shows =>
      rw [Request.report_started, Text.escapes_iff.1 escapes, Pid.shows_iff.1 shows]
    | failed escapes shows =>
      rw [Request.report_failed, Text.escapes_iff.1 escapes, Errno.shows_iff.1 shows]
  | join pid =>
    cases reports with
    | joined shows signed => rw [Request.report_joined, Pid.shows_iff.1 shows, Text.isSigned_iff.1 signed]
    | refused shows named => rw [Request.report_refused, Pid.shows_iff.1 shows, Errno.shows_iff.1 named]
  | exit status =>
    cases reports with
    | returned signed returned =>
      rw [Request.report_returned, Text.isSigned_iff.1 signed, Text.isSigned_iff.1 returned]

end ProcessDrill
