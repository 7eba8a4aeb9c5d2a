import Mathlib
import ProcessDrill.Proofs.Plan.Basic
import ProcessDrill.Proofs.Text.Delimited
/-!
# Records of calls

`Call.record? shown` and `Event.record? shown` are the records that name a call and tell its answer, with `shown` for
how a process number that is passed, or answered, is written. `Call.announcement?` and `Event.finding?` are those that
a drill leaves: it writes a process number as the 32-bit integer in which the kernel keeps it. In full it is the whole
word, `Pid.inFull`.
* `Log.Record.Names r call`: of all records in full, `r` is the one of this call only.
* `Log.Record.Carries r call answer`: of all records in full, `r` is the one of this answer to the call only.

Main statements: `Call.announcement?_names` and `Event.finding?_carries`, which announcements name their call, and which
findings carry their answer.
-/

namespace ProcessDrill

set_option autoImplicit false

/-! ## Process numbers -/

namespace Pid

/-- The whole word of a process number, as a signed integer. -/
def inFull (pid : Pid) : String :=
  Text.signed pid.raw.toInt64.toInt

theorem inFull_injective : Function.Injective inFull := by
  rintro ⟨raw⟩ ⟨raw'⟩ same
  have words : raw.toInt64 = raw'.toInt64 := Int64.toInt_inj.1 (Text.signed_injective same)
  rw [← UInt64.toUInt64_toInt64 raw, words, UInt64.toUInt64_toInt64]

theorem text_eq_inFull_iff (pid : Pid) : pid.text = pid.inFull ↔ typed? pid.text = some pid := by
  rw [typed?_text, Option.some_inj, ofInt32_toInt32_iff, ← Int64.toInt_toInt32]
  exact Text.signed_injective.eq_iff

end Pid

/-! ## Calls -/

/-- The record that names a call and its arguments. -/
def Call.record? (shown : Pid → String) : Call → Option Log.Record
  | exec name argv =>
    some ⟨.debug, .exercise, "exec(\"" ++ Text.escape name ++ "\", argc=" ++ Text.decimal argv.count.toNat ++ ", " ++
      argv.text ++ ")"⟩
  | join pid => some ⟨.debug, .exercise, "join(" ++ shown pid ++ ")"⟩
  | exit status => some ⟨.debug, .exercise, "exit(" ++ Text.signed status.toInt ++ ")"⟩
  | halt => some ⟨.debug, .drill, "halt()"⟩
  | read _ => none
  | write _ => none

/-- An answer as text: its value, or the name of its error. -/
def answerText {α : Type} (value : α → String) : Except Errno α → String
  | .ok a => value a
  | .error e => e.name

/-- The record of an answer, with `shown` for the number of a program that was started. Of a halt that is granted there
is none. -/
def Event.record? (shown : Pid → String) : Event → Option Log.Record
  | answered (.exec name _) answer =>
    some ⟨.info, .exercise, "exec(\"" ++ Text.escape name ++ "\") -> " ++ answerText ("pid " ++ shown ·) answer⟩
  | answered (.join pid) answer =>
    some ⟨.info, .exercise, "join(" ++ pid.text ++ ") -> " ++ answerText Joined.text answer⟩
  | answered (.exit status) word =>
    some ⟨.info, .exercise, "exit(" ++ Text.signed status.toInt ++ ") returned " ++ Text.signed word.toInt⟩
  | answered .halt (.error e) => some ⟨.warn, .drill, "halt refused: " ++ e.name⟩
  | _ => none

def Call.announcement? : Call → Option Log.Record :=
  record? Pid.text

def Event.finding? : Event → Option Log.Record :=
  record? Pid.text

/-! ## One call for each record -/

theorem Errno.ofName?_name (e : Errno) : ofName? e.name = some e := by
  cases e <;> decide

theorem Errno.name_injective : Function.Injective name := by
  intro e e' same
  rw [← Option.some_inj, ← ofName?_name, ← ofName?_name, same]

theorem Errno.head?_name (e : Errno) : e.name.toList.head? = some 'E' := by
  cases e <;> rfl

theorem Argv.text_inj {argv argv' : Argv} (count : argv.count = argv'.count) (text : argv.text = argv'.text) :
    argv = argv' := by
  have other (n : UInt64) : Argv.empty.text ≠ (Argv.null n).text := by
    intro same
    have first := congrArg (fun text => text.toList.head?) same
    simp [Argv.text] at first
  match argv, argv' with
  | .empty, .empty => rfl
  | .empty, .null n => exact absurd text (other n)
  | .null n, .empty => exact absurd text.symm (other n)
  | .null n, .null m => exact congrArg Argv.null count

theorem Joined.text_injective : Function.Injective text := by
  rintro ⟨status, normal⟩ ⟨status', normal'⟩ same
  have blank : (' ' : Char) ≠ '-' ∧ (' ' : Char).isDigit = false := by decide
  have marks (normal : Bool) : (if normal then " (normal)" else " (abnormal)").toList =
      ' ' :: (if normal then "(normal)" else "(abnormal)").toList := by
    cases normal <;> rfl
  have texts := congrArg String.toList same
  simp only [text, String.toList_append, List.append_assoc, marks] at texts
  obtain ⟨statuses, rest⟩ := Text.signed_append_inj blank blank (List.append_cancel_left texts)
  obtain rfl := Int32.toInt_inj.1 statuses
  congr 1
  cases normal <;> cases normal' <;> first | rfl | simp at rest

/-- The word with which a call is named. -/
def Call.word : Call → String
  | exec _ _ => "exec"
  | join _ => "join"
  | exit _ => "exit"
  | halt => "halt"
  | read _ => "read"
  | write _ => "write"

section

variable {shown : Pid → String}

theorem Call.word_of_record? {call : Call} {r : Log.Record} (h : call.record? shown = some r) :
    call.word.toList = r.message.toList.take 4 := by
  cases call <;> cases h <;> simp [word, String.toList_append]

/-- What is told of an exec is the name, escaped, and the arguments. -/
theorem exec_text_inj {name name' : List UInt8} {argv argv' : Argv}
    (same : "exec(\"" ++ Text.escape name ++ "\", argc=" ++ Text.decimal argv.count.toNat ++ ", " ++ argv.text ++ ")" =
      "exec(\"" ++ Text.escape name' ++ "\", argc=" ++ Text.decimal argv'.count.toNat ++ ", " ++ argv'.text ++ ")") :
    name = name' ∧ argv = argv' := by
  have quote : "\", argc=".toList = '\x22' :: ", argc=".toList := rfl
  have comma : ", ".toList = [',', ' '] := rfl
  have mark : (',' : Char) ≠ '-' ∧ (',' : Char).isDigit = false := by decide
  simp only [String.append_assoc, String.append_right_inj] at same
  have texts := congrArg String.toList same
  simp only [String.toList_append, quote, comma, List.cons_append, List.nil_append] at texts
  obtain ⟨rfl, rest⟩ := Text.escape_append_inj texts
  obtain ⟨counts, vectors⟩ := Text.signed_append_inj (n := argv.count.toNat) (m := argv'.count.toNat) mark mark
    (List.append_cancel_left rest)
  have count := UInt64.toNat_inj.1 (Int.ofNat_inj.1 counts)
  have text := List.append_cancel_right (List.tail_eq_of_cons_eq (List.tail_eq_of_cons_eq vectors))
  exact ⟨rfl, Argv.text_inj count (String.toList_inj.1 text)⟩

/-- The arguments of a call can be told from its record, if process numbers can be told apart. -/
theorem Call.record?_inj (apart : Function.Injective shown) {call call' : Call} {r : Log.Record}
    (h : call.record? shown = some r) (h' : call'.record? shown = some r) : call = call' := by
  have words : call.word = call'.word :=
    String.toList_inj.1 ((word_of_record? h).trans (word_of_record? h').symm)
  cases call with
  | exec name argv =>
    cases call' with
    | exec name' argv' =>
      have same := congrArg Log.Record.message (Option.some_inj.1 (h.trans h'.symm))
      obtain ⟨rfl, rfl⟩ := exec_text_inj same
      rfl
    | _ => simp [word] at words
  | join pid =>
    cases call' with
    | join pid' =>
      have same : "join(" ++ shown pid ++ ")" = "join(" ++ shown pid' ++ ")" :=
        congrArg Log.Record.message (Option.some_inj.1 (h.trans h'.symm))
      rw [String.append_left_inj, String.append_right_inj] at same
      rw [apart same]
    | _ => simp [word] at words
  | exit status =>
    cases call' with
    | exit status' =>
      have same : "exit(" ++ Text.signed status.toInt ++ ")" = "exit(" ++ Text.signed status'.toInt ++ ")" :=
        congrArg Log.Record.message (Option.some_inj.1 (h.trans h'.symm))
      rw [String.append_left_inj, String.append_right_inj] at same
      rw [Int32.toInt_inj.1 (Text.signed_injective same)]
    | _ => simp [word] at words
  | halt =>
    cases call' with
    | halt => rfl
    | _ => simp [word] at words
  | read buffer => cases h
  | write bytes => cases h

theorem answerText_injective {α : Type} {value : α → String} (apart : Function.Injective value)
    (other : ∀ a, (value a).toList.head? ≠ some 'E') : Function.Injective (answerText value) := by
  have value_ne (a : α) (e : Errno) : value a ≠ e.name := by
    intro same
    refine other a ?_
    rw [same, e.head?_name]
  intro answer answer' same
  match answer, answer' with
  | .ok a, .ok a' => rw [apart same]
  | .ok a, .error e => exact absurd same (value_ne a e)
  | .error e, .ok a => exact absurd same.symm (value_ne a e)
  | .error e, .error e' => rw [Errno.name_injective same]

/-- The answer to a call can be told from its record. -/
theorem Event.record?_inj (apart : Function.Injective shown) {call : Call} (process : call.isProcess = true)
    {answer answer' : call.Answer}
    (h : (answered call answer).record? shown = (answered call answer').record? shown) : answer = answer' := by
  cases call with
  | exec name argv =>
    have same := congrArg Log.Record.message (Option.some_inj.1 h)
    have values : Function.Injective ("pid " ++ shown ·) := fun pid pid' same =>
      apart ((String.append_right_inj _).1 same)
    refine answerText_injective values (fun pid => ?_) ((String.append_right_inj _).1 same)
    rw [String.toList_append]
    exact nofun
  | join pid =>
    have same := congrArg Log.Record.message (Option.some_inj.1 h)
    refine answerText_injective Joined.text_injective (fun joined => ?_) ((String.append_right_inj _).1 same)
    rw [Joined.text, String.append_assoc, String.toList_append]
    exact nofun
  | exit status =>
    have same := congrArg Log.Record.message (Option.some_inj.1 h)
    exact Int64.toInt_inj.1 (Text.signed_injective ((String.append_right_inj _).1 same))
  | halt =>
    match answer, answer' with
    | .ok (), .ok () => rfl
    | .ok (), .error e => cases h
    | .error e, .ok () => cases h
    | .error e, .error e' =>
      have same := congrArg Log.Record.message (Option.some_inj.1 h)
      rw [Errno.name_injective ((String.append_right_inj _).1 same)]
  | read buffer => cases process
  | write bytes => cases process

end

/-! ## Records in full -/

/-- A record names a call with its arguments: of all records with process numbers in full, it is the one of this call
only. -/
def Log.Record.Names (r : Log.Record) (call : Call) : Prop :=
  ∀ other, other.record? Pid.inFull = some r ↔ other = call

/-- A record carries an answer: of all records with process numbers in full, it is the one of this answer only. -/
def Log.Record.Carries (r : Log.Record) (call : Call) (answer : call.Answer) : Prop :=
  ∀ other, (Event.answered call other).record? Pid.inFull = some r ↔ other = answer

theorem Log.Record.names_iff {call : Call} {r : Log.Record} : r.Names call ↔ call.record? Pid.inFull = some r := by
  refine ⟨fun names => (names call).2 rfl, fun full other => ⟨fun same => ?_, ?_⟩⟩
  · exact Call.record?_inj Pid.inFull_injective same full
  · rintro rfl
    exact full

theorem Log.Record.carries_iff {call : Call} (process : call.isProcess = true) {answer : call.Answer} {r : Log.Record} :
    r.Carries call answer ↔ (Event.answered call answer).record? Pid.inFull = some r := by
  refine ⟨fun carries => (carries answer).2 rfl, fun full other => ⟨fun same => ?_, ?_⟩⟩
  · exact Event.record?_inj Pid.inFull_injective process (same.trans full.symm)
  · rintro rfl
    exact full

/-- A call is named by its announcement, unless it waits for a process whose number is not one of 32 bits. -/
theorem Call.announcement?_names {call : Call} {r : Log.Record} (h : call.announcement? = some r) :
    r.Names call ↔ ∀ pid, call = .join pid → Pid.typed? pid.text = some pid := by
  rw [Log.Record.names_iff, ← h, announcement?]
  cases call with
  | join pid =>
    rw [record?, record?, Option.some_inj, Log.Record.mk.injEq, String.append_left_inj, String.append_right_inj,
      eq_comm (b := pid.text), Pid.text_eq_inFull_iff]
    constructor
    · rintro ⟨-, -, typed⟩ _ ⟨⟩
      exact typed
    · exact fun typed => ⟨rfl, rfl, typed pid rfl⟩
  | _ =>
    simp only [record?]
    exact iff_of_true trivial nofun

theorem Event.isProcess_of_finding? {call : Call} {answer : call.Answer} {r : Log.Record}
    (h : (answered call answer).finding? = some r) : call.isProcess = true := by
  cases call with
  | read buffer => cases h
  | write bytes => cases h
  | _ => rfl

/-- An answer is carried by what is found, unless a program was started whose number is not one of 32 bits. -/
theorem Event.finding?_carries {call : Call} {answer : call.Answer} {r : Log.Record}
    (h : (answered call answer).finding? = some r) :
    r.Carries call answer ↔
      ∀ name argv pid, answered call answer = .answered (.exec name argv) (.ok pid) → Pid.typed? pid.text = some pid := by
  -- any other record is the same for all ways to write a number, so none of them has to be unfolded
  have alike (same : ∀ shown shown' : Pid → String,
      (answered call answer).record? shown = (answered call answer).record? shown') :
      (answered call answer).record? Pid.inFull = (answered call answer).record? Pid.text := same _ _
  have process := isProcess_of_finding? h
  rw [Log.Record.carries_iff process, ← h, finding?]
  match call, answer with
  | .exec name argv, .ok pid =>
    have texts : "exec(\"" ++ Text.escape name ++ "\") -> " ++ ("pid " ++ pid.inFull) =
        "exec(\"" ++ Text.escape name ++ "\") -> " ++ ("pid " ++ pid.text) ↔ Pid.typed? pid.text = some pid := by
      rw [String.append_right_inj, String.append_right_inj, eq_comm, Pid.text_eq_inFull_iff]
    constructor
    · rintro same _ _ _ ⟨⟩
      exact texts.1 (congrArg Log.Record.message (Option.some_inj.1 same))
    · intro typed
      exact congrArg (fun text => some (Log.Record.mk .info .exercise text)) (texts.2 (typed name argv pid rfl))
  | .exec name argv, .error e => exact iff_of_true (alike fun _ _ => rfl) nofun
  | .join pid, answer => exact iff_of_true (alike fun _ _ => rfl) nofun
  | .exit status, word => exact iff_of_true (alike fun _ _ => rfl) nofun
  | .halt, .ok () => exact iff_of_true (alike fun _ _ => rfl) nofun
  | .halt, .error e => exact iff_of_true (alike fun _ _ => rfl) nofun
  | .read _, _ => cases process
  | .write _, _ => cases process

end ProcessDrill
