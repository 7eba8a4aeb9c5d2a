import ProcessDrill.Proofs.Console.Next
import ProcessDrill.Proofs.Console.Reader
import ProcessDrill.Proofs.Machine.Scripts
/-!
# Names

A name is taken as it was typed if there is room for it and its terminator; a longer one is refused with its length.

Main statement: `readName_fits`.
* On a machine that delivers, where a token stands next, the session is given that token byte for byte if it is
  shorter than the capacity, and else its exact length and the capacity; that token is used up then, and any operation
  begins with the one behind it.
* On any machine a session that comes to its end has used up the blanks before a token, the token and the blank behind
  it, with the same result, or all that was left of an input without one.
* A session that does not was stopped by a read, or it has waited as long as it would.
* The session holds as many bytes of a token as the capacity allows: what would become of a token that holds more of
  them, or fewer, makes no difference to it.
-/

namespace ProcessDrill.Console

set_option autoImplicit false

variable {σ : Type}

/-- What comes of a name: all of it, or its length. -/
def fitted (capacity : Nat) (name : List UInt8) : Except InputError (List UInt8) :=
  if name.length + 1 ≤ capacity then .ok name else .error (.nameTooLong name.length capacity)

theorem asName_given (capacity : Nat) (name : List UInt8) :
    Token.asName capacity (Token.given capacity (some name)) = fitted capacity name :=
  Token.asName_given capacity name

/-- A session that reads a name gives the next token byte for byte, if it is shorter than the capacity, or its length
and the capacity. -/
theorem readName_fits (host : Host σ) (capacity : Nat) (c : Console σ) :
    let events := Session.record (readName host.recorded capacity) c
    (∀ (input : σ → List UInt8) (P : σ → Prop), host.Delivers input P → c.Fed input P →
      ∀ name later, Text.tokens (c.ahead input) = name :: later →
        ∃ d, readName host capacity c = .ok (fitted capacity name) d ∧
          d.Fed input P ∧ Text.tokens (d.ahead input) = later ∧
          ∀ operation : Operation, ∃ e,
            operation.perform host d = .ok (operation.verdict later.head?) e) ∧
    (∀ result d, readName host capacity c = .ok result d →
      ∃ used token final, c.pending ++ delivered events = used ++ d.pending ∧
        Text.Taken used token final ∧ (final = true → d.pending = [] ∧ d.atEnd = true) ∧
        result = token.elim (.error .closed) (fitted capacity)) ∧
    (∀ stop d, readName host capacity c = .error stop d →
      Ends events stop ∧ (stop.isForced = true ∨ host.patience c.machine ≤ events.length)) ∧
    ∀ grow : Token → List UInt8 → Token,
      (∀ token : Token, token.bytes.length = min capacity token.length →
        ∀ ink, grow token ink = token.extend capacity ink) →
      readTokenBy host (refill host) grow = readToken host capacity := by
  have record : Session.record (readName host.recorded capacity) c =
      Session.record (readToken host.recorded capacity) c := by
    rw [readName_eq, Session.record_bind_pure]
  dsimp only
  rw [record, readName_eq]
  refine ⟨?_, ?_, ?_, ?_⟩
  · intro input P delivers fed name later next
    obtain ⟨d, read, after⟩ := readToken_next delivers capacity fed next
    refine ⟨d, ?_, after⟩
    rw [Session.bind_apply, read, ← asName_given]
    rfl
  · intro result d named
    obtain ⟨used, token, final, eq, taken, last, rfl⟩ := readToken_taken named
    refine ⟨used, token, final, eq, taken, last, ?_⟩
    cases token with
    | none => rfl
    | some name => exact asName_given capacity name
  · intro stop d stopped
    have cases_token := readToken_cases host capacity c
    dsimp only at cases_token
    rw [Session.bind_apply] at stopped
    cases run : readToken host capacity c with
    | ok given e =>
      rw [run] at stopped
      cases stopped
    | error stop' e =>
      rw [run] at stopped cases_token
      cases stopped
      obtain ⟨stops, draining⟩ := cases_token
      exact ⟨stops.ends, draining.waited.imp_right And.right⟩
  · intro grow grows
    exact readTokenBy_eq (fun _ _ => rfl) grows

/-- A name of three bytes, two of which are no text, arrives in two pieces. There is room for it among four
bytes, and not among three. -/
theorem three_bytes_named :
    let c : Console Machine := { machine := { reads := [.bytes [32, 97, 0], .bytes [255, 10, 98]] } }
    (∃ d e, readName Machine.direct 4 c = .ok (.ok [97, 0, 255]) d ∧
      (Operation.name 2).perform Machine.direct d = .ok (.ok (.name [98])) e) ∧
    ∃ d e, readName Machine.direct 3 c = .ok (.error (.nameTooLong 3 3)) d ∧
      (Operation.name 2).perform Machine.direct d = .ok (.ok (.name [98])) e := by
  intro c
  have feeding : Delivery.Feeding c.machine.reads := by simp [Delivery.Feeding, c]
  have fed : c.Fed (fun m => Delivery.input m.reads) _ := Machine.fed_of_feeding feeding
  have delivers := Machine.direct_delivers c.machine
  have next : Text.tokens (c.ahead fun m => Delivery.input m.reads) = [[97, 0, 255], [98]] := by cbv
  obtain ⟨d, read, -, -, after⟩ := (readName_fits Machine.direct 4 c).1 _ _ delivers fed _ _ next
  obtain ⟨d', read', -, -, after'⟩ := (readName_fits Machine.direct 3 c).1 _ _ delivers fed _ _ next
  obtain ⟨e, performed⟩ := after (.name 2)
  obtain ⟨e', performed'⟩ := after' (.name 2)
  exact ⟨⟨d, e, read, performed⟩, d', e', read', performed'⟩

end ProcessDrill.Console
