import ProcessDrill.Proofs.Console.Delivery
import ProcessDrill.Proofs.Console.Tokenizer
import ProcessDrill.Proofs.Host.Records
/-!
# The next token

What a reader makes of the token that stands next. On a machine that delivers, that is the first token ahead
(`readToken_next`, `Operation.perform_fed`). On any machine it is the first one of the bytes that were pending
and of those that came while it was read (`readToken_cases`).
-/

namespace ProcessDrill

set_option autoImplicit false

theorem Text.tokens_afterToken {bytes ink : List UInt8} {later : List (List UInt8)}
    (h : tokens bytes = ink :: later) : tokens (afterToken bytes) = later := by
  by_cases blank : bytes.dropWhile isBlank = []
  · rw [tokens_of_blank blank] at h
    cases h
  · rw [tokens_of_ink blank] at h
    exact (List.cons.inj h).2

namespace Console

variable {σ : Type} {host : Host σ} {input : σ → List UInt8} {P : σ → Prop} {c : Console σ}

theorem Operation.perform_fed (delivers : host.Delivers input P) (operation : Operation)
    (fed : c.Fed input P) :
    ∃ d, operation.perform host c = .ok (operation.verdict (Text.tokens (c.ahead input)).head?) d := by
  obtain ⟨d, read, -⟩ := readToken_fed delivers operation.limit fed
  refine ⟨d, ?_⟩
  rw [operation.perform_eq, Session.bind_apply, read, ← operation.judge_given]
  rfl

/-- The token that stands next is used up, and the operation after that finds the one behind it. -/
theorem readToken_next (delivers : host.Delivers input P) (limit : Nat) (fed : c.Fed input P)
    {ink : List UInt8} {later : List (List UInt8)} (next : Text.tokens (c.ahead input) = ink :: later) :
    ∃ d, readToken host limit c = .ok (Token.given limit (some ink)) d ∧
      d.Fed input P ∧ Text.tokens (d.ahead input) = later ∧
      ∀ operation : Operation, ∃ e, operation.perform host d = .ok (operation.verdict later.head?) e := by
  obtain ⟨d, read, fed', behind⟩ := readToken_fed delivers limit fed
  have rest : Text.tokens (d.ahead input) = later := by
    rw [behind]
    exact Text.tokens_afterToken next
  rw [next] at read
  refine ⟨d, read, fed', rest, fun operation => ?_⟩
  rw [← rest]
  exact operation.perform_fed delivers fed'

theorem readToken_cases (host : Host σ) (limit : Nat) (c : Console σ) :
    let events := Session.record (readToken host.recorded limit) c
    match readToken host limit c with
    | .ok result d => Reading limit c.inbox events result d.inbox
    | .error stop d =>
      Stops Refills events stop ∧ Draining (host.patience c.machine) c.inbox events stop d.inbox := by
  have plain := (traced_readToken host limit c.recorded).plain
    (agree_readToken (simulates_recorded host) limit)
  dsimp only
  cases run : readToken host limit c with
  | ok result d =>
    rw [run] at plain
    obtain ⟨e, reading, related⟩ := plain
    rw [related.inbox_eq] at reading
    exact reading
  | error stop d =>
    rw [run] at plain
    obtain ⟨e, ⟨stops, draining⟩, related⟩ := plain
    rw [related.inbox_eq] at draining
    exact ⟨stops, draining⟩

/-- What is made of a token is made of the first one, with the blanks before it and the blank behind it used up. -/
theorem readToken_taken {α : Type} {limit : Nat} {make : Except InputError Token → α} {a : α} {d : Console σ}
    (read : (readToken host limit >>= fun result => pure (make result)) c = .ok a d) :
    ∃ used token final,
      c.pending ++ delivered (Session.record (readToken host.recorded limit) c) = used ++ d.pending ∧
        Text.Taken used token final ∧ (final = true → d.pending = [] ∧ d.atEnd = true) ∧
        a = make (Token.given limit token) := by
  have cases_token := readToken_cases host limit c
  dsimp only at cases_token
  rw [Session.bind_apply] at read
  cases run : readToken host limit c with
  | error stop e =>
    rw [run] at read
    cases read
  | ok given e =>
    rw [run] at read cases_token
    cases read
    obtain ⟨used, token, final, eq, taken, last, rfl⟩ := cases_token.taken
    exact ⟨used, token, final, eq, taken, last, rfl⟩

end Console

end ProcessDrill
