import ProcessDrill.Proofs.Plan.Trace
/-!
# Plans on a list of tokens

A `Source` has the tokens and the random words that a plan can use up. `Step.Uses` is what a step does if the
input is such a list: it takes the first token, and where the input was cut does not show. Main statement:
`Plan.uses_of_happens`, every plan on a console uses up the tokens of the bytes that were pending, that were
delivered, and that are still to come.
-/

namespace ProcessDrill

set_option autoImplicit false

variable {σ α : Type}

structure Source where
  tokens : List (List UInt8)
  words : List UInt32

def Stock.source (stock : Stock) (future : List UInt8) : Source where
  tokens := Text.tokens (stock.inbox.pending ++ future)
  words := stock.words

/-- A step that comes to its end. -/
def Step.Uses : (step : Step) → Source → List Event → step.Result → Source → Prop
  | write bytes, before, events, _, after => Written bytes events ∧ after = before
  | token limit, before, events, result, after =>
    Refills events ∧ result = Token.given limit before.tokens.head? ∧
      after = { before with tokens := before.tokens.tail }
  | ask call _, before, events, answer, after => events = [.answered call answer] ∧ after = before
  | log record, before, events, _, after => events = [.logged record] ∧ after = before
  | draw bound, before, events, value, after =>
    events = [] ∧ Random.draw? bound before.words = some (value, after.words) ∧
      after.tokens = before.tokens

theorem Reading.uses {limit : Nat} {before after : Inbox} {result : Except InputError Token}
    {events : List Event} {future : List UInt8} (h : Reading limit before events result after)
    (nothing : after.atEnd = true → future = []) :
    result = Token.given limit (Text.tokens (before.pending ++ (delivered events ++ future))).head? ∧
      Text.tokens (after.pending ++ future) =
        (Text.tokens (before.pending ++ (delivered events ++ future))).tail := by
  obtain ⟨used, token, final, eq, taken, exhausted, rfl⟩ := h.taken
  have rest : final = true → after.pending ++ future = [] := by
    intro isFinal
    obtain ⟨pending, atEnd⟩ := exhausted isFinal
    rw [pending, nothing atEnd]
    rfl
  have tokens := taken.tokens_append rest
  rw [← List.append_assoc, eq, List.append_assoc, tokens]
  cases token with
  | some ink => exact ⟨rfl, rfl⟩
  | none =>
    cases taken
    rw [rest rfl, Text.tokens_nil]
    exact ⟨rfl, rfl⟩

namespace Step

variable {step : Step} {events : List Event}

theorem Uses.word {before after : Source} {result : step.Result}
    (h : step.Uses before events result after) : step.Word events result := by
  cases step with
  | write bytes => exact h.1
  | token limit => exact h.1
  | ask call process => exact h.1
  | log record => exact h.1
  | draw bound => exact h.1

theorem Word.delivered_eq {result : step.Result} (h : step.Word events result)
    (other : ∀ limit, step ≠ .token limit) : delivered events = [] := by
  cases step with
  | write bytes => exact Written.delivered_eq h
  | token limit => exact absurd rfl (other limit)
  | ask call process =>
    obtain rfl : events = _ := h
    cases call with
    | read buffer => cases process
    | _ => rfl
  | log record =>
    obtain rfl : events = _ := h
    rfl
  | draw bound =>
    obtain rfl : events = _ := h
    rfl

theorem Happens.atEnd {before after : Stock} {result : step.Result}
    (h : step.Happens before events result after) (atEnd : before.inbox.atEnd = true) :
    delivered events = [] ∧ after.inbox.atEnd = true := by
  have quiet := h.word.delivered_eq
  cases step with
  | write bytes =>
    obtain ⟨-, rfl⟩ := h
    exact ⟨quiet nofun, atEnd⟩
  | token limit =>
    obtain ⟨rfl, atEnd⟩ := h.1.atEnd atEnd
    exact ⟨rfl, atEnd⟩
  | ask call process =>
    obtain ⟨-, rfl⟩ := h
    exact ⟨quiet nofun, atEnd⟩
  | log record =>
    obtain ⟨-, rfl⟩ := h
    exact ⟨quiet nofun, atEnd⟩
  | draw bound =>
    obtain ⟨-, -, same⟩ := h
    rw [same]
    exact ⟨quiet nofun, atEnd⟩

theorem Breaks.atEnd {host : Host σ} {before after : Stock} {stop : Stop}
    (h : step.Breaks host before events stop after) (atEnd : before.inbox.atEnd = true) :
    delivered events = [] ∧ after.inbox.atEnd = true := by
  cases step with
  | write bytes =>
    obtain ⟨stops, -, rfl⟩ := h
    obtain ⟨word, written, cut⟩ := stops.cut
    have brought := cut.delivered
    rw [written.delivered_eq] at brought
    exact ⟨List.prefix_nil.1 brought, atEnd⟩
  | token limit =>
    obtain ⟨-, -, s, draining⟩ := h
    have notEnd := draining.notEnd
    rw [atEnd] at notEnd
    cases notEnd
  | ask call process =>
    obtain ⟨rfl, -, rfl⟩ := h
    exact ⟨rfl, atEnd⟩
  | log record => exact h.elim
  | draw bound =>
    obtain ⟨rfl, same, -⟩ := h
    rw [same]
    exact ⟨rfl, atEnd⟩

theorem Happens.uses {before after : Stock} {result : step.Result} {future : List UInt8}
    (h : step.Happens before events result after)
    (nothing : after.inbox.atEnd = true → future = []) :
    step.Uses (before.source (delivered events ++ future)) events result (after.source future) := by
  have quiet := h.word.delivered_eq
  cases step with
  | write bytes =>
    obtain ⟨written, rfl⟩ := h
    rw [quiet nofun]
    exact ⟨written, rfl⟩
  | token limit =>
    obtain ⟨reading, words⟩ := h
    obtain ⟨given, rest⟩ := reading.uses nothing
    refine ⟨reading.refills, given, ?_⟩
    rw [Stock.source, Stock.source, rest, words]
  | ask call process =>
    obtain ⟨eq, rfl⟩ := h
    rw [quiet nofun]
    exact ⟨eq, rfl⟩
  | log record =>
    obtain ⟨eq, rfl⟩ := h
    rw [quiet nofun]
    exact ⟨eq, rfl⟩
  | draw bound =>
    obtain ⟨eq, drawn, same⟩ := h
    rw [quiet nofun]
    refine ⟨eq, drawn, ?_⟩
    rw [Stock.source, Stock.source, same]
    rfl

end Step

namespace Plan

variable {plan : Plan α} {events : List Event} {a : α}

theorem atEnd_of_happens {before after : Stock} (h : Along Step.Happens plan before events a after)
    (atEnd : before.inbox.atEnd = true) : delivered events = [] ∧ after.inbox.atEnd = true := by
  induction plan generalizing before events with
  | done b =>
    obtain ⟨rfl, rfl, rfl⟩ := h
    exact ⟨rfl, atEnd⟩
  | step s next ih =>
    obtain ⟨first, result, middle, more, here, rest, rfl⟩ := h
    obtain ⟨nothing, atEnd⟩ := here.atEnd atEnd
    obtain ⟨nothing', atEnd⟩ := ih result rest atEnd
    rw [delivered_append, nothing, nothing']
    exact ⟨rfl, atEnd⟩

theorem atEnd_of_breaks {host : Host σ} {before after : Stock} {stop : Stop}
    (h : plan.Breaks host before events stop after) (atEnd : before.inbox.atEnd = true) :
    delivered events = [] ∧ after.inbox.atEnd = true := by
  induction plan generalizing before events with
  | done b => exact h.elim
  | step s next ih =>
    rcases h with here | ⟨first, result, middle, more, here, rest, rfl⟩
    · exact here.atEnd atEnd
    · obtain ⟨nothing, atEnd⟩ := here.atEnd atEnd
      obtain ⟨nothing', atEnd⟩ := ih result rest atEnd
      rw [delivered_append, nothing, nothing']
      exact ⟨rfl, atEnd⟩

/-- What a plan does on a console it does on the tokens, whatever input is still to come. -/
theorem uses_of_happens {before after : Stock} {future : List UInt8}
    (h : Along Step.Happens plan before events a after)
    (nothing : after.inbox.atEnd = true → future = []) :
    Along Step.Uses plan (before.source (delivered events ++ future)) events a
      (after.source future) := by
  induction plan generalizing before events with
  | done b =>
    obtain ⟨rfl, rfl, rfl⟩ := h
    exact ⟨rfl, rfl, rfl⟩
  | step s next ih =>
    obtain ⟨first, result, middle, more, here, rest, rfl⟩ := h
    have later : middle.inbox.atEnd = true → delivered more ++ future = [] := by
      intro atEnd
      obtain ⟨brought, atEnd⟩ := atEnd_of_happens rest atEnd
      rw [brought, nothing atEnd]
      rfl
    refine ⟨first, result, middle.source (delivered more ++ future), more, ?_, ih result rest, rfl⟩
    rw [delivered_append, List.append_assoc]
    exact here.uses later

theorem word_of_uses {before after : Source} (h : Along Step.Uses plan before events a after) :
    plan.Word events a :=
  h.map (f := fun _ => ()) fun _ _ _ _ _ => Step.Uses.word

end Plan

end ProcessDrill
