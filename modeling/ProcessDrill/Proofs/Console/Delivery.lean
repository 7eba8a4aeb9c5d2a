import ProcessDrill.Proofs.Console.Reading
/-!
# Input that is delivered

* `Host.Delivers host input P`: in the states that satisfy `P` a read brings the next piece of `input`, pieces
  of any size, and nothing only behind its end.
* `Console.ahead` is all the input of such a console, what is pending and what is still to come.

Main statement: `readToken_fed`, a token is read from the front of what is ahead, whatever the pieces are.
-/

namespace ProcessDrill

set_option autoImplicit false

/-! ## Deliveries -/

abbrev Call.chunk : Call :=
  .read (Buffer.zeros Console.chunkSize)

/-- The answer to a read brings the first piece of `input`, which is empty only if there is none, and leaves
`rest`. A count beyond the buffer stands for all of it. -/
def Brings (input : List UInt8) (answer : Option (Except Errno Nat × List UInt8)) (rest : List UInt8) :
    Prop :=
  ∃ n stored, answer = some (.ok n, stored) ∧
    input = (Buffer.overlay stored (Buffer.zeros Console.chunkSize)).take n ++ rest ∧
    (n = 0 → input = [])

variable {σ : Type} {host : Host σ} {input : σ → List UInt8} {P : σ → Prop}

/-- Reads, and they alone, bring the input piece by piece, and a session waits until they have brought it all. -/
structure Host.Delivers (host : Host σ) (input : σ → List UInt8) (P : σ → Prop) : Prop where
  brings : ∀ s, P s → Brings (input s) (host.answer .chunk s).1 (input (host.answer .chunk s).2)
  stays : ∀ s, P s → P (host.answer .chunk s).2
  keeps : ∀ call s, P s → call.isRead = false → input (host.answer call s).2 = input s
  keeps_log : ∀ record s, P s → input (host.log record s) = input s
  patience_pos : ∀ s, P s → 0 < host.patience s
  patience_lt : ∀ s, P s → input s ≠ [] → host.patience (host.answer .chunk s).2 < host.patience s

namespace Console

/-- The machine delivers, and an end that was seen is the end of the input. -/
structure Fed (input : σ → List UInt8) (P : σ → Prop) (c : Console σ) : Prop where
  machine : P c.machine
  ended : c.atEnd = true → input c.machine = []

def ahead (input : σ → List UInt8) (c : Console σ) : List UInt8 :=
  c.pending ++ input c.machine

variable {c : Console σ}

theorem refill_apply (host : Host σ) (c : Console σ) :
    refill host c =
      match host.answer .chunk c.machine with
      | (none, s) => .error .neverReturned { c with machine := s }
      | (some (.error e, _), s) => .error (.console e) { c with machine := s }
      | (some (.ok 0, _), s) => .ok false { c with machine := s, atEnd := true }
      | (some (.ok (n + 1), stored), s) =>
        .ok true { c with
          machine := s
          pending := c.pending ++ (Buffer.overlay stored (Buffer.zeros chunkSize)).take (n + 1) } := by
  rw [refill, Session.bind_apply, ask]
  generalize host.answer .chunk c.machine = answer
  obtain ⟨_ | ⟨e | _ | n, stored⟩, s⟩ := answer
  · rfl
  · rfl
  · rfl
  · have slice := Buffer.sliceTo?_min (Buffer.overlay stored (Buffer.zeros chunkSize)) (n + 1)
    rw [Buffer.length_overlay, Buffer.length_zeros] at slice
    simp only [slice]
    rfl

theorem refill_fed (delivers : host.Delivers input P) (fed : c.Fed input P) :
    ∃ more d, refill host c = .ok more d ∧ d.Fed input P ∧ d.ahead input = c.ahead input ∧
      (more = false → d.pending = c.pending ∧ input d.machine = []) ∧
      (more = true → host.patience d.machine < host.patience c.machine) := by
  obtain ⟨n, stored, answered, piece, last⟩ := delivers.brings _ fed.machine
  have stays := delivers.stays _ fed.machine
  have patience := delivers.patience_lt _ fed.machine
  rw [refill_apply]
  generalize host.answer .chunk c.machine = answer at answered piece stays patience
  obtain ⟨_, next⟩ := answer
  obtain rfl : _ = some _ := answered
  cases n with
  | zero =>
    have nothing := last rfl
    have nothing' : input next = [] := by
      rw [nothing] at piece
      simpa using piece.symm
    refine ⟨false, { c with machine := next, atEnd := true }, rfl, ⟨stays, fun _ => nothing'⟩, ?_,
      fun _ => ⟨rfl, nothing'⟩, by simp⟩
    rw [ahead, ahead, nothing, nothing']
  | succ n =>
    have more : input c.machine ≠ [] := by
      intro nothing
      have := congrArg List.length (piece.symm.trans nothing)
      simp [chunkSize] at this
    refine ⟨true, _, rfl, ⟨stays, fun atEnd => absurd (fed.ended atEnd) more⟩, ?_, by simp, fun _ => patience more⟩
    rw [ahead, ahead, piece, List.append_assoc]

/-! ## The blanks before a token -/

theorem dropWhile_ahead {p : UInt8 → Bool} (h : c.pending.dropWhile p ≠ []) :
    (c.ahead input).dropWhile p = c.pending.dropWhile p ++ input c.machine := by
  rw [ahead, List.dropWhile_append, if_neg (by simpa using h)]

theorem takeWhile_ahead {p : UInt8 → Bool} (h : c.pending.dropWhile p ≠ []) :
    (c.ahead input).takeWhile p = c.pending.takeWhile p := by
  have shorter : (c.pending.takeWhile p).length ≠ c.pending.length := by
    have whole := congrArg List.length (List.takeWhile_append_dropWhile (p := p) (l := c.pending))
    have := List.length_pos_iff.2 h
    rw [List.length_append] at whole
    omega
  rw [ahead, List.takeWhile_append, if_neg shorter]

theorem dropWhile_ahead_of_dry (input : σ → List UInt8) {p : UInt8 → Bool} (h : c.pending.dropWhile p = []) :
    (c.ahead input).dropWhile p = (input c.machine).dropWhile p := by
  rw [ahead, List.dropWhile_append, if_pos (by simpa using h)]

/-- Skipping blanks comes to its end, at the first ink ahead or at the end of the input. -/
theorem skipBlanks_fed (delivers : host.Delivers input P) (reads : Nat) (fed : c.Fed input P)
    (patience : host.patience c.machine ≤ reads) :
    ∃ d, skipBlanks host reads c = .ok (!(d.ahead input).isEmpty) d ∧ d.Fed input P ∧
      d.ahead input = (c.ahead input).dropWhile Text.isBlank ∧
      (d.ahead input ≠ [] → host.patience d.machine ≤ reads) := by
  -- With every read that brings something both the patience of the machine and `reads` go down.
  induction reads generalizing c with
  | zero =>
    have := delivers.patience_pos _ fed.machine
    omega
  | succ reads ih =>
    by_cases ink : c.pending.dropWhile Text.isBlank = []
    · have dry := dropWhile_ahead_of_dry input ink
      cases atEnd : c.atEnd with
      | true =>
        have nothing := fed.ended atEnd
        refine ⟨{ c with pending := [] }, ?_, ⟨fed.machine, fed.ended⟩, ?_, fun _ => patience⟩
        · rw [skipBlanks_of_atEnd ink atEnd, ahead, nothing]
          rfl
        · rw [dry, ahead, nothing]
          rfl
      | false =>
        have emptied : Fed input P { c with pending := [] } := ⟨fed.machine, fed.ended⟩
        obtain ⟨more, d, refilled, fed', same, last, further⟩ := refill_fed delivers emptied
        have same : d.ahead input = input c.machine := same
        rw [skipBlanks_succ ink atEnd, Session.bind_apply, refilled, dry]
        cases more with
        | false =>
          obtain ⟨pending, nothing⟩ := last rfl
          have empty : d.ahead input = [] := by
            rw [ahead, pending, nothing]
            rfl
          refine ⟨d, ?_, fed', ?_, fun ink => absurd empty ink⟩
          · rw [empty]
            rfl
          · rw [← same, empty]
            rfl
        | true =>
          have less : host.patience d.machine < host.patience c.machine := further rfl
          obtain ⟨e, skipped, fed'', rest, patience'⟩ := ih fed' (by omega)
          refine ⟨e, skipped, fed'', ?_, fun ink => Nat.le_succ_of_le (patience' ink)⟩
          rw [rest, same]
    · refine ⟨{ c with pending := c.pending.dropWhile Text.isBlank }, ?_, ⟨fed.machine, fed.ended⟩,
        (dropWhile_ahead ink).symm, fun _ => patience⟩
      rw [skipBlanks_of_ink ink, ahead]
      simp [ink]

/-! ## The token itself -/

/-- Taking ink comes to its end, behind the blank that follows the ink ahead or at the end of the input. -/
theorem takeInk_fed (delivers : host.Delivers input P) (limit reads : Nat) (token : Token)
    (fed : c.Fed input P) (patience : host.patience c.machine ≤ reads) :
    ∃ d, takeInk host limit reads token c =
        .ok (token.extend limit ((c.ahead input).takeWhile Text.isInk)) d ∧ d.Fed input P ∧
      d.ahead input = ((c.ahead input).dropWhile Text.isInk).drop 1 := by
  induction reads generalizing c token with
  | zero =>
    have := delivers.patience_pos _ fed.machine
    omega
  | succ reads ih =>
    by_cases blank : c.pending.dropWhile Text.isInk = []
    · have dry := dropWhile_ahead_of_dry input blank
      have ink : ∀ b ∈ c.pending, Text.isInk b = true := List.dropWhile_eq_nil_iff.1 blank
      have taken : (c.ahead input).takeWhile Text.isInk =
          c.pending ++ (input c.machine).takeWhile Text.isInk := List.takeWhile_append_of_pos ink
      rw [dry, taken]
      cases atEnd : c.atEnd with
      | true =>
        have nothing := fed.ended atEnd
        refine ⟨{ c with pending := [] }, ?_, ⟨fed.machine, fed.ended⟩, ?_⟩
        · rw [takeInk_of_atEnd blank atEnd, nothing, List.takeWhile_nil, List.append_nil]
        · rw [ahead, nothing]
          rfl
      | false =>
        have emptied : Fed input P { c with pending := [] } := ⟨fed.machine, fed.ended⟩
        obtain ⟨more, d, refilled, fed', same, last, further⟩ := refill_fed delivers emptied
        have same : d.ahead input = input c.machine := same
        rw [takeInk_succ blank atEnd, Session.bind_apply, refilled, ← same]
        cases more with
        | false =>
          obtain ⟨pending, nothing⟩ := last rfl
          have empty : d.ahead input = [] := by
            rw [ahead, pending, nothing]
            rfl
          refine ⟨d, ?_, fed', ?_⟩
          · rw [empty, List.takeWhile_nil, List.append_nil]
            rfl
          · rw [empty]
            rfl
        | true =>
          have less : host.patience d.machine < host.patience c.machine := further rfl
          obtain ⟨e, taken, fed'', rest⟩ := ih (token.extend limit c.pending) fed' (by omega)
          refine ⟨e, ?_, fed'', rest⟩
          rw [← Token.extend_extend]
          exact taken
    · obtain ⟨b, rest, eq⟩ := List.exists_cons_of_ne_nil blank
      refine ⟨{ c with pending := rest }, ?_, ⟨fed.machine, fed.ended⟩, ?_⟩
      · rw [takeInk_of_blank eq, takeWhile_ahead blank]
      · rw [dropWhile_ahead blank, eq]
        rfl

/-! ## Reading a token -/

/-- The token that is read is the first one ahead, and what is behind it is ahead then. -/
theorem readToken_fed (delivers : host.Delivers input P) (limit : Nat) (fed : c.Fed input P) :
    ∃ d, readToken host limit c = .ok (Token.given limit (Text.tokens (c.ahead input)).head?) d ∧
      d.Fed input P ∧ d.ahead input = Text.afterToken (c.ahead input) := by
  obtain ⟨d, skipped, fed', rest, patience⟩ :=
    skipBlanks_fed delivers (host.patience c.machine) fed (Nat.le_refl _)
  have begun : readToken host limit c = (skipBlanks host (host.patience c.machine) >>= fun found =>
      if found = true then do
        let token ← takeInk host limit (host.patience c.machine) {}
        pure (.ok token)
      else pure (.error .closed)) c := rfl
  rw [begun, Session.bind_apply, skipped, Text.afterToken, ← rest]
  by_cases ink : d.ahead input = []
  · refine ⟨d, ?_, fed', ?_⟩
    · rw [Text.tokens_of_blank (rest.symm.trans ink), ink]
      rfl
    · rw [ink]
      rfl
  · obtain ⟨e, taken, fed'', behind⟩ := takeInk_fed delivers limit _ {} fed' (patience ink)
    refine ⟨e, ?_, fed'', behind⟩
    have found : (!(d.ahead input).isEmpty) = true := by simpa using ink
    rw [Text.tokens_of_ink (rest ▸ ink), ← rest]
    simp only [found, if_true, Session.bind_apply, taken, Token.extend_empty]
    rfl

end Console

end ProcessDrill
