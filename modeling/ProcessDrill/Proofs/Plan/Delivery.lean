import ProcessDrill.Proofs.Console.Delivery
import ProcessDrill.Proofs.Plan.Trace
/-!
# The same input in other pieces

`first.Recuts second input input' R`: the two machines answer alike in all but reads, and what either delivers,
`input` and `input'`, does not change the other answers. Main statements:
* `Host.Recuts.agree_perform`: with the same input ahead, every step goes alike on both machines, however each of
  them cuts it into pieces, and so does a plan;
* `Host.Recuts.follow_error`: what can stop a plan then;
* `Host.Recuts.recorded`: the same holds when both keep a record, and the records are the same but for reads.
-/

namespace ProcessDrill

set_option autoImplicit false

variable {σ τ α : Type}

theorem Console.isForced_of_writeAll {host : Host σ} {bytes : List UInt8} {c d : Console σ} {stop : Stop}
    (run : writeAll host bytes c = .error stop d) : stop.isForced = true := by
  have alike := agree_writeAll (simulates_recorded host) bytes c.recorded c ⟨rfl, rfl, rfl⟩
  rw [run] at alike
  obtain ⟨_, recorded, -⟩ := alike.of_error
  obtain ⟨_, -, -, forced, -⟩ := (traced_writeAll host bytes _).stopped_of_eq recorded
  exact forced

/-! ## Machines -/

structure Host.Recuts (first : Host σ) (second : Host τ) (input : σ → List UInt8)
    (input' : τ → List UInt8) (R : σ → τ → Prop) : Prop where
  answer : ∀ call s t, call.isRead = false → R s t →
    (first.answer call s).1 = (second.answer call t).1 ∧
      R (first.answer call s).2 (second.answer call t).2
  log : ∀ record s t, R s t → R (first.log record s) (second.log record t)
  left : ∀ t, first.Delivers input fun s => R s t
  right : ∀ s, second.Delivers input' fun t => R s t

/-- The same input is ahead of both consoles, in pieces of any kind. -/
structure Console.Shared (R : σ → τ → Prop) (input : σ → List UInt8) (input' : τ → List UInt8)
    (c : Console σ) (d : Console τ) : Prop where
  machine : R c.machine d.machine
  ahead : c.ahead input = d.ahead input'
  ended : c.atEnd = true → input c.machine = []
  ended' : d.atEnd = true → input' d.machine = []

namespace Host.Recuts

variable {first : Host σ} {second : Host τ} {input : σ → List UInt8} {input' : τ → List UInt8}
variable {R : σ → τ → Prop} (recuts : first.Recuts second input input' R)
include recuts

/-! ## Steps -/

theorem agree_ask {call : Call} (other : call.isRead = false) :
    Agree (Console.Shared R input input') (Console.ask first call) (Console.ask second call) := by
  intro c d shared
  obtain ⟨same, next⟩ := recuts.answer call _ _ other shared.machine
  have keeps := (recuts.left d.machine).keeps call _ shared.machine other
  have keeps' := (recuts.right c.machine).keeps call _ shared.machine other
  have ahead := shared.ahead
  have ended := shared.ended
  have ended' := shared.ended'
  simp only [Console.ahead] at ahead
  rw [← keeps, ← keeps'] at ahead
  rw [← keeps] at ended
  rw [← keeps'] at ended'
  rw [Console.ask, Console.ask]
  generalize first.answer call c.machine = answer, second.answer call d.machine = answer' at *
  obtain ⟨a, s⟩ := answer
  obtain ⟨a', t⟩ := answer'
  obtain rfl : a = a' := same
  cases a with
  | some a => exact .ok ⟨next, ahead, ended, ended'⟩
  | none => exact .error ⟨next, ahead, ended, ended'⟩

theorem agree_log (record : Log.Record) :
    Agree (Console.Shared R input input')
      (Console.log first record.level record.source record.message)
      (Console.log second record.level record.source record.message) := by
  refine .modify fun c d shared => ?_
  have keeps := (recuts.left d.machine).keeps_log record _ shared.machine
  have keeps' := (recuts.right c.machine).keeps_log record _ shared.machine
  refine ⟨recuts.log record _ _ shared.machine, ?_, ?_, ?_⟩
  · have ahead := shared.ahead
    simp only [Console.ahead] at ahead ⊢
    rwa [keeps, keeps']
  · intro atEnd
    exact keeps.trans (shared.ended atEnd)
  · intro atEnd
    exact keeps'.trans (shared.ended' atEnd)

/-- Both get the first token of what is ahead, each after reads of its own. -/
theorem agree_readToken (limit : Nat) :
    Agree (Console.Shared R input input') (Console.readToken first limit)
      (Console.readToken second limit) := by
  intro c d shared
  have fed : c.Fed input fun s => R s d.machine := ⟨shared.machine, shared.ended⟩
  obtain ⟨c', read, fed, rest⟩ := Console.readToken_fed (recuts.left d.machine) limit fed
  have fed' : d.Fed input' fun t => R c'.machine t := ⟨fed.machine, shared.ended'⟩
  obtain ⟨d', read', fed', rest'⟩ := Console.readToken_fed (recuts.right c'.machine) limit fed'
  rw [read, read', shared.ahead]
  refine .ok ⟨fed'.machine, ?_, fed.ended, fed'.ended⟩
  rw [rest, rest', shared.ahead]

theorem agree_perform (step : Step) :
    Agree (Bench.Over (Console.Shared R input input')) (step.perform first) (step.perform second) := by
  cases step with
  | write bytes => exact .atConsole (.writeAll (fun _ => recuts.agree_ask rfl) bytes)
  | token limit => exact .atConsole (recuts.agree_readToken limit)
  | ask call process =>
    refine .atConsole (recuts.agree_ask ?_)
    cases call with
    | read buffer => cases process
    | _ => rfl
  | log record => exact .atConsole (recuts.agree_log record)
  | draw bound => exact .draw bound

theorem perform_error {step : Step} (inRange : step ≠ .draw 0) {b : Bench σ} {c : Bench τ}
    (related : Bench.Over (Console.Shared R input input') b c) {stop : Stop} {after : Bench σ}
    (run : step.perform first b = .error stop after) :
    stop.isForced = true ∨ stop = .outOfWords := by
  cases step with
  | write bytes =>
    obtain ⟨d, here, -⟩ := Drill.atConsole_eq_error run
    exact .inl (Console.isForced_of_writeAll here)
  | token limit =>
    obtain ⟨d, here, -⟩ := Drill.atConsole_eq_error run
    have fed : b.console.Fed input fun s => R s c.console.machine :=
      ⟨related.console.machine, related.console.ended⟩
    obtain ⟨_, read, -⟩ := Console.readToken_fed (recuts.left _) limit fed
    rw [read] at here
    cases here
  | ask call process =>
    obtain ⟨d, here, -⟩ := Drill.atConsole_eq_error run
    rw [Console.ask] at here
    split at here
    · cases here
    · cases here
      exact .inl rfl
  | log record => cases run
  | draw bound =>
    rcases Drill.draw_eq_error run with ⟨rfl, -⟩ | ⟨-, rfl, -⟩
    · exact absurd rfl inRange
    · exact .inr rfl

/-- Nothing stops a plan on a machine that delivers but a write that fails, a call that does not return, or
the want of random words. -/
theorem follow_error {plan : Plan α} (inRange : plan.InRange) {b : Bench σ} {c : Bench τ}
    (related : Bench.Over (Console.Shared R input input') b c) {stop : Stop} {after : Bench σ}
    (run : plan.follow first b = .error stop after) : stop.isForced = true ∨ stop = .outOfWords := by
  induction plan generalizing b c with
  | done a => cases run
  | step s next ih =>
    rcases Drill.bind_eq_error run with here | ⟨result, middle, here, rest⟩
    · exact recuts.perform_error inRange.1 related here
    · have alike := recuts.agree_perform s b c related
      rw [here] at alike
      generalize s.perform second c = r at alike
      cases alike with
      | ok related' => exact ih result (inRange.2 result) related' rest

end Host.Recuts

/-! ## Records -/

/-- The two records are the same but for reads, and those of the first were not refused and have brought what
is gone of `whole`. -/
structure Tally (R : σ → τ → Prop) (input : σ → List UInt8) (whole : List UInt8) (s : σ × List Event)
    (t : τ × List Event) : Prop where
  machine : R s.1 t.1
  same : leaveOut Call.isRead s.2 = leaveOut Call.isRead t.2
  delivered : delivered s.2 ++ input s.1 = whole
  unrefused : ∀ event ∈ s.2, event.IsRead → event.failure? = none

namespace Tally

variable {R : σ → τ → Prop} {input : σ → List UInt8} {whole : List UInt8} {s s' : σ} {t t' : τ}
variable {past past' : List Event}

/-- Both records go on by an event that is no read. -/
theorem concat (h : Tally R input whole (s, past) (t, past')) {event : Event} (machine : R s' t')
    (keeps : input s' = input s) (other : event.call?.any Call.isRead = false)
    (nothing : event.delivered = []) :
    Tally R input whole (s', past ++ [event]) (t', past' ++ [event]) where
  machine := machine
  same := by
    rw [leaveOut_append, leaveOut_append]
    exact congrArg (· ++ leaveOut Call.isRead [event]) h.same
  delivered := by
    rw [delivered_append, delivered_cons, nothing, delivered_nil, List.append_nil, List.append_nil, keeps]
    exact h.delivered
  unrefused := by
    refine List.forall_mem_append.2 ⟨h.unrefused, List.forall_mem_singleton.2 ?_⟩
    rintro ⟨buffer, read⟩
    rw [read] at other
    cases other

theorem concat_left (h : Tally R input whole (s, past) (t, past')) {n : Nat} {stored : List UInt8}
    (machine : R s' t)
    (piece : input s = (Buffer.overlay stored (Buffer.zeros Console.chunkSize)).take n ++ input s') :
    Tally R input whole (s', past ++ [.answered .chunk (.ok n, stored)]) (t, past') where
  machine := machine
  same := by
    rw [leaveOut_append]
    exact (List.append_nil _).trans h.same
  delivered := by
    rw [delivered_append, delivered_cons, delivered_nil, List.append_nil, List.append_assoc]
    exact (congrArg _ piece.symm).trans h.delivered
  unrefused := List.forall_mem_append.2 ⟨h.unrefused, List.forall_mem_singleton.2 fun _ => rfl⟩

theorem concat_right (h : Tally R input whole (s, past) (t, past')) {answer : Call.chunk.Answer}
    (machine : R s t') : Tally R input whole (s, past) (t', past' ++ [.answered .chunk answer]) where
  machine := machine
  same := by
    rw [leaveOut_append]
    exact h.same.trans (List.append_nil _).symm
  delivered := h.delivered
  unrefused := h.unrefused

end Tally

theorem Host.Delivers.recorded {host : Host σ} {input : σ → List UInt8} {P : σ → Prop}
    {Q : σ × List Event → Prop} (delivers : host.Delivers input P) (weaken : ∀ s, Q s → P s.1)
    (stays : ∀ s past n stored, Q (s, past) → (host.answer .chunk s).1 = some (.ok n, stored) →
      input s = (Buffer.overlay stored (Buffer.zeros Console.chunkSize)).take n ++
        input (host.answer .chunk s).2 →
      Q ((host.answer .chunk s).2, past ++ [.answered .chunk (.ok n, stored)])) :
    host.recorded.Delivers (fun s => input s.1) Q where
  brings := by
    rintro ⟨s, past⟩ q
    obtain ⟨n, stored, answered, piece, last⟩ := delivers.brings s (weaken _ q)
    rw [Host.recorded_answer_some answered]
    exact ⟨n, stored, rfl, piece, last⟩
  stays := by
    rintro ⟨s, past⟩ q
    obtain ⟨n, stored, answered, piece, -⟩ := delivers.brings s (weaken _ q)
    rw [Host.recorded_answer_some answered]
    exact stays s past n stored q answered piece
  keeps := by
    rintro call ⟨s, past⟩ q other
    rw [Host.recorded_answer_snd]
    exact delivers.keeps call s (weaken _ q) other
  keeps_log := by
    rintro record ⟨s, past⟩ q
    exact delivers.keeps_log record s (weaken _ q)
  patience_pos := fun s q => delivers.patience_pos s.1 (weaken s q)
  patience_lt := by
    rintro ⟨s, past⟩ q more
    have := delivers.patience_lt s (weaken _ q) more
    rw [← Host.recorded_answer_snd host .chunk s past] at this
    exact this

theorem Host.Recuts.recorded {first : Host σ} {second : Host τ} {input : σ → List UInt8}
    {input' : τ → List UInt8} {R : σ → τ → Prop} (recuts : first.Recuts second input input' R)
    (whole : List UInt8) :
    first.recorded.Recuts second.recorded (fun s => input s.1) (fun t => input' t.1)
      (Tally R input whole) where
  answer := by
    rintro call ⟨s, past⟩ ⟨t, past'⟩ other tally
    obtain ⟨same, next⟩ := recuts.answer call s t other tally.machine
    have keeps := (recuts.left t).keeps call s tally.machine other
    cases h : (first.answer call s).1 with
    | some a =>
      rw [Host.recorded_answer_some h, Host.recorded_answer_some (same.symm.trans h)]
      exact ⟨rfl, tally.concat next keeps other (Event.delivered_of_not_read other a)⟩
    | none =>
      rw [Host.recorded_answer_none h, Host.recorded_answer_none (same.symm.trans h)]
      exact ⟨rfl, tally.concat next keeps other rfl⟩
  log := by
    rintro record ⟨s, past⟩ ⟨t, past'⟩ tally
    have keeps := (recuts.left t).keeps_log record s tally.machine
    exact tally.concat (recuts.log record s t tally.machine) keeps rfl rfl
  left := by
    rintro ⟨t, past'⟩
    refine (recuts.left t).recorded (fun s tally => tally.machine) ?_
    intro s past n stored tally answered piece
    exact tally.concat_left ((recuts.left t).stays s tally.machine) piece
  right := by
    rintro ⟨s, past⟩
    refine (recuts.right s).recorded (fun t tally => tally.machine) ?_
    intro t past' n stored tally answered piece
    exact tally.concat_right ((recuts.right s).stays t tally.machine)

end ProcessDrill
