import ProcessDrill.Proofs.Console.Ebbing
import ProcessDrill.Proofs.Drill.Ending
import ProcessDrill.Proofs.Drill.Order
import ProcessDrill.Proofs.Drill.Readings
import ProcessDrill.Proofs.Machine.Scripts
/-!
# The bounds of a drill

`Drill.Concludes` says how a drill ends on a machine whose input ebbs (`run_concludes`). A scripted machine is one
(`Machine.direct_ebbs`).

Main statement: `ends_in_bounds`. If the input of the machine ebbs, then with enough patience
* reading comes to its end, or the console fails;
* a drill makes its calls and comes to its end, by itself or through the machine.

On any machine, with any patience,
* reading makes only reads, at most one more than it uses up bytes of blanks, of the token, and of the blank behind it,
  and at most one of them brings nothing;
* printing makes only writes, no more than the text has bytes;
* a drill reads two tokens at most, and its reads are those of these tokens, so there are at most two more of them than
  bytes that it uses up;
* apart from reads and writes it makes at most one request and, behind it, at most one halt.
-/

namespace ProcessDrill

set_option autoImplicit false

variable {σ α : Type}

/-! ## Drills that settle -/

def Bench.Ebbing (host : Host σ) (bench : Bench σ) : Prop :=
  bench.console.Ebbing host

/-- A stop that is due to the machine, or to a want of random words. -/
def Bench.Excused (host : Host σ) (stop : Stop) (bench : Bench σ) : Prop :=
  bench.console.Excused host stop ∨ stop = .outOfWords

section

variable {host : Host σ} {bench : Bench σ}

theorem Settles.atConsole {excused : Stop → Console σ → Prop} {f : Nat → Session σ α}
    (h : Settles (Console.Ebbing host) excused f bench.console) :
    Settles (Bench.Ebbing host) (fun stop b => excused stop b.console) (fun patience => Drill.atConsole (f patience))
      bench := by
  obtain ⟨enough, result, comes, settled⟩ := h
  cases result with
  | ok a c =>
    refine ⟨enough, .ok a { bench with console := c }, comes, fun patience more => ?_⟩
    simp only [Drill.atConsole, settled patience more]
  | error stop c =>
    refine ⟨enough, .error stop { bench with console := c }, comes, fun patience more => ?_⟩
    simp only [Drill.atConsole, settled patience more]

theorem Step.perform_settles (step : Step) (inRange : step ≠ .draw 0) (ebbing : bench.Ebbing host) :
    Settles (Bench.Ebbing host) (Bench.Excused host) (fun patience => step.perform (host.waiting patience)) bench := by
  cases step with
  | write bytes => exact (Console.writeAll_settles bytes ebbing).atConsole.excuse fun _ _ _ _ => .inl
  | token limit =>
    refine (Console.readToken_settles limit ebbing).atConsole.excuse ?_
    rintro _ _ after - ⟨e, rfl⟩
    exact .inl (.console e after.console.machine)
  | ask call process =>
    have other : call.isRead = false := by
      cases call with
      | read buffer => cases process
      | _ => rfl
    exact (Console.ask_settles other ebbing).atConsole.excuse fun _ _ _ _ => .inl
  | log record => exact (Console.log_settles record ebbing).atConsole.excuse fun _ _ _ _ => .inl
  | draw bound =>
    have drawn (patience : Nat) : perform (host.waiting patience) (.draw bound) bench = Drill.draw bound bench := rfl
    refine .of_eq drawn ?_
    cases run : Drill.draw bound bench with
    | ok value after =>
      obtain ⟨-, words, -, rfl⟩ := Drill.draw_eq_ok run
      exact ebbing
    | error stop after =>
      rcases Drill.draw_eq_error run with ⟨rfl, -⟩ | ⟨-, rfl, -⟩
      · exact absurd rfl inRange
      · exact .inr rfl

theorem Plan.follow_settles {plan : Plan α} (inRange : plan.InRange) (ebbing : bench.Ebbing host) :
    Settles (Bench.Ebbing host) (Bench.Excused host) (fun patience => plan.follow (host.waiting patience)) bench := by
  induction plan generalizing bench with
  | done a => exact .pure ebbing
  | step s next ih =>
    refine (s.perform_settles inRange.1 ebbing).bind fun result after ebbing' => ?_
    exact ih result (inRange.2 result) ebbing'

theorem Drill.run_settles {config : Config} (valid : config.Valid) (ebbing : bench.Ebbing host) :
    Settles (Bench.Ebbing host) (Bench.Excused host) (fun patience => run (host.waiting patience) config) bench := by
  have settles := Plan.follow_settles (Plan.inRange_drill valid) ebbing
  simpa only [Plan.follow_drill] using settles

end

namespace Drill

/-- How a drill ends that leaves these events on record: with a termination, with an error of the console, at a call
that is no read and was not answered, or for want of a random word that the bound of its exercise accepts. -/
inductive Concludes (host : Host σ) (config : Config) (words : List UInt32) (events : List Event) :
    EStateM.Result Stop (Bench σ) Termination → Prop
  | terminated {t : Termination} {after : Bench σ} (ebbing : after.Ebbing host) :
      Concludes host config words events (.ok t after)
  | failed (e : Errno) {after : Bench σ} : Concludes host config words events (.error (.console e) after)
  | unanswered {before : List Event} {call : Call} {after : Bench σ} (other : call.isRead = false)
      (last : events = before ++ [.unanswered call]) : Concludes host config words events (.error .neverReturned after)
  | undrawn {x : Exercise} {bound : UInt32} {after : Bench σ} (bounded : config.bound? x = some bound)
      (none : Random.draw? bound words = none) : Concludes host config words events (.error .outOfWords after)

/-- With enough patience a drill makes its calls and comes to its end, and more patience makes no difference. -/
theorem run_concludes {host : Host σ} {config : Config} {bench : Bench σ} (valid : config.Valid)
    (ebbing : bench.Ebbing host) :
    ∃ enough result events, Concludes host config bench.words events result ∧ ∀ patience, enough ≤ patience →
      run (host.waiting patience) config bench = result ∧ trace (host.waiting patience) config bench = events := by
  -- What is on record is settled as well, on the machine that keeps the record.
  have recorded : bench.recorded.Ebbing host.recorded := ebbing.imp_right fun ebbs => ebbs.recorded []
  obtain ⟨enough, result, comes, settled⟩ := run_settles valid ebbing
  obtain ⟨enough', result', comes', settled'⟩ := run_settles valid recorded
  have ends (patience : Nat) (more : max enough enough' ≤ patience) :
      run (host.waiting patience) config bench = result ∧
        run (host.waiting patience).recorded config bench.recorded = result' :=
    ⟨settled patience (Nat.le_trans (Nat.le_max_left _ _) more),
      settled' patience (Nat.le_trans (Nat.le_max_right _ _) more)⟩
  refine ⟨max enough enough', result, (leftBy result').record, ?_, fun patience more => ⟨(ends patience more).1, ?_⟩⟩
  · obtain ⟨run_eq, recorded_eq⟩ := ends _ (Nat.le_refl _)
    have alike := run_recorded (host.waiting (max enough enough')) config bench
    rw [run_eq, recorded_eq] at alike
    cases result with
    | ok t after => exact .terminated comes
    | error stop after =>
      obtain ⟨last, rfl, -⟩ := alike.of_error
      rcases comes' with due | rfl
      · rcases due.last with ⟨e, rfl⟩ | ⟨rfl, before, call, other, eq⟩
        · exact .failed e
        · exact .unanswered other eq
      · obtain ⟨x, bound, -, bounded, none⟩ := undrawn_of_outOfWords run_eq
        exact .undrawn bounded none
  · rw [trace, (ends patience more).2]
    cases result' <;> rfl

end Drill

/-! ## Scripted machines -/

/-- A scripted machine comes to the end of what it delivers, whatever else it is asked. -/
theorem Machine.direct_ebbs (m : Machine) : direct.Ebbs m := by
  have same {s t : Machine} (reads : s.reads = t.reads) : s.readsLeft = t.readsLeft := by
    rw [readsLeft, readsLeft, reads]
  refine .of_left readsLeft (fun _ => Option.some_ne_none _) ?_ ?_ (fun _ _ => Nat.le_refl _) m
  · intro m n stored brought
    have some : m.reads ≠ [] := by
      intro none
      simp only [direct, read, none, deliver] at brought
      cases brought
    let next : Machine := { m with reads := (deliver Console.chunkSize m.reads).2.2 }
    have left : (direct.answer .chunk m).2.reads = next.reads := by
      simp only [direct, read, note, Buffer.length_zeros, next]
    rw [same left]
    exact readsLeft_deliver some
  · intro call m other
    exact Nat.le_of_eq (same (reads_answer other m))

/-! ## Any machine -/

namespace Drill

/-- Where the input ebbs, reading and a drill come to an end with enough patience; and everywhere they make no more reads
and calls than the bytes they use account for. -/
theorem ends_in_bounds (host : Host σ) :
    (∀ (operation : Console.Operation) (c : Console σ), c.Ebbing host →
      Settles (Console.Ebbing host) Console.Failed (fun patience => operation.perform (host.waiting patience)) c) ∧
    (∀ (config : Config) (bench : Bench σ), config.Valid → bench.Ebbing host →
      ∃ enough result events, Concludes host config bench.words events result ∧ ∀ patience, enough ≤ patience →
        run (host.waiting patience) config bench = result ∧ trace (host.waiting patience) config bench = events) ∧
    (∀ (operation : Console.Operation) (c : Console σ),
      let events := Session.record (operation.perform host.recorded) c
      (∀ event ∈ events, event.IsRead) ∧ events.countP Event.isBarren ≤ 1 ∧
        ∃ used token final, Text.Taken used token final ∧
          c.pending ++ delivered events = used ++ (leftBy (operation.perform host c)).pending ∧
          events.length ≤ 1 + used.length) ∧
    (∀ (text : String) (c : Console σ),
      let events := Session.record (Console.print host.recorded text) c
      (∀ event ∈ events, event.IsWrite) ∧ events.length ≤ (Utf8.encode text).length) ∧
    ∀ (config : Config) (bench : Bench σ),
      let events := trace host config bench
      let readings := (Plan.drill config).readings host bench
      readings.length ≤ 2 ∧
        readsOf events = readings.flatMap (fun (limit, c) => Session.record (Console.readToken host.recorded limit) c) ∧
        (∃ used, bench.console.pending ++ delivered events = used ++ (leftBy (run host config bench)).console.pending ∧
          (readsOf events).length ≤ 2 + used.length) ∧
        ∃ request : Option Request, processCalls events <+: request.toList.map Request.call ++ [.halt] := by
  refine ⟨fun operation c => operation.perform_settles, fun config bench => run_concludes,
    Console.Operation.reads_le host, fun text => Console.writes_le host (Utf8.encode text), ?_⟩
  intro config bench
  have two : ((Plan.drill config).readings host bench).length ≤ 2 := Plan.length_readings (.drill config) host bench
  refine ⟨two, ?_, ?_, ?_⟩
  · rw [trace_eq]
    exact (Plan.drill config).readsOf_trace host bench
  · obtain ⟨used, eq, few⟩ := (Plan.drill config).reads_le_used host bench
    rw [trace_eq, ← Plan.follow_drill]
    exact ⟨used, eq, Nat.le_trans few (Nat.add_le_add_right two _)⟩
  · obtain ⟨word, t, complete, cut, -⟩ := trace_cut host config bench
    obtain ⟨phases, inOrder, eq⟩ := Plan.phases_of_word complete
    obtain ⟨request, atMost⟩ := inOrder.processCalls_prefix
    rw [← eq, processCalls_unlogged] at atMost
    exact ⟨request, (cut.calls.filter _).trans atMost⟩

/-- Blanks and a digit, piece by piece, and a read that fails. -/
def brokenOff : Machine where
  reads := [.bytes [0x20], .bytes [0x0a], .bytes [0x36], .raw [] (-5)]

theorem broken_off_ends :
    Settles (Console.Ebbing Machine.direct) Console.Failed
        (fun patience => Console.Operation.int.perform (Machine.direct.waiting patience)) { machine := brokenOff } ∧
      ∃ enough result events, Concludes Machine.direct {} [] events result ∧ ∀ patience, enough ≤ patience →
        run (Machine.direct.waiting patience) {} ⟨{ machine := brokenOff }, []⟩ = result ∧
          trace (Machine.direct.waiting patience) {} ⟨{ machine := brokenOff }, []⟩ = events := by
  have ebbs : Machine.direct.Ebbs brokenOff := Machine.direct_ebbs brokenOff
  obtain ⟨reading, drilling, -⟩ := ends_in_bounds Machine.direct
  exact ⟨reading .int _ (.inr ebbs), drilling {} ⟨{ machine := brokenOff }, []⟩ (by decide) (.inr ebbs)⟩

end Drill

end ProcessDrill
