import ProcessDrill.Console.Token
/-!
# Machines that answer alike

`Host.Simulates first second R`: in states related by `R` the two machines answer every call alike and are
related again. Then every session goes alike on both: `agree_writeAll` and `agree_readToken`, and
`simulates_recorded` for a machine that keeps a record and the same machine without one. For machines that
are alike in some calls only, `Agree.writeAll` and `Agree.readToken` name the calls that a session makes.
-/

namespace ProcessDrill

set_option autoImplicit false

/-! ## Computations that go alike -/

section Agree

variable {S T α β : Type} {R : S → T → Prop}

inductive Alike (R : S → T → Prop) : EStateM.Result Stop S α → EStateM.Result Stop T α → Prop
  | ok {a : α} {s : S} {t : T} (h : R s t) : Alike R (.ok a s) (.ok a t)
  | error {stop : Stop} {s : S} {t : T} (h : R s t) : Alike R (.error stop s) (.error stop t)

theorem Alike.of_ok {r : EStateM.Result Stop S α} {a : α} {t : T} (h : Alike R r (.ok a t)) :
    ∃ s, r = .ok a s ∧ R s t := by
  cases h with
  | ok related => exact ⟨_, rfl, related⟩

theorem Alike.of_error {r : EStateM.Result Stop S α} {stop : Stop} {t : T}
    (h : Alike R r (.error stop t)) : ∃ s, r = .error stop s ∧ R s t := by
  cases h with
  | error related => exact ⟨_, rfl, related⟩

/-- The state that a computation leaves behind, however it ends. -/
def leftBy : EStateM.Result Stop S α → S
  | .ok _ s => s
  | .error _ s => s

theorem Alike.leftBy {r : EStateM.Result Stop S α} {r' : EStateM.Result Stop T α} (h : Alike R r r') :
    R (leftBy r) (leftBy r') := by
  cases h with
  | ok related => exact related
  | error related => exact related

/-- From related states the two computations have alike results. -/
def Agree (R : S → T → Prop) (f : EStateM Stop S α) (g : EStateM Stop T α) : Prop :=
  ∀ s t, R s t → Alike R (f s) (g t)

namespace Agree

theorem pure (a : α) : Agree R (Pure.pure a) (Pure.pure a) :=
  fun _ _ h => .ok h

theorem throw (stop : Stop) : Agree (α := α) R (MonadExcept.throw stop) (MonadExcept.throw stop) :=
  fun _ _ h => .error h

theorem bind {f : EStateM Stop S α} {g : EStateM Stop T α} {f' : α → EStateM Stop S β}
    {g' : α → EStateM Stop T β} (h : Agree R f g) (h' : ∀ a, Agree R (f' a) (g' a)) :
    Agree R (f >>= f') (g >>= g') := by
  intro s t related
  have first := h s t related
  simp only [Bind.bind, EStateM.bind]
  generalize f s = r, g t = r' at first ⊢
  cases first with
  | ok related' => exact h' _ _ _ related'
  | error related' => exact .error related'

theorem get_bind {f : S → EStateM Stop S α} {g : T → EStateM Stop T α}
    (h : ∀ s t, R s t → Agree R (f s) (g t)) : Agree R (get >>= f) (get >>= g) :=
  fun s t related => h s t related s t related

theorem modify {f : S → S} {g : T → T} (h : ∀ s t, R s t → R (f s) (g t)) :
    Agree R (MonadStateOf.modifyGet fun s => (PUnit.unit, f s))
      (MonadStateOf.modifyGet fun t => (PUnit.unit, g t)) :=
  fun s t related => .ok (h s t related)

end Agree

end Agree

/-! ## Machines -/

variable {σ τ : Type}

structure Host.Simulates (first : Host σ) (second : Host τ) (R : σ → τ → Prop) : Prop where
  answer : ∀ (call : Call) (s : σ) (t : τ), R s t →
    (first.answer call s).1 = (second.answer call t).1 ∧
      R (first.answer call s).2 (second.answer call t).2
  log : ∀ (record : Log.Record) (s : σ) (t : τ), R s t → R (first.log record s) (second.log record t)
  patience : ∀ (s : σ) (t : τ), R s t → first.patience s = second.patience t

structure Console.Related (R : σ → τ → Prop) (c : Console σ) (d : Console τ) : Prop where
  machine : R c.machine d.machine
  pending : c.pending = d.pending
  atEnd : c.atEnd = d.atEnd

theorem simulates_recorded (host : Host σ) : host.recorded.Simulates host fun s t => s.1 = t where
  answer := by
    rintro call ⟨s, past⟩ _ rfl
    cases h : host.answer call s with
    | mk answer t => cases answer <;> simp [Host.recorded, h]
  log := by
    rintro record ⟨s, past⟩ _ rfl
    rfl
  patience := by
    rintro ⟨s, past⟩ _ rfl
    rfl

theorem Host.Simulates.recorded {first : Host σ} {second : Host τ} {R : σ → τ → Prop}
    (simulates : first.Simulates second R) :
    first.recorded.Simulates second.recorded fun s t => R s.1 t.1 ∧ s.2 = t.2 where
  answer := by
    rintro call ⟨s, past⟩ ⟨t, _⟩ ⟨related, rfl⟩
    obtain ⟨same, next⟩ := simulates.answer call s t related
    cases h : (first.answer call s).1 with
    | some a =>
      rw [Host.recorded_answer_some h, Host.recorded_answer_some (same.symm.trans h)]
      exact ⟨rfl, next, rfl⟩
    | none =>
      rw [Host.recorded_answer_none h, Host.recorded_answer_none (same.symm.trans h)]
      exact ⟨rfl, next, rfl⟩
  log := by
    rintro record ⟨s, past⟩ ⟨t, _⟩ ⟨related, rfl⟩
    exact ⟨simulates.log record s t related, rfl⟩
  patience := fun s t related => simulates.patience s.1 t.1 related.1

/-! ## Sessions -/

section Loops

open Console

variable {first : Host σ} {second : Host τ} {R : σ → τ → Prop}

theorem Agree.ask {call : Call}
    (alike : ∀ s t, R s t → (first.answer call s).1 = (second.answer call t).1 ∧
      R (first.answer call s).2 (second.answer call t).2) :
    Agree (Related R) (Console.ask first call) (Console.ask second call) := by
  intro c d related
  obtain ⟨same, next⟩ := alike _ _ related.machine
  rw [Console.ask, Console.ask]
  cases h : first.answer call c.machine with
  | mk answer s =>
    cases h' : second.answer call d.machine with
    | mk answer' t =>
      rw [h, h'] at same next
      obtain rfl : answer = answer' := same
      cases answer with
      | some a => exact .ok ⟨next, related.pending, related.atEnd⟩
      | none => exact .error ⟨next, related.pending, related.atEnd⟩

theorem Agree.log (alike : ∀ record s t, R s t → R (first.log record s) (second.log record t))
    (level : Log.Level) (source : Log.Source) (message : String) :
    Agree (Related R) (Console.log first level source message)
      (Console.log second level source message) :=
  .modify fun _ _ related => ⟨alike _ _ _ related.machine, related.pending, related.atEnd⟩

/-- Whatever relates the consoles, writing goes alike if each single write does. -/
theorem Agree.writeAll {Q : Console σ → Console τ → Prop}
    (asks : ∀ bytes, Agree Q (Console.ask first (.write bytes)) (Console.ask second (.write bytes)))
    (bytes : List UInt8) : Agree Q (Console.writeAll first bytes) (Console.writeAll second bytes) := by
  induction h : bytes.length using Nat.strongRecOn generalizing bytes with
  | _ length ih =>
    rw [Console.writeAll, Console.writeAll]
    split
    · exact .pure ()
    · next nonempty =>
      refine (asks bytes).bind fun answer => ?_
      match answer with
      | .error e => exact .throw _
      | .ok 0 => exact .throw _
      | .ok (n + 1) =>
        dsimp only
        split
        · exact .throw _
        · next rest slice =>
          have shorter := Buffer.length_sliceFrom? slice
          have := List.length_pos_iff.2 nonempty
          exact ih _ (by omega) rest rfl

/-- What no single write changes, writing does not change. -/
theorem writeAll_keeps (host : Host σ) {P : σ → Prop}
    (keeps : ∀ bytes s, P s → P (host.answer (.write bytes) s).2) (bytes : List UInt8) {c : Console σ}
    (here : P c.machine) : P (leftBy (Console.writeAll host bytes c)).machine := by
  have agree : Agree (fun c d => c = d ∧ P c.machine) (Console.writeAll host bytes)
      (Console.writeAll host bytes) := by
    refine .writeAll (fun bytes => ?_) bytes
    rintro c _ ⟨rfl, here⟩
    have next := keeps bytes c.machine here
    rw [Console.ask]
    generalize host.answer (.write bytes) c.machine = answer at next
    obtain ⟨_ | a, s⟩ := answer
    · exact .error ⟨rfl, next⟩
    · exact .ok ⟨rfl, next⟩
  exact (agree c c ⟨rfl, here⟩).leftBy.2

section Reads

variable (asks : Agree (Related R) (Console.ask first (.read (Buffer.zeros chunkSize)))
  (Console.ask second (.read (Buffer.zeros chunkSize))))
include asks

theorem Agree.refill : Agree (Related R) (Console.refill first) (Console.refill second) := by
  refine asks.bind ?_
  rintro ⟨result, stored⟩
  match result with
  | .error e => exact .throw _
  | .ok 0 =>
    refine Agree.bind (.modify fun _ _ related => ?_) fun _ => .pure _
    exact ⟨related.machine, related.pending, rfl⟩
  | .ok (n + 1) =>
    dsimp only
    split
    · exact .throw _
    · refine Agree.bind (.modify fun _ _ related => ?_) fun _ => .pure _
      exact ⟨related.machine, by rw [related.pending], related.atEnd⟩

theorem Agree.skipBlanks (reads : Nat) :
    Agree (Related R) (Console.skipBlanks first reads) (Console.skipBlanks second reads) := by
  induction reads using Nat.strongRecOn with
  | _ reads ih =>
    rw [skipBlanks.eq_def, skipBlanks.eq_def]
    refine .get_bind fun c d related => ?_
    rw [related.pending]
    refine Agree.bind (.modify fun _ _ related => ⟨related.machine, rfl, related.atEnd⟩) fun _ => ?_
    split
    · exact .pure _
    refine .get_bind fun c d related => ?_
    rw [related.atEnd]
    split
    · exact .pure _
    match reads, ih with
    | 0, _ => exact .throw _
    | reads + 1, ih =>
      refine (Agree.refill asks).bind fun more => ?_
      cases more with
      | true => exact ih reads (Nat.lt_succ_self reads)
      | false => exact .pure _

theorem Agree.takeInk (limit reads : Nat) (token : Token) :
    Agree (Related R) (Console.takeInk first limit reads token)
      (Console.takeInk second limit reads token) := by
  induction reads using Nat.strongRecOn generalizing token with
  | _ reads ih =>
    rw [takeInk.eq_def, takeInk.eq_def]
    refine .get_bind fun c d related => ?_
    rw [related.pending]
    refine Agree.bind (.modify fun _ _ related => ⟨related.machine, rfl, related.atEnd⟩) fun _ => ?_
    split
    · exact .pure _
    refine .get_bind fun c d related => ?_
    rw [related.atEnd]
    split
    · exact .pure _
    match reads, ih with
    | 0, _ => exact .throw _
    | reads + 1, ih =>
      refine (Agree.refill asks).bind fun more => ?_
      cases more with
      | true => exact ih reads (Nat.lt_succ_self reads) _
      | false => exact .pure _

theorem Agree.readToken (patience : ∀ s t, R s t → first.patience s = second.patience t)
    (limit : Nat) :
    Agree (Related R) (Console.readToken first limit) (Console.readToken second limit) := by
  refine .get_bind fun c d related => ?_
  rw [patience _ _ related.machine]
  refine (Agree.skipBlanks asks _).bind fun found => ?_
  cases found with
  | true => exact (Agree.takeInk asks limit _ {}).bind fun token => .pure _
  | false => exact .pure _

end Reads

end Loops

section Sessions

variable {first : Host σ} {second : Host τ} {R : σ → τ → Prop} (simulates : first.Simulates second R)
include simulates

open Console

theorem agree_ask (call : Call) : Agree (Related R) (ask first call) (ask second call) :=
  .ask (simulates.answer call)

theorem agree_log (level : Log.Level) (source : Log.Source) (message : String) :
    Agree (Related R) (Console.log first level source message)
      (Console.log second level source message) :=
  .log simulates.log level source message

theorem agree_writeAll (bytes : List UInt8) :
    Agree (Related R) (writeAll first bytes) (writeAll second bytes) :=
  .writeAll (fun bytes => agree_ask simulates (.write bytes)) bytes

theorem agree_readToken (limit : Nat) :
    Agree (Related R) (readToken first limit) (readToken second limit) :=
  .readToken (agree_ask simulates _) simulates.patience limit

end Sessions

end ProcessDrill
