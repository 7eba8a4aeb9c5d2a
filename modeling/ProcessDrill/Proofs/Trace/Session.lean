import ProcessDrill.Proofs.Trace.Event
/-!
# Sessions with a record

`Traced f c ok stopped` says what the session `f` does from console `c` on a machine that keeps a record:
it only adds to the record, and what it adds satisfies `ok` together with the value and the console
left behind, or `stopped` together with the stop. There is one rule for each way of building a session.
-/

namespace ProcessDrill

set_option autoImplicit false

variable {σ α β : Type}

/-! ## Sessions at a console -/

namespace Session

@[simp]
theorem pure_apply (a : α) (c : Console σ) : (pure a : Session σ α) c = .ok a c := rfl

@[simp]
theorem throw_apply (stop : Stop) (c : Console σ) :
    (throw stop : Session σ α) c = .error stop c := rfl

@[simp]
theorem get_bind_apply (f : Console σ → Session σ α) (c : Console σ) : (get >>= f) c = f c c := rfl

@[simp]
theorem modify_bind_apply (change : Console σ → Console σ) (f : PUnit → Session σ α)
    (c : Console σ) : ((modify change : Session σ PUnit) >>= f) c = f ⟨⟩ (change c) := rfl

theorem bind_apply (f : Session σ α) (g : α → Session σ β) (c : Console σ) :
    (f >>= g) c =
      match f c with
      | .ok a d => g a d
      | .error stop d => .error stop d := by
  simp only [Bind.bind, EStateM.bind]
  cases f c <;> rfl

end Session

/-! ## Traces -/

abbrev Recording (σ : Type) : Type :=
  Console (σ × List Event)

def Console.recorded (c : Console σ) : Recording σ :=
  { c with machine := (c.machine, []) }

/-- What a session does to the record. -/
def Traced (f : Session (σ × List Event) α) (c : Recording σ)
    (ok : List Event → α → Recording σ → Prop)
    (stopped : List Event → Stop → Recording σ → Prop) : Prop :=
  match f c with
  | .ok a d => ∃ events, d.machine.2 = c.machine.2 ++ events ∧ ok events a d
  | .error stop d => ∃ events, d.machine.2 = c.machine.2 ++ events ∧ stopped events stop d

namespace Traced

variable {f : Session (σ × List Event) α} {g : α → Session (σ × List Event) β} {c : Recording σ}
variable {ok ok' : List Event → α → Recording σ → Prop}
variable {stopped stopped' : List Event → Stop → Recording σ → Prop}
variable {okay : List Event → β → Recording σ → Prop}

theorem of_ok {a : α} {d : Recording σ} {events : List Event} (h : f c = .ok a d)
    (record : d.machine.2 = c.machine.2 ++ events) (post : ok events a d) :
    Traced f c ok stopped := by
  simp only [Traced, h]
  exact ⟨events, record, post⟩

theorem of_error {stop : Stop} {d : Recording σ} {events : List Event} (h : f c = .error stop d)
    (record : d.machine.2 = c.machine.2 ++ events) (post : stopped events stop d) :
    Traced f c ok stopped := by
  simp only [Traced, h]
  exact ⟨events, record, post⟩

theorem ok_of_eq {a : α} {d : Recording σ} (h : Traced f c ok stopped) (run : f c = .ok a d) :
    ∃ events, d.machine.2 = c.machine.2 ++ events ∧ ok events a d := by
  simpa only [Traced, run] using h

theorem stopped_of_eq {stop : Stop} {d : Recording σ} (h : Traced f c ok stopped)
    (run : f c = .error stop d) :
    ∃ events, d.machine.2 = c.machine.2 ++ events ∧ stopped events stop d := by
  simpa only [Traced, run] using h

theorem mono (h : Traced f c ok stopped)
    (hok : ∀ events a d, ok events a d → ok' events a d)
    (hstop : ∀ events stop d, stopped events stop d → stopped' events stop d) :
    Traced f c ok' stopped' := by
  cases run : f c with
  | ok a d =>
    obtain ⟨events, record, post⟩ := h.ok_of_eq run
    exact of_ok run record (hok events a d post)
  | error stop d =>
    obtain ⟨events, record, post⟩ := h.stopped_of_eq run
    exact of_error run record (hstop events stop d post)

theorem pure {a : α} (post : ok [] a c) : Traced (Pure.pure a) c ok stopped :=
  of_ok (d := c) rfl (List.append_nil _).symm post

theorem throw {stop : Stop} (post : stopped [] stop c) :
    Traced (MonadExcept.throw stop) c ok stopped :=
  of_error (d := c) rfl (List.append_nil _).symm post

theorem bind (first : Traced f c ok stopped')
    (second : ∀ events a d, ok events a d →
      Traced (g a) d (fun more => okay (events ++ more)) (fun more => stopped (events ++ more)))
    (hstop : ∀ events stop d, stopped' events stop d → stopped events stop d) :
    Traced (f >>= g) c okay stopped := by
  cases run : f c with
  | error stop d =>
    obtain ⟨events, record, post⟩ := first.stopped_of_eq run
    have runs : (f >>= g) c = .error stop d := by
      rw [Session.bind_apply, run]
    exact of_error runs record (hstop events stop d post)
  | ok a d =>
    obtain ⟨events, record, post⟩ := first.ok_of_eq run
    have next := second events a d post
    have runs : (f >>= g) c = g a d := by
      rw [Session.bind_apply, run]
    cases run' : g a d with
    | ok b e =>
      obtain ⟨more, record', post'⟩ := next.ok_of_eq run'
      refine of_ok (runs.trans run') ?_ post'
      rw [record', record, List.append_assoc]
    | error stop e =>
      obtain ⟨more, record', post'⟩ := next.stopped_of_eq run'
      refine of_error (runs.trans run') ?_ post'
      rw [record', record, List.append_assoc]

theorem of_eq {f' : Session (σ × List Event) α} {c' : Recording σ} (h : Traced f' c' ok stopped)
    (run : f c = f' c') (same : c'.machine = c.machine) : Traced f c ok stopped := by
  cases run' : f' c' with
  | ok a d =>
    obtain ⟨events, record, post⟩ := h.ok_of_eq run'
    exact of_ok (run.trans run') (by rw [record, same]) post
  | error stop d =>
    obtain ⟨events, record, post⟩ := h.stopped_of_eq run'
    exact of_error (run.trans run') (by rw [record, same]) post

theorem modify_bind {change : Recording σ → Recording σ} {next : Session (σ × List Event) β}
    {stopped : List Event → Stop → Recording σ → Prop}
    (same : (change c).machine = c.machine) (h : Traced next (change c) okay stopped) :
    Traced ((modify change : Session _ PUnit) >>= fun _ => next) c okay stopped :=
  h.of_eq rfl same

end Traced

/-! ## The machine -/

/-- The input that a console holds. -/
structure Inbox where
  pending : List UInt8
  atEnd : Bool

def Console.inbox (c : Console σ) : Inbox :=
  ⟨c.pending, c.atEnd⟩

@[simp]
theorem Console.pending_inbox (c : Console σ) : c.inbox.pending = c.pending := rfl

@[simp]
theorem Console.atEnd_inbox (c : Console σ) : c.inbox.atEnd = c.atEnd := rfl

theorem Console.inbox_eq_iff {c : Console σ} {inbox : Inbox} :
    c.inbox = inbox ↔ c.pending = inbox.pending ∧ c.atEnd = inbox.atEnd := by
  cases inbox
  simp [inbox]

theorem traced_ask (host : Host σ) (call : Call) (c : Recording σ) :
    Traced (Console.ask host.recorded call) c
      (fun events answer d => events = [.answered call answer] ∧ d.inbox = c.inbox)
      (fun events stop d => events = [.unanswered call] ∧ stop = .neverReturned ∧ d.inbox = c.inbox) := by
  cases h : host.answer call c.machine.1 with
  | mk answer machine =>
    cases answer with
    | some answer =>
      refine Traced.of_ok (d := { c with machine := (machine, c.machine.2 ++ [.answered call answer]) })
        ?_ rfl ⟨rfl, rfl⟩
      simp only [Console.ask, Host.recorded, h]
    | none =>
      refine Traced.of_error (d := { c with machine := (machine, c.machine.2 ++ [.unanswered call]) })
        ?_ rfl ⟨rfl, rfl, rfl⟩
      simp only [Console.ask, Host.recorded, h]

theorem traced_log (host : Host σ) (record : Log.Record) (c : Recording σ) :
    Traced (Console.log host.recorded record.level record.source record.message) c
      (fun events _ d => events = [.logged record] ∧ d.inbox = c.inbox) (fun _ _ _ => False) :=
  Traced.of_ok (d := { c with machine := host.recorded.log record c.machine }) rfl rfl ⟨rfl, rfl⟩

end ProcessDrill
