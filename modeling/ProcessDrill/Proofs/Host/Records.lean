import ProcessDrill.Proofs.Host.Simulation
import ProcessDrill.Proofs.Trace.Session
/-!
# What a session leaves on record

`Session.record` is the record that a session leaves on a machine that keeps one. Such a machine answers as it
does without, so by `Traced.plain` what is known of the record and the console there is known of the session on
the plain machine.
-/

namespace ProcessDrill

set_option autoImplicit false

open Console

variable {σ α β : Type}

def Session.record (f : Session (σ × List Event) α) (c : Console σ) : List Event :=
  (leftBy (f c.recorded)).machine.2

theorem Session.leftBy_bind_pure (f : Session σ α) (g : α → β) (c : Console σ) :
    leftBy ((f >>= fun a => pure (g a)) c) = leftBy (f c) := by
  rw [bind_apply]
  cases f c <;> rfl

theorem Session.record_bind_pure (f : Session (σ × List Event) α) (g : α → β) (c : Console σ) :
    record (f >>= fun a => pure (g a)) c = record f c := by
  rw [record, record, leftBy_bind_pure]

theorem Traced.plain {f : Session (σ × List Event) α} {g : Session σ α} {c : Console σ}
    {ok : List Event → α → Recording σ → Prop} {stopped : List Event → Stop → Recording σ → Prop}
    (traced : Traced f c.recorded ok stopped) (agree : Agree (Related fun s t => s.1 = t) f g) :
    match g c with
    | .ok a d => ∃ e, ok (Session.record f c) a e ∧ Related (fun s t => s.1 = t) e d
    | .error stop d => ∃ e, stopped (Session.record f c) stop e ∧ Related (fun s t => s.1 = t) e d := by
  have alike := agree c.recorded c ⟨rfl, rfl, rfl⟩
  cases run : g c with
  | ok a d =>
    rw [run] at alike
    obtain ⟨e, run', related⟩ := alike.of_ok
    obtain ⟨events, record, post⟩ := traced.ok_of_eq run'
    obtain rfl : Session.record f c = events := by
      rw [Session.record, run']
      exact record
    exact ⟨e, post, related⟩
  | error stop d =>
    rw [run] at alike
    obtain ⟨e, run', related⟩ := alike.of_error
    obtain ⟨events, record, post⟩ := traced.stopped_of_eq run'
    obtain rfl : Session.record f c = events := by
      rw [Session.record, run']
      exact record
    exact ⟨e, post, related⟩

theorem Console.Related.inbox_eq {c : Recording σ} {d : Console σ}
    (h : Related (fun s t => s.1 = t) c d) : c.inbox = d.inbox :=
  inbox_eq_iff.2 ⟨h.pending, h.atEnd⟩

end ProcessDrill
