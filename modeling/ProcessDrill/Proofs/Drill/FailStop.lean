import Mathlib
import ProcessDrill.Machine
import ProcessDrill.Proofs.Drill.Steps
/-!
# A console that fails

A drill fails if and only if a read or a write fails, and then at once: the failure is the last thing in the
record, and the drill reports its error.

Main statement: `run_fails_at_once`, for a valid configuration, any random words, any machine and any state of the
console.
* A drill fails with an error of the console exactly if the last event of its record is a read or write that failed
  with this error, and no event before it did.
* After any failure in the record nothing follows, and the drill fails with its error.
* A drill fails in no other way. It may only not come to its end, as a call does not return, or a token does not end
  within the reads that the session waits for, or the random words run out.
-/

namespace ProcessDrill

set_option autoImplicit false

variable {σ : Type}

namespace Drill

variable {host : Host σ} {config : Config} {bench after : Bench σ}

theorem clean_of_run {t : Termination} (h : run host config bench = .ok t after) :
    Clean (trace host config bench) :=
  (Plan.word_of_happens (run_ok h)).clean

theorem ends_of_run {stop : Stop} (h : run host config bench = .error stop after) :
    Ends (trace host config bench) stop :=
  (run_error h).ends

theorem run_of_failure {before more : List Event} {event : Event} {e : Errno}
    (traced : trace host config bench = before ++ event :: more) (failed : event.failure? = some e) :
    Clean before ∧ more = [] ∧ ∃ after, run host config bench = .error (.console e) after := by
  cases h : run host config bench with
  | ok t after =>
    have clean := clean_of_run h
    rw [traced] at clean
    have := clean.failure? event (by simp)
    rw [failed] at this
    cases this
  | error stop after =>
    have ends := ends_of_run h
    rw [traced] at ends
    obtain ⟨clean, rfl, rfl⟩ := ends.of_failure failed
    exact ⟨clean, rfl, after, rfl⟩

theorem last_of_run_fails {e : Errno} (h : run host config bench = .error (.console e) after) :
    ∃ before last, trace host config bench = before ++ [last] ∧ last.failure? = some e ∧
      ∀ event ∈ before, event.failure? = none := by
  have ends := ends_of_run h
  generalize trace host config bench = events at ends
  cases ends with
  | forced clean forced => exact ⟨_, _, rfl, Event.failure?_of_stop? forced, clean.failure?⟩

theorem last_of_run_hangs (h : run host config bench = .error .neverReturned after) :
    ∃ before call, trace host config bench = before ++ [.unanswered call] := by
  have ends := ends_of_run h
  generalize trace host config bench = events at ends
  cases ends with
  | forced clean forced =>
    obtain ⟨call, rfl⟩ := Event.unanswered_of_stop? forced
    exact ⟨_, call, rfl⟩

/-- A drill fails exactly with the read or write that fails, and nothing follows it. -/
theorem run_fails_at_once (host : Host σ) (config : Config) (bench : Bench σ) (valid : config.Valid) :
    (∀ e, (∃ after, run host config bench = .error (.console e) after) ↔
      ∃ before last, trace host config bench = before ++ [last] ∧ last.failure? = some e ∧
        ∀ event ∈ before, event.failure? = none) ∧
    (∀ before event more e, trace host config bench = before ++ event :: more →
      event.failure? = some e →
      more = [] ∧ ∃ after, run host config bench = .error (.console e) after) ∧
    (∀ stop after, run host config bench = .error stop after →
      (∃ e, stop = .console e) ∨
      stop = .neverReturned ∧
        (∃ before call, trace host config bench = before ++ [.unanswered call]) ∨
      stop = .outOfPatience ∧
        (∀ reads, (∀ s, reads ≤ host.patience s) → reads ≤ (trace host config bench).length) ∨
      stop = .outOfWords) := by
  refine ⟨fun e => ⟨?_, ?_⟩, ?_, ?_⟩
  · rintro ⟨after, h⟩
    exact last_of_run_fails h
  · rintro ⟨before, last, traced, failed, -⟩
    exact (run_of_failure traced failed).2.2
  · intro before event more e traced failed
    exact (run_of_failure traced failed).2
  · intro stop after h
    have breaks := run_error h
    have noFault := breaks.no_fault (Plan.inRange_drill valid)
    cases stop with
    | console e => exact .inl ⟨e, rfl⟩
    | neverReturned => exact .inr (.inl ⟨rfl, last_of_run_hangs h⟩)
    | outOfPatience =>
      exact .inr (.inr (.inl ⟨rfl, fun reads patience => breaks.patient patience⟩))
    | outOfWords => exact .inr (.inr (.inr rfl))
    | fault fault => exact absurd rfl (noFault fault)

theorem first_write_refused :
    ({} : Config).Valid ∧
      ∃ after, run Machine.direct {} ⟨{ machine := { writes := [.raw (-5)] } }, []⟩ =
        .error (.console .eio) after := by
  have valid : ({} : Config).Valid := by decide
  have traced : trace Machine.direct {} ⟨{ machine := { writes := [.raw (-5)] } }, []⟩ =
      [] ++ [.answered (.write (Utf8.encode (menuLine .missingFile))) (.error .eio)] := by
    cbv
  refine ⟨valid, ((run_fails_at_once _ _ _ valid).1 .eio).2 ⟨_, _, traced, rfl, ?_⟩⟩
  simp

end Drill

end ProcessDrill
