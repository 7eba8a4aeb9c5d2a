import ProcessDrill.Proofs.Drill.Series
import ProcessDrill.Proofs.Machine.Scripts
/-!
# Drills behind traps

A machine behind traps answers the calls of a drill as its raw replies say.

Main statement: `refined_by_traps`, for any kernel, whatever it returns to a trap and stores, any call and any state.
* The call makes exactly the trap `Call.trap?`, with the registers `Call.frame?`.
* It is answered with what the reply means, and the kernel is left as the trap leaves it.
* The call that makes no trap, of a program whose name has a zero byte, is refused as an invalid argument.
* So any number of drills behind its traps, and as many on a machine without traps that answers with what the replies
  mean, end alike with the same random words left, and their records are the same. The same holds, for any script of raw
  returns, of drills behind the traps of the scripted machine and on this machine itself, if it refuses names with a
  zero byte and a halt that returns; and it notes the same either way.
-/

namespace ProcessDrill.Drill

set_option autoImplicit false

/-- Drills behind traps are the drills of a machine that answers as the replies to the traps mean. -/
theorem refined_by_traps :
    (∀ (σ : Type) (kernel : TrapHandler σ) (call : Call) (s : σ),
      (∀ past, (kernel.traced.host.answer call (s, past)).2.2 = past ++ call.trap?.toList) ∧
      (∀ address vector, call.trap?.map (Trap.frame address vector) = call.frame? address vector) ∧
      (∀ trap, call.trap? = some trap →
        ∃ decode : Reply → call.Answer, (∀ reply, call.Means reply (decode reply)) ∧
          kernel.host.answer call s = ((kernel.handle trap s).1.map decode, (kernel.handle trap s).2)) ∧
      (call.trap? = none → ∃ name argv, call = .exec name argv ∧ 0 ∈ name ∧
        kernel.host.answer (.exec name argv) s = (some (.error .einval), s))) ∧
    (∀ (σ τ : Type) (kernel : TrapHandler σ) (seam : Host τ) (R : σ → τ → Prop), kernel.Backs seam R →
      ∀ (config : Config) (b : Bench σ) (c : Bench τ) (n : Nat), Bench.Related R b c →
        (series kernel.host config n b).map verdict = (series seam config n c).map verdict ∧
        ∀ i, trace kernel.host config (benchAt kernel.host config b i) =
          trace seam config (benchAt seam config c i)) ∧
    (∀ (config : Config) (bench : Bench Machine) (n : Nat),
      (series Machine.kernel.host config n bench).map verdict =
          (series Machine.direct.refusing config n bench).map verdict ∧
        ∀ i,
          let behind := benchAt Machine.kernel.host config bench i
          let bare := benchAt Machine.direct.refusing config bench i
          trace Machine.kernel.host config behind = trace Machine.direct.refusing config bare ∧
            behind.console.machine.journal = bare.console.machine.journal) := by
  refine ⟨fun σ kernel call s => ⟨?_, ?_, ?_, ?_⟩, ?_, ?_⟩
  · exact kernel.traps_of_call call s
  · exact fun address vector => call.frame_trap? address vector
  · exact fun trap made => kernel.answer_of_reply made s
  · intro none
    obtain ⟨name, argv, rfl, zero⟩ := Call.zero_of_no_trap none
    exact ⟨name, argv, rfl, zero, kernel.answer_of_zero zero argv s⟩
  · intro σ τ kernel seam R backs config b c n related
    obtain ⟨same, each⟩ := series_simulates backs.simulates config related n
    exact ⟨same, fun i => (each i).1⟩
  · intro config bench n
    have begun : Bench.Related (fun s t => s.untrapped = t.untrapped) bench bench := ⟨⟨rfl, rfl, rfl⟩, rfl⟩
    obtain ⟨same, each⟩ := series_simulates Machine.kernel_simulates config begun n
    refine ⟨same, fun i => ⟨(each i).1, ?_⟩⟩
    have noted := congrArg Machine.journal (each i).2.console.machine
    exact noted

end ProcessDrill.Drill
