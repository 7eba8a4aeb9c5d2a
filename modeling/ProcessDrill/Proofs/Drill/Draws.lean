import Mathlib
import ProcessDrill.Machine
import ProcessDrill.Proofs.Drill.Stages
import ProcessDrill.Proofs.Text.Numbers
/-!
# Random words

A drill draws if and only if it chooses an exercise whose argument is random, and then once, before anything else is
asked of the machine. `Drill.drawings` are the exercises of a series that draw, `Drill.drawn` what they draw.

Main statement: `series_draws`, for a valid configuration and any machine.
* A drill chooses at the console, and what it does then is one bounded draw, before anything else is asked of the
  machine, and a session at the console, if it has chosen an exercise with a bound; else it is a session at the
  console alone.
* So a drill that chooses such an exercise uses up the words of one draw, of a value below the bound. The first
  exercise asks for a program with the digits of the value as its name, the other one for the process of this
  number. If the words hold no value it stops with nothing asked. Any other drill leaves the words as they are.
* What the drills of a series draw, and the words that they leave, depend on the words at hand and on the exercises
  chosen that draw; machines, input and other drills make no difference.
-/

namespace ProcessDrill

set_option autoImplicit false

variable {σ τ : Type}

/-! ## One draw -/

theorem Random.length_lt_of_draw? {bound value : UInt32} {words rest : List UInt32}
    (h : draw? bound words = some (value, rest)) : rest.length < words.length := by
  induction words with
  | nil => cases h
  | cons word words ih =>
    rw [draw?] at h
    split at h
    · cases h
      exact Nat.lt_succ_self _
    · exact Nat.lt_succ_of_lt (ih h)

namespace Plan

/-- An exercise that draws does so before anything else. -/
theorem prepare_draws {config : Config} {x : Exercise} {bound : UInt32} (h : config.bound? x = some bound) :
    ∃ next : UInt32 → Plan (Except InputError (Option Request)),
      prepare config x = draw bound >>= next ∧ ∀ value, (next value).Only (·.isDraw = false) := by
  cases x with
  | missingFile =>
    cases h
    exact ⟨_, rfl, fun value => trivial⟩
  | strangerJoin =>
    cases h
    exact ⟨_, rfl, fun value => (only_opening (fun _ => rfl) _).bind fun _ => trivial⟩
  | _ => cases h

end Plan

namespace Drill

/-- What a drill does once it has chosen. -/
def pursue (host : Host σ) (config : Config) : Option Exercise → Drill σ Termination
  | none => pure .noSelection
  | some x => do
    Console.log host .info .drill ("test case " ++ Text.signed x.number.toInt ++ ": " ++ x.title)
    exercise host config x
    halt host x

theorem follow_pursue (host : Host σ) (config : Config) (selected : Option Exercise) :
    (Plan.pursue config selected).follow host = pursue host config selected := by
  match selected with
  | none => rfl
  | some x =>
    have exercise := Plan.follow_exercise host config x
    rw [Plan.follow_bind] at exercise
    simp only [Plan.pursue, Plan.start, Plan.finish, Plan.follow_bind, Plan.follow_log, Plan.follow_halt, bind_assoc,
      pursue, ← exercise]
    rfl

theorem run_eq_pursue (host : Host σ) (config : Config) :
    run host config = atConsole (choose host) >>= pursue host config := by
  rw [← Plan.follow_drill, Plan.drill_eq, Plan.follow_bind, follow_choice]
  congr 1
  funext selected
  exact follow_pursue host config selected

theorem pursue_draws {config : Config} {x : Exercise} {bound : UInt32} (host : Host σ)
    (h : config.bound? x = some bound) : ∃ calls : UInt32 → Session σ Termination,
      pursue host config (some x) =
        (atConsole (Console.log host .info .drill
          ("test case " ++ Text.signed x.number.toInt ++ ": " ++ x.title)) >>= fun _ =>
        draw bound >>= fun value => atConsole (calls value)) := by
  obtain ⟨next, prepare, noDraw⟩ := Plan.prepare_draws h
  choose calls follows using fun value =>
    ((noDraw value).bind fun prepared => Plan.noDraw_finish x prepared).exists_session host
  refine ⟨calls, ?_⟩
  rw [← follow_pursue, Plan.pursue, Plan.start, prepare, bind_assoc, bind_assoc]
  simp only [Plan.follow_bind, Plan.follow_log, Plan.follow_draw, ← follows]

theorem pursue_drawless {config : Config} {selected : Option Exercise} (host : Host σ)
    (h : selected.bind config.bound? = none) :
    ∃ calls : Session σ Termination, pursue host config selected = atConsole calls := by
  rw [← follow_pursue]
  match selected with
  | none => exact ⟨pure .noSelection, rfl⟩
  | some x => exact ((Plan.noDraw_start h).bind fun prepared => Plan.noDraw_finish x prepared).exists_session host

/-! ## The words of one drill -/

/-- The words that a choice leaves. -/
def wordsAfter (config : Config) (words : List UInt32) (selected : Option Exercise) : List UInt32 :=
  match selected.bind config.bound? with
  | some bound => (Random.draw? bound words).elim [] Prod.snd
  | none => words

theorem wordsAfter_of_bound {config : Config} {words : List UInt32} {x : Exercise} {bound : UInt32}
    (h : config.bound? x = some bound) :
    wordsAfter config words (some x) = (Random.draw? bound words).elim [] Prod.snd := by
  rw [wordsAfter, Option.bind_some, h]

theorem log_bind_apply {α : Type} (host : Host σ) (level : Log.Level) (source : Log.Source) (message : String)
    (f : Unit → Drill σ α) (bench : Bench σ) :
    (atConsole (Console.log host level source message) >>= f) bench =
      f () { bench with
        console := { bench.console with machine := host.log ⟨level, source, message⟩ bench.console.machine } } := rfl

theorem words_draw {α : Type} {bound : UInt32} (nonzero : bound ≠ 0) (calls : UInt32 → Session σ α) (bench : Bench σ) :
    (leftBy ((draw bound >>= fun value => atConsole (calls value)) bench)).words =
      (Random.draw? bound bench.words).elim [] Prod.snd := by
  simp only [Bind.bind, EStateM.bind, draw, if_neg nonzero]
  cases Random.draw? bound bench.words with
  | none => rfl
  | some drawn => exact words_atConsole _ _

theorem words_pursue {config : Config} (valid : config.Valid) (host : Host σ) (selected : Option Exercise)
    (bench : Bench σ) :
    (leftBy (pursue host config selected bench)).words = wordsAfter config bench.words selected := by
  rw [wordsAfter]
  cases draws : selected.bind config.bound? with
  | none =>
    obtain ⟨calls, eq⟩ := pursue_drawless host draws
    rw [eq]
    exact words_atConsole calls bench
  | some bound =>
    obtain ⟨x, rfl, bounded⟩ := Option.bind_eq_some_iff.1 draws
    obtain ⟨calls, eq⟩ := pursue_draws host bounded
    rw [eq, log_bind_apply]
    exact words_draw (valid.bound_ne bounded) calls _

theorem words_left {config : Config} (valid : config.Valid) (host : Host σ) (bench : Bench σ) :
    (left host config bench).words = wordsAfter config bench.words (selected host bench) := by
  rw [left, run_eq_pursue, selected]
  simp only [Bind.bind, EStateM.bind, atConsole]
  cases choose host bench.console with
  | error stop c => rfl
  | ok selected c => exact words_pursue valid host selected { bench with console := c }

/-- A drill whose words hold no number for its exercise stops there. -/
theorem run_of_no_draw {config : Config} {host : Host σ} {bench : Bench σ} {x : Exercise} {bound : UInt32}
    (nonzero : bound ≠ 0) (chosen : selected host bench = some x) (bounded : config.bound? x = some bound)
    (none : Random.draw? bound bench.words = none) :
    ∃ after, run host config bench = .error .outOfWords after := by
  obtain ⟨calls, eq⟩ := pursue_draws host bounded
  rw [selected] at chosen
  rw [run_eq_pursue]
  simp only [Bind.bind, EStateM.bind, atConsole]
  generalize choose host bench.console = choice at chosen
  cases choice with
  | error stop c => cases chosen
  | ok selected c =>
    obtain rfl : selected = some x := chosen
    show ∃ after, pursue host config (some x) { bench with console := c } = .error .outOfWords after
    rw [eq, log_bind_apply]
    simp only [Bind.bind, EStateM.bind, draw, if_neg nonzero, none]
    exact ⟨_, rfl⟩

/-! ## The calls of one drill -/

section

variable {host : Host σ} {config : Config} {bench : Bench σ} {x : Exercise} {bound : UInt32}

/-- A drill that draws comes to no call but that of its request, which has what was drawn, and the halt. -/
theorem calls_of_bound (chosen : selected host bench = some x) (bounded : config.bound? x = some bound) :
    processCalls (trace host config bench) = [] ∨ ∃ value rest r,
      Random.draw? bound bench.words = some (value, rest) ∧ request? config bench.words none x = some r ∧
      processCalls (trace host config bench) <+: [r.call, .halt] := by
  rcases (processCalls (trace host config bench)).eq_nil_or_concat with nil | ⟨others, call, eq⟩
  · exact .inl nil
  · have mem : call ∈ processCalls (trace host config bench) := by
      rw [eq]
      simp
    obtain ⟨y, prepared, first, middle, reaches⟩ := reaches_of_call mem
    obtain rfl : y = x := Option.some_inj.1 (reaches.selected_eq.symm.trans chosen)
    obtain ⟨-, after, prepares⟩ := reaches.prepares fun _ => rfl
    cases prepares with
    | missingFile drawn =>
      cases bounded
      exact .inr ⟨_, _, _, drawn, congrArg (Option.map _) drawn, (reaches.calls rfl).2⟩
    | strangerJoin drawn =>
      cases bounded
      exact .inr ⟨_, _, _, drawn, congrArg (Option.map _) drawn, (reaches.calls rfl).2⟩
    | _ => cases bounded

theorem calls_of_drawn {r : Request} (chosen : selected host bench = some x) (bounded : config.bound? x = some bound)
    (requested : request? config bench.words none x = some r) :
    processCalls (trace host config bench) <+: [r.call, .halt] := by
  rcases calls_of_bound chosen bounded with nil | ⟨_, _, r', -, requested', calls⟩
  · rw [nil]
    exact List.nil_prefix
  · obtain rfl : r' = r := Option.some_inj.1 (requested'.symm.trans requested)
    exact calls

theorem calls_of_undrawn (chosen : selected host bench = some x) (bounded : config.bound? x = some bound)
    (undrawn : Random.draw? bound bench.words = none) : processCalls (trace host config bench) = [] := by
  rcases calls_of_bound chosen bounded with nil | ⟨_, _, _, drawn, -⟩
  · exact nil
  · rw [undrawn] at drawn
    cases drawn

end

/-! ## The words of a series -/

/-- The exercise of a drill, if it draws its argument. -/
def drawing? (host : Host σ) (config : Config) (bench : Bench σ) : Option Exercise :=
  (selected host bench).filter fun x => (config.bound? x).isSome

/-- The number that an exercise draws, if the words hold one. -/
def value? (config : Config) (words : List UInt32) (x : Exercise) : Option UInt32 :=
  (config.bound? x).bind fun bound => (Random.draw? bound words).map Prod.fst

/-- The exercises that draw, of the first drills of a series. -/
def drawings (host : Host σ) (config : Config) (bench : Bench σ) (n : Nat) : List Exercise :=
  (List.range n).filterMap fun i => drawing? host config (benchAt host config bench i)

/-- What the first drills of a series draw. -/
def drawn (host : Host σ) (config : Config) (bench : Bench σ) (n : Nat) : List (Option UInt32) :=
  (List.range n).filterMap fun i =>
    (drawing? host config (benchAt host config bench i)).map
      (value? config (benchAt host config bench i).words)

/-- One draw after the other from the same words: what is drawn, and what is left. -/
def drawAll (config : Config) (words : List UInt32) (exercises : List Exercise) :
    List (Option UInt32) × List UInt32 :=
  exercises.foldl (fun (values, words) x => (values ++ [value? config words x], wordsAfter config words (some x)))
    ([], words)

theorem filterMap_range_succ {α : Type} (f : Nat → Option α) (n : Nat) :
    (List.range (n + 1)).filterMap f = (List.range n).filterMap f ++ (f n).toList := by
  rw [List.range_succ, List.filterMap_append, List.filterMap_cons, List.filterMap_nil]
  cases f n <;> rfl

theorem drawings_succ (host : Host σ) (config : Config) (bench : Bench σ) (n : Nat) :
    drawings host config bench (n + 1) =
      drawings host config bench n ++ (drawing? host config (benchAt host config bench n)).toList :=
  filterMap_range_succ _ n

theorem drawn_succ (host : Host σ) (config : Config) (bench : Bench σ) (n : Nat) :
    drawn host config bench (n + 1) = drawn host config bench n ++
      ((drawing? host config (benchAt host config bench n)).map
        (value? config (benchAt host config bench n).words)).toList :=
  filterMap_range_succ _ n

theorem wordsAfter_drawing (host : Host σ) (config : Config) (bench : Bench σ) :
    wordsAfter config bench.words (drawing? host config bench) =
      wordsAfter config bench.words (selected host bench) := by
  rw [drawing?]
  cases selected host bench with
  | none => rfl
  | some x =>
    rw [Option.filter_some]
    cases bounded : config.bound? x with
    | some bound => rfl
    | none => simp [wordsAfter, bounded]

/-- What a series draws and leaves depends on the words and on the exercises that draw, and on nothing else. -/
theorem drawAll_drawings {config : Config} (valid : config.Valid) (host : Host σ) (bench : Bench σ) (n : Nat) :
    drawAll config bench.words (drawings host config bench n) =
      (drawn host config bench n, (benchAt host config bench n).words) := by
  induction n with
  | zero => rfl
  | succ n ih =>
    have left := words_left valid host (benchAt host config bench n)
    -- a drill that draws nothing leaves the words as they are, so none but those that draw count
    rw [← wordsAfter_drawing] at left
    have next : (benchAt host config bench (n + 1)).words = _ := left
    rw [drawAll] at ih
    rw [drawAll, drawings_succ, drawn_succ, List.foldl_append, ih, next]
    cases drawing? host config (benchAt host config bench n) with
    | none =>
      rw [Option.map_none, Option.toList_none, Option.toList_none, List.append_nil]
      rfl
    | some x => rfl

/-- Drills of a valid configuration draw once for each exercise with a bound that they choose, and what they draw depends
on the words at hand and on these exercises alone. -/
theorem series_draws (config : Config) (valid : config.Valid) :
    (∀ (σ : Type) (host : Host σ),
      run host config = atConsole (choose host) >>= pursue host config ∧
      (∀ x bound, config.bound? x = some bound → ∃ calls : UInt32 → Session σ Termination,
        pursue host config (some x) =
          (atConsole (Console.log host .info .drill
            ("test case " ++ Text.signed x.number.toInt ++ ": " ++ x.title)) >>= fun _ =>
          draw bound >>= fun value => atConsole (calls value))) ∧
      (∀ selected, selected.bind config.bound? = none →
        ∃ calls : Session σ Termination, pursue host config selected = atConsole calls)) ∧
    (∀ (σ : Type) (host : Host σ) (bench : Bench σ),
      ((selected host bench).bind config.bound? = none → (left host config bench).words = bench.words) ∧
      ∀ x bound, selected host bench = some x → config.bound? x = some bound →
        (∀ value rest, Random.draw? bound bench.words = some (value, rest) →
          value < bound ∧ (left host config bench).words = rest ∧ rest.length < bench.words.length ∧
          (x = .missingFile → ∃ name, Text.IsDecimal value.toNat name ∧
            processCalls (trace host config bench) <+: [.exec name .empty, .halt]) ∧
          (x = .strangerJoin → ∃ pid : Pid, pid.raw.toNat = value.toNat ∧
            processCalls (trace host config bench) <+: [.join pid, .halt])) ∧
        (Random.draw? bound bench.words = none →
          (left host config bench).words = [] ∧ processCalls (trace host config bench) = [] ∧
          ∃ after, run host config bench = .error .outOfWords after)) ∧
    (∀ (σ τ : Type) (first : Host σ) (second : Host τ) (b : Bench σ) (c : Bench τ) (n m : Nat),
      b.words = c.words → drawings first config b n = drawings second config c m →
        drawn first config b n = drawn second config c m ∧
          (benchAt first config b n).words = (benchAt second config c m).words) := by
  refine ⟨fun σ host => ⟨run_eq_pursue host config, fun x bound => pursue_draws host, fun selected =>
    pursue_drawless host⟩, fun σ host bench => ?_, fun σ τ first second b c n m words same => ?_⟩
  · have words := words_left valid host bench
    refine ⟨fun draws => ?_, fun x bound chosen bounded => ⟨fun value rest drawn => ?_, fun undrawn => ?_⟩⟩
    · rwa [wordsAfter, draws] at words
    · rw [chosen, wordsAfter_of_bound bounded, drawn] at words
      refine ⟨Random.draw?_lt (valid.bound_ne bounded) drawn, words, Random.length_lt_of_draw? drawn, ?_, ?_⟩
      · rintro rfl
        cases bounded
        exact ⟨_, isDecimal_fileName value, calls_of_drawn chosen rfl (congrArg (Option.map _) drawn)⟩
      · rintro rfl
        cases bounded
        exact ⟨_, UInt32.toNat_toUInt64 value, calls_of_drawn chosen rfl (congrArg (Option.map _) drawn)⟩
    · rw [chosen, wordsAfter_of_bound bounded, undrawn] at words
      exact ⟨words, calls_of_undrawn chosen bounded undrawn,
        run_of_no_draw (valid.bound_ne bounded) chosen bounded undrawn⟩
  · have first_eq := drawAll_drawings valid first b n
    have second_eq := drawAll_drawings valid second c m
    rw [words, same, second_eq] at first_eq
    obtain ⟨drawn_eq, words_eq⟩ := Prod.mk.inj first_eq
    exact ⟨drawn_eq.symm, words_eq.symm⟩

/-- The first exercise is chosen, and the first of two words is used up for the name of its file. -/
theorem first_word_drawn :
    ({} : Config).Valid ∧
      let bench : Bench Machine := ⟨{ machine := { reads := [.bytes [49, 10]] } }, [3000000000, 7]⟩
      (left Machine.direct {} bench).words = [7] ∧ ∃ name, Text.IsDecimal 69 name ∧
        processCalls (trace Machine.direct {} bench) <+: [.exec name .empty, .halt] := by
  have valid : ({} : Config).Valid := by decide
  refine ⟨valid, ?_⟩
  intro bench
  have chosen : selected Machine.direct bench = some .missingFile := by
    cbv
  have drawn : Random.draw? 99 bench.words = some (69, [7]) := by
    decide
  have draws := ((series_draws {} valid).2.1 Machine Machine.direct bench).2 .missingFile 99 chosen rfl
  obtain ⟨-, words, -, calls, -⟩ := draws.1 69 [7] drawn
  exact ⟨words, calls rfl⟩

end Drill

end ProcessDrill
