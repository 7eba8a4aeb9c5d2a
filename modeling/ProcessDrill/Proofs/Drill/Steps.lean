import ProcessDrill.Proofs.Drill.Plan
/-!
# The steps of a drill

The steps of each part of a drill, by their kinds. A part draws only below the bound of its exercise, only the
choice and the preparation read tokens, and only what comes behind a preparation makes calls that are none of the
console. Main statement: `Plan.only_drill`, and the same of the parts of a drill.
-/

namespace ProcessDrill

set_option autoImplicit false

/-! ## Bounds -/

/-- The bound below which an exercise draws its argument, if it draws one. -/
def Config.bound? (config : Config) : Exercise → Option UInt32
  | .missingFile => some config.fileNameBound
  | .strangerJoin => some config.pidBound
  | _ => none

theorem Config.Valid.bound_ne {config : Config} (valid : config.Valid) {x : Exercise} {bound : UInt32}
    (h : config.bound? x = some bound) : bound ≠ 0 := by
  cases x with
  | missingFile =>
    obtain rfl := Option.some_inj.1 h
    exact valid.fileNameBound_ne
  | strangerJoin =>
    obtain rfl := Option.some_inj.1 h
    exact valid.pidBound_ne
  | _ => cases h

/-- A bench is made for valid configurations only. -/
theorem Config.valid_of_new {σ : Type} {machine : σ} {words : List UInt32} {config : Config} {bench : Bench σ}
    (built : Bench.new machine words config = .ok bench) : config.Valid := by
  rw [← Config.check_eq_ok_iff]
  cases checked : config.check with
  | ok u => rfl
  | error failure =>
    rw [Bench.new, checked] at built
    cases built

/-! ## Records -/

/-- Whether a record names the exercise that was chosen. -/
def Log.Record.isTitle (r : Log.Record) : Bool :=
  r.level == .info && r.source == .drill

/-! ## Parts -/

namespace Plan

variable {kind : Step → Prop}

section

variable (write : ∀ bytes, kind (.write bytes))
include write

theorem only_printLine (line : String) : (printLine line).Only kind :=
  (Only.single (write _)).bind fun _ => .single (write _)

theorem only_printLines (lines : List String) : (printLines lines).Only kind := by
  induction lines with
  | nil => trivial
  | cons line lines ih => exact (only_printLine write line).bind fun _ => ih

theorem only_opening (x : Exercise) : (opening x).Only kind :=
  only_printLines write _

end

section

variable (token : ∀ limit, kind (.token limit))
include token

theorem only_readInt : readInt.Only kind :=
  (Only.single (token _)).bind fun _ => trivial

theorem only_readName (capacity : Nat) : (readName capacity).Only kind :=
  (Only.single (token _)).bind fun _ => trivial

theorem only_selection (log : ∀ record, record.isTitle = false → kind (.log record)) : selection.Only kind := by
  refine (only_readInt token).bind fun result => ?_
  match result with
  | .error e => exact (Only.single (log _ rfl)).bind fun _ => trivial
  | .ok choice =>
    dsimp only
    split
    · trivial
    · exact (Only.single (log _ rfl)).bind fun _ => trivial

theorem only_prepare (write : ∀ bytes, kind (.write bytes)) {config : Config} {x : Exercise}
    (draw : ∀ bound, config.bound? x = some bound → kind (.draw bound)) : (prepare config x).Only kind := by
  have opening := only_opening write x
  have name := only_readName token config.nameCapacity
  have int := only_readInt token
  cases x with
  | missingFile => exact (Only.single (draw _ rfl)).bind fun _ => trivial
  | nullArguments => exact opening.bind fun _ => name.bind fun _ => trivial
  | execFailure => exact opening.bind fun _ => trivial
  | strangerJoin => exact (Only.single (draw _ rfl)).bind fun _ => opening.bind fun _ => trivial
  | runProgram => exact opening.bind fun _ => name.bind fun _ => trivial
  | joinChild => exact opening.bind fun _ => int.bind fun _ => trivial
  | exitProcess => exact opening.bind fun _ => int.bind fun _ => trivial

end

section

variable (write : ∀ bytes, kind (.write bytes)) (ask : ∀ call process, kind (.ask call process))
variable (log : ∀ record, record.isTitle = false → kind (.log record))
include write ask log

theorem only_request (r : Request) : (request r).Only kind := by
  refine (Only.single (log _ rfl)).bind fun _ => ?_
  refine (Only.single (ask _ _)).bind fun answer => ?_
  exact (Only.single (log _ rfl)).bind fun _ => only_printLine write _

theorem only_settle (x : Exercise) (prepared : Except InputError (Option Request)) :
    (settle x prepared).Only kind := by
  match prepared with
  | .ok (some r) => exact only_request write ask log r
  | .ok none => trivial
  | .error e => exact (Only.single (log _ rfl)).bind fun _ => only_printLine write _

theorem only_halt (x : Exercise) : (halt x).Only kind := by
  refine (Only.single (log _ rfl)).bind fun _ => ?_
  refine (Only.single (ask _ _)).bind fun answer => ?_
  match answer with
  | .ok () => trivial
  | .error e => exact (Only.single (log _ rfl)).bind fun _ => (only_printLine write _).bind fun _ => trivial

end

theorem only_drill (write : ∀ bytes, kind (.write bytes)) (ask : ∀ call process, kind (.ask call process))
    (log : ∀ record, kind (.log record)) (token : ∀ limit, kind (.token limit)) {config : Config}
    (draw : ∀ x bound, config.bound? x = some bound → kind (.draw bound)) : (drill config).Only kind := by
  have log' (record : Log.Record) (_ : record.isTitle = false) := log record
  refine (only_printLines write _).bind fun _ => (only_selection token log').bind fun selected => ?_
  match selected with
  | none => trivial
  | some x =>
    refine (Only.single (log _)).bind fun _ => ?_
    refine (only_prepare token write (draw x)).bind fun prepared => ?_
    exact (only_settle write ask log' x prepared).bind fun _ => only_halt write ask log' x

theorem inRange_drill {config : Config} (valid : config.Valid) : (drill config).InRange := by
  refine Only.inRange (only_drill (fun _ => nofun) (fun _ _ => nofun) (fun _ => nofun) (fun _ => nofun) ?_)
  intro x bound h empty
  exact valid.bound_ne h (Step.draw.inj empty)

end Plan

end ProcessDrill
