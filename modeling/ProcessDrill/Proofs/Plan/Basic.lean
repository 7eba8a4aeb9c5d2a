import ProcessDrill.Drill
/-!
# Plans

* A `Step` is one thing that a drill does: it writes, reads a token, makes a call, logs, or draws.
* A `Plan` is a tree of steps, which branches on what comes of each. It knows nothing of a machine;
  `Plan.follow` carries it out on one.
* `Plan.Along R plan` are the records of a plan, if those of its steps are given by `R`.

Main statements: `follow_bind` and `along_bind`, a plan made of two is followed, and leaves records, as its
two parts do one after the other.
-/

namespace ProcessDrill

set_option autoImplicit false

variable {σ α β : Type}

/-! ## Steps -/

/-- Whether a call is none of the console. -/
def Call.isProcess : Call → Bool
  | read _ => false
  | write _ => false
  | _ => true

inductive Step where
  | write (bytes : List UInt8)
  | token (limit : Nat)
  | ask (call : Call) (process : call.isProcess = true)
  | log (record : Log.Record)
  | draw (bound : UInt32)

namespace Step

abbrev Result : Step → Type
  | write _ => Unit
  | token _ => Except InputError Token
  | ask call _ => call.Answer
  | log _ => Unit
  | draw _ => UInt32

def perform (host : Host σ) : (step : Step) → Drill σ step.Result
  | write bytes => Drill.atConsole (Console.writeAll host bytes)
  | token limit => Drill.atConsole (Console.readToken host limit)
  | ask call _ => Drill.atConsole (Console.ask host call)
  | log record => Drill.atConsole (Console.log host record.level record.source record.message)
  | draw bound => Drill.draw bound

end Step

/-! ## Trees -/

/-- Steps in a row, each chosen by what came of those before it. -/
inductive Plan (α : Type) where
  | done (a : α)
  | step (step : Step) (next : step.Result → Plan α)

namespace Plan

def bind : Plan α → (α → Plan β) → Plan β
  | done a, f => f a
  | step s next, f => step s fun result => (next result).bind f

instance : Monad Plan where
  pure := done
  bind := bind

theorem bind_done (plan : Plan α) : plan.bind done = plan := by
  induction plan with
  | done a => rfl
  | step s next ih => exact congrArg (step s) (funext ih)

theorem bind_bind {γ : Type} (plan : Plan α) (f : α → Plan β) (g : β → Plan γ) :
    (plan.bind f).bind g = plan.bind fun a => (f a).bind g := by
  induction plan with
  | done a => rfl
  | step s next ih => exact congrArg (step s) (funext ih)

instance : LawfulMonad Plan :=
  LawfulMonad.mk' Plan bind_done (fun _ _ => rfl) bind_bind

def single (s : Step) : Plan s.Result :=
  step s done

def follow (host : Host σ) : Plan α → Drill σ α
  | done a => pure a
  | step s next => s.perform host >>= fun result => (next result).follow host

@[simp]
theorem follow_bind (host : Host σ) (plan : Plan α) (f : α → Plan β) :
    (plan >>= f).follow host = plan.follow host >>= fun a => (f a).follow host := by
  induction plan with
  | done a =>
    show (f a).follow host = (Pure.pure a : Drill σ α) >>= fun a => (f a).follow host
    rw [pure_bind]
  | step s next ih =>
    show (s.perform host >>= fun result => (next result >>= f).follow host) = _
    simp only [ih, follow, bind_assoc]

@[simp]
theorem follow_single (host : Host σ) (s : Step) : (single s).follow host = s.perform host :=
  bind_pure _

/-! ## Records -/

section Along

variable {S : Type} (R : (s : Step) → S → List Event → s.Result → S → Prop)

/-- The records of a plan from one state to another, with the value it ends in: those of its steps, one
after the other. -/
def Along : Plan α → S → List Event → α → S → Prop
  | done a, before, events, b, after => events = [] ∧ b = a ∧ after = before
  | step s next, before, events, b, after =>
    ∃ first result middle more, R s before first result middle ∧
      Along (next result) middle more b after ∧ events = first ++ more

variable {R}

@[simp]
theorem along_pure {a b : α} {before after : S} {events : List Event} :
    Along R (Pure.pure a) before events b after ↔ events = [] ∧ b = a ∧ after = before :=
  Iff.rfl

theorem along_bind {plan : Plan α} {f : α → Plan β} {before after : S} {events : List Event} {b : β} :
    Along R (plan >>= f) before events b after ↔
      ∃ first a middle more, Along R plan before first a middle ∧
        Along R (f a) middle more b after ∧ events = first ++ more := by
  induction plan generalizing before events with
  | done a =>
    constructor
    · intro h
      exact ⟨[], a, before, events, ⟨rfl, rfl, rfl⟩, h, rfl⟩
    · rintro ⟨_, _, _, more, ⟨rfl, rfl, rfl⟩, h, rfl⟩
      exact h
  | step s next ih =>
    constructor
    · rintro ⟨first, result, middle, more, here, rest, rfl⟩
      obtain ⟨second, a, last, third, along, later, rfl⟩ := (ih result).1 rest
      exact ⟨_, a, last, third, ⟨first, result, middle, second, here, along, rfl⟩, later,
        (List.append_assoc _ _ _).symm⟩
    · rintro ⟨_, a, last, third, ⟨first, result, middle, second, here, along, rfl⟩, later, rfl⟩
      exact ⟨first, result, middle, _, here, (ih result).2 ⟨second, a, last, third, along, later, rfl⟩,
        List.append_assoc _ _ _⟩

@[simp]
theorem along_single {s : Step} {before after : S} {events : List Event} {result : s.Result} :
    Along R (single s) before events result after ↔ R s before events result after := by
  constructor
  · rintro ⟨first, _, _, _, here, ⟨rfl, rfl, rfl⟩, rfl⟩
    rwa [List.append_nil]
  · intro here
    exact ⟨events, result, after, [], here, ⟨rfl, rfl, rfl⟩, (List.append_nil _).symm⟩

theorem Along.map {T : Type} {R' : (s : Step) → T → List Event → s.Result → T → Prop} {f : S → T}
    (h : ∀ s before events result after, R s before events result after →
      R' s (f before) events result (f after))
    {plan : Plan α} {before after : S} {events : List Event} {a : α}
    (along : Along R plan before events a after) : Along R' plan (f before) events a (f after) := by
  induction plan generalizing before events with
  | done a =>
    obtain ⟨rfl, rfl, rfl⟩ := along
    exact ⟨rfl, rfl, rfl⟩
  | step s next ih =>
    obtain ⟨first, result, middle, more, here, rest, rfl⟩ := along
    exact ⟨first, result, f middle, more, h _ _ _ _ _ here, ih result rest, rfl⟩

end Along

end Plan

end ProcessDrill
