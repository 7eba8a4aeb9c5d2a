import ProcessDrill.Proofs.Plan.Parts
import ProcessDrill.Proofs.Plan.Records
/-!
# Calls in the log

`Call.announcement?` is the record that goes before a call that is none of the console, and `Event.finding?` the one
that goes behind its answer. All else that is logged are plain remarks.
* `Noted events`: in this record each such call stands between its announcement and its finding.
* `Plan.Notes plan`: the plan logs before and behind each of its calls, whatever it is answered.

Main statements: `Plan.Notes.noted`, such a plan leaves such a record, to its end or to any stop; `Noted.paired`, what
stands next to an event of such a record is as `Event.Paired` says.
* A call that is none of the console stands behind the record that announces it, and before the record of what was
  found, unless it is a halt that was granted, or did not return and is the last event.
* Behind a record for debugging stands the call that it announces.
* Before a record with the form of a finding stands the call whose answer it tells.
-/

namespace ProcessDrill

set_option autoImplicit false

variable {σ α β : Type}

/-! ## Findings and remarks -/

/-- A record with the form of a finding: an answer to an exercise, or the refusal of the halt. -/
def Log.Record.IsFinding (r : Log.Record) : Prop :=
  r.level = .info ∧ r.source = .exercise ∨ r.level = .warn ∧ "halt refused: ".toList <+: r.message.toList

/-- A record that goes with no call. -/
def Log.Record.IsRemark (r : Log.Record) : Prop :=
  r.level ≠ .debug ∧ ¬ r.IsFinding

theorem Call.isProcess_of_announcement? {call : Call} {r : Log.Record} (h : call.announcement? = some r) :
    call.isProcess = true ∧ r.level = .debug := by
  cases call <;> cases h <;> exact ⟨rfl, rfl⟩

theorem Event.isFinding_of_finding? {event : Event} {r : Log.Record} (h : event.finding? = some r) :
    r.level ≠ .debug ∧ r.IsFinding := by
  have told (message : String) : Log.Level.info ≠ .debug ∧ Log.Record.IsFinding ⟨.info, .exercise, message⟩ :=
    ⟨nofun, .inl ⟨rfl, rfl⟩⟩
  cases event with
  | answered call answer =>
    cases call with
    | exec name argv => cases h; exact told _
    | join pid => cases h; exact told _
    | exit status => cases h; exact told _
    | halt =>
      cases answer with
      | ok => cases h
      | error e =>
        cases h
        refine ⟨nofun, .inr ⟨rfl, ?_⟩⟩
        rw [String.toList_append]
        exact List.prefix_append _ _
    | read buffer => cases h
    | write bytes => cases h
  | unanswered call => cases h
  | logged record => cases h

theorem Event.granted_of_finding? {call : Call} {answer : call.Answer} (process : call.isProcess = true)
    (h : (answered call answer).finding? = none) : answered call answer = .answered .halt (.ok ()) := by
  match call, answer with
  | .exec _ _, _ => cases h
  | .join _, _ => cases h
  | .exit _, _ => cases h
  | .halt, .ok () => rfl
  | .halt, .error _ => cases h
  | .read _, _ => cases process
  | .write _, _ => cases process

/-- What stands next to an event of a record: a call between its announcement and its finding, and neither of these
without the call. -/
structure Event.Paired (before : List Event) (event : Event) (after : List Event) : Prop where
  call : ∀ call, event.call? = some call → call.isProcess = true →
    (∃ earlier r, call.announcement? = some r ∧ before = earlier ++ [.logged r]) ∧
      ((∃ r later, event.finding? = some r ∧ after = .logged r :: later) ∨ event = .answered .halt (.ok ()) ∨
        event = .unanswered call ∧ after = [])
  announcement : ∀ r, event = .logged r → r.level = .debug →
    ∃ call event' later, after = event' :: later ∧ event'.call? = some call ∧ call.announcement? = some r
  finding : ∀ r, event = .logged r → r.IsFinding →
    ∃ earlier event', before = earlier ++ [event'] ∧ event'.finding? = some r

namespace Event.Paired

variable {before after : List Event} {event first : Event}

theorem shift (h : Paired before event after) : Paired (first :: before) event after where
  call call asked process := by
    obtain ⟨⟨earlier, r, announced, rfl⟩, behind⟩ := h.call call asked process
    exact ⟨⟨first :: earlier, r, announced, rfl⟩, behind⟩
  announcement := h.announcement
  finding r logged isFinding := by
    obtain ⟨earlier, event', rfl, found⟩ := h.finding r logged isFinding
    exact ⟨first :: earlier, event', rfl, found⟩

theorem of_console (h : event.IsConsole) : Paired before event after where
  call call asked process := by
    rcases h with ⟨_, read⟩ | ⟨_, write⟩
    · cases asked.symm.trans read
      cases process
    · cases asked.symm.trans write
      cases process
  announcement r logged := by
    subst logged
    rcases h with ⟨_, no⟩ | ⟨_, no⟩ <;> cases no
  finding r logged := by
    subst logged
    rcases h with ⟨_, no⟩ | ⟨_, no⟩ <;> cases no

theorem of_remark {r : Log.Record} (h : r.IsRemark) : Paired before (.logged r) after where
  call _ asked := by cases asked
  announcement _ logged debug := by
    cases logged
    exact absurd debug h.1
  finding _ logged isFinding := by
    cases logged
    exact absurd isFinding h.2

theorem of_announcement {r : Log.Record} {call : Call} (announced : call.announcement? = some r)
    (asked : event.call? = some call) :
    Paired before (.logged r) (event :: after) where
  call _ asked := by cases asked
  announcement _ logged _ := by
    cases logged
    exact ⟨call, event, after, rfl, asked, announced⟩
  finding _ logged isFinding := by
    cases logged
    have debug := (Call.isProcess_of_announcement? announced).2
    rcases isFinding with ⟨info, -⟩ | ⟨warn, -⟩
    · cases debug.symm.trans info
    · cases debug.symm.trans warn

theorem of_finding (before : List Event) {r : Log.Record} (found : event.finding? = some r) :
    Paired (before ++ [event]) (.logged r) after where
  call _ asked := by cases asked
  announcement _ logged debug := by
    cases logged
    exact absurd debug (Event.isFinding_of_finding? found).1
  finding _ logged _ := by
    cases logged
    exact ⟨before, event, rfl, found⟩

theorem of_answered (before : List Event) {r : Log.Record} {call : Call} (announced : call.announcement? = some r)
    (asked : event.call? = some call)
    (told : (∃ r later, event.finding? = some r ∧ after = .logged r :: later) ∨ event = .answered .halt (.ok ()) ∨
      event = .unanswered call ∧ after = []) : Paired (before ++ [.logged r]) event after where
  call _ asked' _ := by
    cases asked.symm.trans asked'
    exact ⟨⟨before, r, announced, rfl⟩, told⟩
  announcement _ logged := by
    subst logged
    cases asked
  finding _ logged := by
    subst logged
    cases asked

end Event.Paired

/-- In this record every call that is none of the console stands behind its announcement and before its finding. It is
the last event if it is not answered. -/
inductive Noted : List Event → Prop
  | nil : Noted []
  | console {event : Event} {rest : List Event} (h : event.IsConsole) (later : Noted rest) : Noted (event :: rest)
  | remark {r : Log.Record} {rest : List Event} (h : r.IsRemark) (later : Noted rest) : Noted (.logged r :: rest)
  | found {call : Call} {answer : call.Answer} {r r' : Log.Record} {rest : List Event}
      (announced : call.announcement? = some r) (found : (Event.answered call answer).finding? = some r')
      (later : Noted rest) : Noted (.logged r :: .answered call answer :: .logged r' :: rest)
  | granted {r : Log.Record} {rest : List Event} (announced : Call.halt.announcement? = some r) (later : Noted rest) :
      Noted (.logged r :: .answered .halt (.ok ()) :: rest)
  | unanswered {call : Call} {r : Log.Record} (announced : call.announcement? = some r) :
      Noted [.logged r, .unanswered call]

namespace Noted

variable {events before after : List Event}

theorem behind_console (h : ∀ event ∈ before, event.IsConsole) (later : Noted after) : Noted (before ++ after) := by
  induction before with
  | nil => exact later
  | cons event before ih =>
    rw [List.forall_mem_cons] at h
    exact .console h.1 (ih h.2)

theorem paired (h : Noted events) {event : Event} (eq : events = before ++ event :: after) :
    Event.Paired before event after := by
  induction h generalizing before with
  | nil => simp at eq
  | console console later ih =>
    rcases List.cons_eq_append_iff.1 eq with ⟨rfl, here⟩ | ⟨inner, rfl, inside⟩
    · cases here
      exact .of_console console
    · exact (ih inside).shift
  | remark plain later ih =>
    rcases List.cons_eq_append_iff.1 eq with ⟨rfl, here⟩ | ⟨inner, rfl, inside⟩
    · cases here
      exact .of_remark plain
    · exact (ih inside).shift
  | found announced found later ih =>
    rcases List.cons_eq_append_iff.1 eq with ⟨rfl, here⟩ | ⟨_, rfl, eq'⟩
    · cases here
      exact .of_announcement announced rfl
    rcases List.cons_eq_append_iff.1 eq' with ⟨rfl, here⟩ | ⟨_, rfl, eq''⟩
    · cases here
      exact .of_answered [] announced rfl (.inl ⟨_, _, found, rfl⟩)
    rcases List.cons_eq_append_iff.1 eq'' with ⟨rfl, here⟩ | ⟨inner, rfl, inside⟩
    · cases here
      exact .of_finding [_] found
    · exact (ih inside).shift.shift.shift
  | granted announced later ih =>
    rcases List.cons_eq_append_iff.1 eq with ⟨rfl, here⟩ | ⟨_, rfl, eq'⟩
    · cases here
      exact .of_announcement announced rfl
    rcases List.cons_eq_append_iff.1 eq' with ⟨rfl, here⟩ | ⟨inner, rfl, inside⟩
    · cases here
      exact .of_answered [] announced rfl (.inr (.inl rfl))
    · exact (ih inside).shift.shift
  | unanswered announced =>
    rcases List.cons_eq_append_iff.1 eq with ⟨rfl, here⟩ | ⟨_, rfl, eq'⟩
    · cases here
      exact .of_announcement announced rfl
    rcases List.cons_eq_append_iff.1 eq' with ⟨rfl, here⟩ | ⟨inner, rfl, inside⟩
    · cases here
      exact .of_answered [] announced rfl (.inr (.inr ⟨rfl, rfl⟩))
    · simp at inside

end Noted

/-! ## Plans that note their calls -/

/-- Steps that neither log nor ask. -/
def Step.isSilent : Step → Bool
  | ask _ _ => false
  | log _ => false
  | _ => true

theorem Step.Word.isConsole {step : Step} {events : List Event} {result : step.Result} (h : step.Word events result)
    (silent : step.isSilent = true) : ∀ event ∈ events, event.IsConsole := by
  cases step with
  | write bytes => exact fun event mem => .inr (Written.isWrite h event mem)
  | token limit => exact Refills.isConsole h
  | draw bound =>
    obtain rfl : events = _ := h
    exact nofun
  | _ => cases silent

theorem Step.Breaks.isConsole {host : Host σ} {step : Step} {before after : Stock} {events : List Event} {stop : Stop}
    (h : step.Breaks host before events stop after) (silent : step.isSilent = true) :
    ∀ event ∈ events, event.IsConsole := by
  obtain ⟨word, result, complete, cut⟩ := h.cut
  exact cut.forall_call?
    (P := fun call? => (∃ buffer, call? = some (.read buffer)) ∨ ∃ bytes, call? = some (.write bytes))
    (complete.isConsole silent)

namespace Plan

/-- Logs what is found in an event, if there is anything to tell, and goes on. -/
def noting (event : Event) (plan : Plan α) : Plan α :=
  match event.finding? with
  | some r => step (.log r) fun _ => plan
  | none => plan

/-- A plan that announces each of its calls, and logs what it is answered at once. -/
inductive Notes : Plan α → Prop
  | done (a : α) : Notes (done a)
  | silent {s : Step} {next : s.Result → Plan α} (h : s.isSilent = true) (later : ∀ result, Notes (next result)) :
      Notes (step s next)
  | remark {r : Log.Record} {next : Unit → Plan α} (h : r.IsRemark) (later : Notes (next ())) :
      Notes (step (.log r) next)
  | call {call : Call} {process : call.isProcess = true} {r : Log.Record} {next : call.Answer → Plan α}
      (announced : call.announcement? = some r) (later : ∀ answer, Notes (next answer)) :
      Notes (step (.log r) fun _ => step (.ask call process) fun answer => noting (.answered call answer) (next answer))

namespace Notes

variable {plan : Plan α} {f : α → Plan β}

theorem bind_noting (event : Event) (plan : Plan α) (f : α → Plan β) :
    (noting event plan).bind f = noting event (plan.bind f) := by
  unfold noting
  split <;> rfl

theorem bind (h : plan.Notes) (h' : ∀ a, (f a).Notes) : (plan >>= f).Notes := by
  show (plan.bind f).Notes
  induction h with
  | done a => exact h' a
  | silent quiet later ih => exact .silent quiet ih
  | remark plain later ih => exact .remark plain ih
  | @call call process r next announced later ih =>
    have eq : (step (.log r) fun _ => step (.ask call process) fun answer =>
        noting (.answered call answer) (next answer)).bind f =
        step (.log r) fun _ => step (.ask call process) fun answer =>
          noting (.answered call answer) ((next answer).bind f) := by
      simp only [Plan.bind, bind_noting]
    rw [eq]
    exact .call announced ih

theorem of_only (h : plan.Only (·.isSilent = true)) : plan.Notes := by
  induction plan with
  | done a => exact .done a
  | step s next ih => exact .silent h.1 fun result => ih result (h.2 result)

/-! ## Their records -/

variable {events : List Event} {host : Host σ}

theorem noted_of_word {a : α} (h : plan.Notes) (word : plan.Word events a) : Noted events := by
  induction h generalizing events with
  | done b =>
    obtain ⟨rfl, -, -⟩ := word
    exact .nil
  | silent quiet later ih =>
    obtain ⟨first, result, _, more, here, rest, rfl⟩ := word
    exact .behind_console (here.isConsole quiet) (ih result rest)
  | remark plain later ih =>
    obtain ⟨_, _, _, more, rfl, rest, rfl⟩ := word
    exact .remark plain (ih rest)
  | @call call process r next announced later ih =>
    obtain ⟨_, _, _, _, rfl, ⟨_, answer, _, more, rfl, rest, rfl⟩, rfl⟩ := word
    dsimp only [noting] at rest
    split at rest
    · next r' found =>
      obtain ⟨_, _, _, more, rfl, rest, rfl⟩ := rest
      exact .found announced found (ih answer rest)
    · next silent =>
      have granted := Event.granted_of_finding? process silent
      cases granted
      exact .granted announced (ih _ rest)

theorem noted_of_breaks {before after : Stock} {stop : Stop} (h : plan.Notes)
    (breaks : plan.Breaks host before events stop after) : Noted events := by
  induction h generalizing before events with
  | done b => exact breaks.elim
  | silent quiet later ih =>
    rcases breaks with here | ⟨first, result, middle, more, here, rest, rfl⟩
    · have := Noted.behind_console (here.isConsole quiet) .nil
      rwa [List.append_nil] at this
    · exact .behind_console (here.word.isConsole quiet) (ih result rest)
  | remark plain later ih =>
    rcases breaks with here | ⟨_, _, _, more, ⟨rfl, -⟩, rest, rfl⟩
    · exact here.elim
    · exact .remark plain (ih rest)
  | @call call process r next announced later ih =>
    rcases breaks with here | ⟨_, _, _, _, ⟨rfl, -⟩, asked, rfl⟩
    · exact here.elim
    rcases asked with ⟨rfl, -, -⟩ | ⟨_, answer, _, _, ⟨rfl, -⟩, rest, rfl⟩
    · exact .unanswered announced
    dsimp only [noting] at rest
    split at rest
    · next r' found =>
      rcases rest with here | ⟨_, _, _, more, ⟨rfl, -⟩, rest, rfl⟩
      · exact here.elim
      · exact .found announced found (ih answer rest)
    · next silent =>
      have granted := Event.granted_of_finding? process silent
      cases granted
      exact .granted announced (ih _ rest)

/-- However a plan that notes its calls is answered, and wherever it stops, its record shows it. -/
theorem noted (h : plan.Notes) (host : Host σ) (bench : Bench σ) : Noted (plan.trace host bench) := by
  cases followed : plan.follow host bench with
  | ok a after => exact h.noted_of_word (word_of_follow followed)
  | error stop after => exact h.noted_of_breaks (breaks_of_follow followed)

end Notes

end Plan

end ProcessDrill
