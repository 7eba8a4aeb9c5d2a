import ProcessDrill.Console
/-!
# What a record tells

* `Event.call?`, `Event.failure?` and `Event.stop?` read a single event: the call that was made, the
  error of a console that failed, and the stop that it forces on a session.
* `delivered` and `accepted` are the input and the output of a record, `leaveOut` is what is left of it without
  the calls of one kind.
* `Cut word events`: the events break off somewhere in `word`, where the last call may have got another
  answer than in `word`.
* `Ends events stop`: a session with these events stopped for the reason `stop`. Nothing before the
  last event forced it to.
-/

namespace ProcessDrill

set_option autoImplicit false

/-! ## Single events -/

namespace Event

def call? : Event → Option Call
  | answered call _ => some call
  | unanswered call => some call
  | logged _ => none

def IsRead (event : Event) : Prop :=
  ∃ buffer, event.call? = some (.read buffer)

def IsWrite (event : Event) : Prop :=
  ∃ bytes, event.call? = some (.write bytes)

def IsConsole (event : Event) : Prop :=
  event.IsRead ∨ event.IsWrite

theorem IsRead.not_isWrite {event : Event} (h : event.IsRead) : ¬ event.IsWrite := by
  obtain ⟨buffer, read⟩ := h
  rintro ⟨bytes, write⟩
  rw [read] at write
  cases write

/-- The error of a console that fails: a read or a write that is refused, or a write that takes nothing. -/
def failure? : Event → Option Errno
  | answered (.read _) (.error e, _) => some e
  | answered (.write _) (.error e) => some e
  | answered (.write _) (.ok 0) => some .eio
  | _ => none

/-- The stop that an event forces. -/
def stop? : Event → Option Stop
  | unanswered _ => some .neverReturned
  | event => event.failure?.map .console

/-- The input that an event brings. A count beyond the buffer stands for all of it. -/
def delivered : Event → List UInt8
  | answered (.read buffer) (.ok n, stored) => (Buffer.overlay stored buffer).take n
  | _ => []

/-- The output that an event takes. A count beyond the bytes offered stands for all of them. -/
def accepted : Event → List UInt8
  | answered (.write bytes) (.ok n) => bytes.take n
  | _ => []

end Event

def delivered (events : List Event) : List UInt8 :=
  events.flatMap Event.delivered

def accepted (events : List Event) : List UInt8 :=
  events.flatMap Event.accepted

@[simp]
theorem delivered_nil : delivered [] = [] := rfl

@[simp]
theorem delivered_append (before after : List Event) :
    delivered (before ++ after) = delivered before ++ delivered after :=
  List.flatMap_append

@[simp]
theorem delivered_cons (event : Event) (events : List Event) :
    delivered (event :: events) = event.delivered ++ delivered events := rfl

@[simp]
theorem accepted_nil : accepted [] = [] := rfl

@[simp]
theorem accepted_append (before after : List Event) :
    accepted (before ++ after) = accepted before ++ accepted after :=
  List.flatMap_append

@[simp]
theorem accepted_cons (event : Event) (events : List Event) :
    accepted (event :: events) = event.accepted ++ accepted events := rfl

theorem Event.idle_of_stop? {event : Event} {stop : Stop} (h : event.stop? = some stop) :
    event.delivered = [] ∧ event.accepted = [] := by
  cases event with
  | unanswered call => exact ⟨rfl, rfl⟩
  | logged record => cases h
  | answered call answer =>
    cases call with
    | read buffer =>
      match answer with
      | (.error e, stored) => exact ⟨rfl, rfl⟩
      | (.ok n, stored) => cases h
    | write bytes =>
      match answer with
      | .error e => exact ⟨rfl, rfl⟩
      | .ok 0 => exact ⟨rfl, rfl⟩
      | .ok (n + 1) => cases h
    | _ => exact ⟨rfl, rfl⟩

/-! ## Kinds of calls -/

def Call.isRead : Call → Bool
  | read _ => true
  | _ => false

def Call.isWrite : Call → Bool
  | write _ => true
  | _ => false

/-- The record without the calls of one kind. -/
def leaveOut (kind : Call → Bool) (events : List Event) : List Event :=
  events.filter fun event => !event.call?.any kind

@[simp]
theorem leaveOut_append (kind : Call → Bool) (before after : List Event) :
    leaveOut kind (before ++ after) = leaveOut kind before ++ leaveOut kind after :=
  List.filter_append _ _

theorem leaveOut_eq_nil {kind : Call → Bool} {events : List Event}
    (h : ∀ event ∈ events, event.call?.any kind = true) : leaveOut kind events = [] := by
  refine List.filter_eq_nil_iff.2 fun event mem => ?_
  rw [h event mem]
  exact Bool.false_ne_true

theorem Event.delivered_of_not_read {call : Call} (other : call.isRead = false)
    (answer : call.Answer) : (answered call answer).delivered = [] := by
  cases call with
  | read buffer => cases other
  | _ => rfl

/-! ## Breaking off -/

/-- The events are a beginning of `word`, or they are one except for the answer to their last call, which
forces a stop. -/
inductive Cut (word : List Event) : List Event → Prop
  | between {before : List Event} (h : before <+: word) : Cut word before
  | within {before : List Event} {last other : Event} {call : Call} {stop : Stop}
      (h : before ++ [other] <+: word) (asked : other.call? = some call)
      (again : last.call? = some call) (forced : last.stop? = some stop) : Cut word (before ++ [last])

namespace Cut

theorem nil (word : List Event) : Cut word [] :=
  .between List.nil_prefix

theorem self (word : List Event) : Cut word word :=
  .between List.prefix_rfl

theorem first {last other : Event} {call : Call} {stop : Stop} (rest : List Event)
    (asked : other.call? = some call) (again : last.call? = some call)
    (forced : last.stop? = some stop) : Cut (other :: rest) [last] := by
  have h : [] ++ [other] <+: other :: rest := ⟨rest, rfl⟩
  exact .within h asked again forced

variable {word events : List Event}

theorem extend (h : Cut word events) (more : List Event) : Cut (word ++ more) events := by
  cases h with
  | between h => exact .between (h.trans (List.prefix_append _ _))
  | within h asked again forced =>
    exact .within (h.trans (List.prefix_append _ _)) asked again forced

theorem behind (h : Cut word events) (before : List Event) :
    Cut (before ++ word) (before ++ events) := by
  cases h with
  | between h => exact .between ((List.prefix_append_right_inj before).2 h)
  | within h asked again forced =>
    rw [← List.append_assoc]
    refine .within ?_ asked again forced
    rw [List.append_assoc]
    exact (List.prefix_append_right_inj before).2 h

theorem calls (h : Cut word events) :
    events.filterMap Event.call? <+: word.filterMap Event.call? := by
  cases h with
  | between h => exact h.filterMap _
  | within h asked again _ =>
    have := h.filterMap Event.call?
    simpa [List.filterMap_append, asked, again] using this

theorem accepted (h : Cut word events) :
    ProcessDrill.accepted events <+: ProcessDrill.accepted word := by
  cases h with
  | between h =>
    obtain ⟨rest, rfl⟩ := h
    rw [accepted_append]
    exact List.prefix_append _ _
  | @within before last other _ _ h _ _ forced =>
    obtain ⟨rest, rfl⟩ := h
    rw [accepted_append, accepted_cons, (Event.idle_of_stop? forced).2, List.append_assoc,
      accepted_append]
    simp

theorem delivered (h : Cut word events) :
    ProcessDrill.delivered events <+: ProcessDrill.delivered word := by
  cases h with
  | between h =>
    obtain ⟨rest, rfl⟩ := h
    rw [delivered_append]
    exact List.prefix_append _ _
  | @within before last other _ _ h _ _ forced =>
    obtain ⟨rest, rfl⟩ := h
    rw [delivered_append, delivered_cons, (Event.idle_of_stop? forced).1, List.append_assoc,
      delivered_append]
    simp

theorem forall_call? {P : Option Call → Prop} (h : Cut word events)
    (all : ∀ event ∈ word, P event.call?) : ∀ event ∈ events, P event.call? := by
  cases h with
  | between h => exact fun event mem => all event (h.subset mem)
  | @within before last other _ _ h asked again _ =>
    refine List.forall_mem_append.2 ⟨fun event mem => ?_, List.forall_mem_singleton.2 ?_⟩
    · exact all event (h.subset (List.mem_append_left _ mem))
    · have := all other (h.subset (List.mem_append_right _ (List.mem_singleton_self _)))
      rwa [asked, ← again] at this

theorem filter (h : Cut word events) {p : Event → Bool}
    (calls : ∀ event call, event.call? = some call → p event = true) :
    Cut (word.filter p) (events.filter p) := by
  cases h with
  | between h => exact .between (h.filter p)
  | @within before last other call _ h asked again forced =>
    have kept : before.filter p ++ [other] <+: word.filter p := by
      simpa [calls _ _ asked] using h.filter p
    have stays : [last].filter p = [last] := by simp [calls _ _ again]
    rw [List.filter_append, stays]
    exact .within kept asked again forced

/-- What stands in the word where an event of the cut stands, and behind it. -/
theorem split {before after : List Event} {event : Event} (h : Cut word (before ++ event :: after)) :
    ∃ other rest, word = before ++ other :: rest ∧ other.call? = event.call? ∧ Cut rest after ∧
      (after ≠ [] → other = event) := by
  generalize events_eq : before ++ event :: after = events at h
  cases h with
  | between h =>
    subst events_eq
    obtain ⟨more, rfl⟩ := h
    refine ⟨event, after ++ more, ?_, rfl, .between (List.prefix_append _ _), fun _ => rfl⟩
    simp only [List.append_assoc, List.cons_append]
  | @within init last other call _ h asked again forced =>
    obtain ⟨more, rfl⟩ := h
    rcases after.eq_nil_or_concat with rfl | ⟨between, final, rfl⟩
    · obtain ⟨rfl, same⟩ := List.append_inj' events_eq rfl
      cases same
      refine ⟨other, more, ?_, asked.trans again.symm, .nil _, by simp⟩
      simp only [List.append_assoc, List.singleton_append]
    · rw [List.concat_eq_append, ← List.cons_append, ← List.append_assoc] at events_eq
      obtain ⟨rfl, same⟩ := List.append_inj' events_eq rfl
      cases same
      refine ⟨event, between ++ [other] ++ more, ?_, rfl, ?_, fun _ => rfl⟩
      · simp only [List.append_assoc, List.cons_append]
      · rw [List.concat_eq_append]
        exact .within (List.prefix_append _ _) asked again forced

end Cut

/-! ## Stopping -/

/-- Nothing in the record forces a stop. -/
def Clean (events : List Event) : Prop :=
  ∀ event ∈ events, event.stop? = none

@[simp]
theorem clean_nil : Clean [] := by
  simp [Clean]

@[simp]
theorem clean_cons (event : Event) (events : List Event) :
    Clean (event :: events) ↔ event.stop? = none ∧ Clean events := by
  simp [Clean]

@[simp]
theorem clean_append (before after : List Event) :
    Clean (before ++ after) ↔ Clean before ∧ Clean after := by
  simp [Clean, or_imp, forall_and]

/-- How a stop shows in the record: its last event forces it, or no event does and the session itself
has run out of patience, of random words, or of numbers to draw from. -/
inductive Ends : List Event → Stop → Prop
  | forced {before : List Event} {last : Event} {stop : Stop} (clean : Clean before)
      (h : last.stop? = some stop) : Ends (before ++ [last]) stop
  | outOfPatience {events : List Event} (clean : Clean events) : Ends events .outOfPatience
  | outOfWords {events : List Event} (clean : Clean events) : Ends events .outOfWords
  | emptyRange {events : List Event} (clean : Clean events) : Ends events (.fault .emptyRange)

theorem Ends.first {last : Event} {stop : Stop} (h : last.stop? = some stop) : Ends [last] stop := by
  have := Ends.forced clean_nil h
  rwa [List.nil_append] at this

theorem Ends.behind {events : List Event} {stop : Stop} (h : Ends events stop)
    {before : List Event} (clean : Clean before) : Ends (before ++ events) stop := by
  cases h with
  | forced inner last =>
    rw [← List.append_assoc]
    exact .forced ((clean_append _ _).2 ⟨clean, inner⟩) last
  | outOfPatience inner => exact .outOfPatience ((clean_append _ _).2 ⟨clean, inner⟩)
  | outOfWords inner => exact .outOfWords ((clean_append _ _).2 ⟨clean, inner⟩)
  | emptyRange inner => exact .emptyRange ((clean_append _ _).2 ⟨clean, inner⟩)

def Stop.isForced : Stop → Bool
  | console _ => true
  | neverReturned => true
  | _ => false

theorem Event.isForced_of_stop? {event : Event} {stop : Stop} (h : event.stop? = some stop) :
    stop.isForced = true := by
  cases event with
  | unanswered call =>
    cases h
    rfl
  | answered call answer =>
    obtain ⟨e, _, rfl⟩ := Option.map_eq_some_iff.1 h
    rfl
  | logged record => cases h

theorem Clean.stops {events : List Event} (h : Clean events) : events.filterMap Event.stop? = [] :=
  List.filterMap_eq_nil_iff.2 h

theorem Ends.stops {events : List Event} {stop : Stop} (h : Ends events stop) :
    events.filterMap Event.stop? = [stop].filter Stop.isForced := by
  cases h with
  | forced clean last => simp [List.filterMap_append, clean.stops, last, Event.isForced_of_stop? last]
  | outOfPatience clean => exact clean.stops
  | outOfWords clean => exact clean.stops
  | emptyRange clean => exact clean.stops

theorem Event.stop?_of_failure? {event : Event} {e : Errno} (h : event.failure? = some e) :
    event.stop? = some (.console e) := by
  cases event with
  | unanswered call => cases h
  | answered call answer =>
    show (answered call answer).failure?.map Stop.console = _
    rw [h]
    rfl
  | logged record => cases h

theorem Event.failure?_of_stop? {event : Event} {e : Errno} (h : event.stop? = some (.console e)) :
    event.failure? = some e := by
  cases event with
  | unanswered call => cases h
  | answered call answer =>
    obtain ⟨e', failed, same⟩ := Option.map_eq_some_iff.1 h
    cases same
    exact failed
  | logged record => cases h

theorem Event.unanswered_of_stop? {event : Event} (h : event.stop? = some .neverReturned) :
    ∃ call, event = .unanswered call := by
  cases event with
  | unanswered call => exact ⟨call, rfl⟩
  | answered call answer =>
    obtain ⟨e, -, no⟩ := Option.map_eq_some_iff.1 h
    cases no
  | logged record => cases h

theorem Clean.failure? {events : List Event} (h : Clean events) :
    ∀ event ∈ events, event.failure? = none := by
  intro event mem
  rw [Option.eq_none_iff_forall_ne_some]
  intro e failed
  have := h event mem
  rw [Event.stop?_of_failure? failed] at this
  cases this

theorem Ends.of_failure {before more : List Event} {event : Event} {stop : Stop} {e : Errno}
    (h : Ends (before ++ event :: more) stop) (failed : event.failure? = some e) :
    Clean before ∧ more = [] ∧ stop = .console e := by
  have notClean : ¬ Clean (before ++ event :: more) := by
    intro clean
    have := clean.failure? event (by simp)
    rw [failed] at this
    cases this
  generalize events_eq : before ++ event :: more = events at h notClean
  cases h with
  | @forced init last _ clean forced =>
    rcases more.eq_nil_or_concat with rfl | ⟨between, final, rfl⟩
    · obtain ⟨rfl, same⟩ := List.append_inj' events_eq rfl
      cases same
      rw [Event.stop?_of_failure? failed] at forced
      exact ⟨clean, rfl, (Option.some_inj.1 forced).symm⟩
    · rw [List.concat_eq_append, ← List.cons_append, ← List.append_assoc] at events_eq
      obtain ⟨rfl, -⟩ := List.append_inj' events_eq rfl
      have := clean.failure? event (by simp)
      rw [failed] at this
      cases this
  | outOfPatience clean => exact absurd clean notClean
  | outOfWords clean => exact absurd clean notClean
  | emptyRange clean => exact absurd clean notClean

structure Stops (words : List Event → Prop) (events : List Event) (stop : Stop) : Prop where
  cut : ∃ word, words word ∧ Cut word events
  ends : Ends events stop

end ProcessDrill
