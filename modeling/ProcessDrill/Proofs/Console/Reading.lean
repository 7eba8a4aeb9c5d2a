import Mathlib.Data.List.TakeWhile
import ProcessDrill.Console.Token
import ProcessDrill.Proofs.Text.Tokens
import ProcessDrill.Proofs.Trace.Session
/-!
# Input

* `Refills events`: the events are reads into an empty buffer, each with its count.
* `Reading limit before events result after`: what it takes of the input to read one token. Of the bytes
  at hand it uses up what `Text.Taken` says, and the others are kept.
* `EndSeen before events after`: the end of the input is taken as found only behind a read that brought nothing.
* `Draining reads before events stop after`: reading a token stopped, and what was at hand is used up. If
  it was for want of patience, there had been that many reads.

The blanks before a token and the token itself are read by one loop each; `Skipping`, and `Taking` and
`Gulping`, say what they do.

Main statement: `traced_readToken`, a session that reads a token does the one or the other.
-/

namespace ProcessDrill

set_option autoImplicit false

/-! ## Tokens as kept -/

namespace Token

def kept (limit : Nat) (ink : List UInt8) : Token where
  bytes := ink.take limit
  length := ink.length

def given (limit : Nat) : Option (List UInt8) → Except InputError Token
  | none => .error .closed
  | some ink => .ok (kept limit ink)

theorem extend_extend (token : Token) (limit : Nat) (ink more : List UInt8) :
    (token.extend limit ink).extend limit more = token.extend limit (ink ++ more) := by
  have room : limit - (token.bytes.length + min (limit - token.bytes.length) ink.length) =
      limit - token.bytes.length - ink.length := by omega
  simp only [extend, List.length_append, List.length_take, room, List.take_append,
    List.append_assoc, Nat.add_assoc]

theorem extend_empty (limit : Nat) (ink : List UInt8) :
    ({} : Token).extend limit ink = kept limit ink := by
  simp [extend, kept]

end Token

/-! ## The records of reading -/

/-- A read that was answered with a count. -/
def Event.IsRefill (event : Event) : Prop :=
  ∃ n stored, event = .answered (.read (Buffer.zeros Console.chunkSize)) (.ok n, stored)

def Refills (events : List Event) : Prop :=
  ∀ event ∈ events, event.IsRefill

theorem Refills.nil : Refills [] := by
  simp [Refills]

theorem Refills.append {before after : List Event} (h : Refills before) (h' : Refills after) :
    Refills (before ++ after) :=
  List.forall_mem_append.2 ⟨h, h'⟩

theorem Refills.isRead {events : List Event} (h : Refills events) :
    ∀ event ∈ events, event.IsRead := by
  intro event mem
  obtain ⟨n, stored, rfl⟩ := h event mem
  exact ⟨_, rfl⟩

theorem Refills.isConsole {events : List Event} (h : Refills events) :
    ∀ event ∈ events, event.IsConsole :=
  fun event mem => .inl (h.isRead event mem)

/-- A read that found the end of the input. -/
def Event.IsEnd (event : Event) : Prop :=
  ∃ buffer stored, event = .answered (.read buffer) (.ok 0, stored)

theorem Event.IsEnd.isRead {event : Event} (h : event.IsEnd) : event.IsRead := by
  obtain ⟨buffer, stored, rfl⟩ := h
  exact ⟨buffer, rfl⟩

theorem Refills.accepted_eq {events : List Event} (h : Refills events) : accepted events = [] := by
  refine List.flatMap_eq_nil_iff.2 fun event mem => ?_
  obtain ⟨n, stored, rfl⟩ := h event mem
  rfl

theorem Refills.clean {events : List Event} (h : Refills events) : Clean events := by
  intro event mem
  obtain ⟨n, stored, rfl⟩ := h event mem
  rfl

/-- The end of the input was known before, or a read found it. -/
def Inbox.Ended (before : Inbox) (events : List Event) : Prop :=
  before.atEnd = true ∨ ∃ event ∈ events, event.IsEnd

/-- A console takes nothing for the end of the input but a read that found it. -/
def EndSeen (before : Inbox) (events : List Event) (after : Inbox) : Prop :=
  after.atEnd = true → before.Ended events

theorem Inbox.Ended.append {before : Inbox} {events : List Event} (h : before.Ended events) (more : List Event) :
    before.Ended (events ++ more) :=
  h.imp_right fun ⟨event, mem, last⟩ => ⟨event, List.mem_append_left more mem, last⟩

namespace EndSeen

variable {before middle after : Inbox} {events more : List Event}

theorem behind (h : EndSeen before events middle) (ended : middle.Ended more) : before.Ended (events ++ more) := by
  obtain atEnd | ⟨event, mem, last⟩ := ended
  · exact (h atEnd).append more
  · exact .inr ⟨event, List.mem_append_right events mem, last⟩

theorem trans (h : EndSeen before events middle) (h' : EndSeen middle more after) :
    EndSeen before (events ++ more) after :=
  fun atEnd => h.behind (h' atEnd)

end EndSeen

namespace Stops

theorem of_read {event : Event} {stop : Stop}
    (asked : event.call? = some (.read (Buffer.zeros Console.chunkSize)))
    (h : event.stop? = some stop) : Stops Refills [event] stop where
  cut := by
    refine ⟨[.answered (.read (Buffer.zeros Console.chunkSize)) (.ok 0, [])], ?_, ?_⟩
    · exact List.forall_mem_singleton.2 ⟨0, [], rfl⟩
    · exact .first [] rfl asked h
  ends := .first h

theorem after_refills {before events : List Event} {stop : Stop} (reads : Refills before)
    (h : Stops Refills events stop) : Stops Refills (before ++ events) stop where
  cut := by
    obtain ⟨word, reads', cut⟩ := h.cut
    exact ⟨_, reads.append reads', cut.behind before⟩
  ends := h.ends.behind reads.clean

theorem outOfPatience : Stops Refills [] .outOfPatience where
  cut := ⟨[], .nil, .nil []⟩
  ends := .outOfPatience clean_nil

end Stops

variable {σ : Type}

/-! ## One chunk -/

theorem traced_refill (host : Host σ) (c : Recording σ) :
    Traced (Console.refill host.recorded) c
      (fun events more d => Refills events ∧ events.length = 1 ∧
        d.pending = c.pending ++ delivered events ∧ d.atEnd = (c.atEnd || !more) ∧
        (more = false ↔ delivered events = []) ∧ EndSeen c.inbox events d.inbox)
      (fun events stop d => Stops Refills events stop ∧ events.length = 1 ∧ stop.isForced = true ∧
        delivered events = [] ∧ d.inbox = c.inbox) := by
  rw [Console.refill]
  refine (traced_ask host (.read (Buffer.zeros Console.chunkSize)) c).bind ?_ ?_
  · rintro _ ⟨result, stored⟩ d ⟨rfl, same⟩
    have pending : d.pending = c.pending := congrArg Inbox.pending same
    have atEnd : d.atEnd = c.atEnd := congrArg Inbox.atEnd same
    match result with
    | .error e => exact Traced.throw ⟨.of_read rfl rfl, rfl, rfl, rfl, same⟩
    | .ok 0 =>
      refine Traced.modify_bind rfl (Traced.pure ⟨?_, rfl, ?_, ?_, ?_, ?_⟩)
      · exact List.forall_mem_singleton.2 ⟨0, stored, rfl⟩
      · simp [Event.delivered, pending]
      · simp
      · simp [Event.delivered]
      · exact fun _ => .inr ⟨_, List.mem_singleton_self _, _, stored, rfl⟩
    | .ok (n + 1) =>
      have slice := Buffer.sliceTo?_min
        (Buffer.overlay stored (Buffer.zeros Console.chunkSize)) (n + 1)
      rw [Buffer.length_overlay, Buffer.length_zeros] at slice
      simp only [slice]
      have some : (Buffer.overlay stored (Buffer.zeros Console.chunkSize)).take (n + 1) ≠ [] := by
        refine List.ne_nil_of_length_pos ?_
        rw [List.length_take, Buffer.length_overlay, Buffer.length_zeros, Console.chunkSize]
        omega
      refine Traced.modify_bind rfl (Traced.pure ⟨?_, rfl, ?_, ?_, ?_, ?_⟩)
      · exact List.forall_mem_singleton.2 ⟨n + 1, stored, rfl⟩
      · simp [Event.delivered, pending]
      · simp [atEnd]
      · simpa [Event.delivered] using some
      · exact fun ended => .inl (atEnd.symm.trans ended)
  · rintro _ _ d ⟨rfl, rfl, same⟩
    exact ⟨.of_read rfl rfl, rfl, rfl, rfl, same⟩

/-! ## The blanks before a token -/

namespace Console

variable {host : Host σ} {c : Console σ} {reads : Nat}

theorem skipBlanks_of_ink (h : c.pending.dropWhile Text.isBlank ≠ []) :
    skipBlanks host reads c = .ok true { c with pending := c.pending.dropWhile Text.isBlank } := by
  have found : (!(c.pending.dropWhile Text.isBlank).isEmpty) = true := by
    rw [List.isEmpty_eq_false_iff.2 h]
    rfl
  rw [skipBlanks.eq_def]
  simp only [Session.get_bind_apply, Session.modify_bind_apply, found, if_true, Session.pure_apply]

theorem skipBlanks_of_atEnd (h : c.pending.dropWhile Text.isBlank = []) (atEnd : c.atEnd = true) :
    skipBlanks host reads c = .ok false { c with pending := [] } := by
  rw [skipBlanks.eq_def]
  simp only [Session.get_bind_apply, Session.modify_bind_apply, h, List.isEmpty_nil, Bool.not_true,
    Bool.false_eq_true, if_false, atEnd, if_true, Session.pure_apply]

theorem skipBlanks_zero (h : c.pending.dropWhile Text.isBlank = []) (atEnd : c.atEnd = false) :
    skipBlanks host 0 c = .error .outOfPatience { c with pending := [] } := by
  rw [skipBlanks.eq_def]
  simp only [Session.get_bind_apply, Session.modify_bind_apply, h, List.isEmpty_nil, Bool.not_true,
    Bool.false_eq_true, if_false, atEnd, Session.throw_apply]

theorem skipBlanks_succ (h : c.pending.dropWhile Text.isBlank = []) (atEnd : c.atEnd = false) :
    skipBlanks host (reads + 1) c =
      (refill host >>= fun more => if more then skipBlanks host reads else pure false)
        { c with pending := [] } := by
  rw [skipBlanks.eq_def]
  simp only [Session.get_bind_apply, Session.modify_bind_apply, h, List.isEmpty_nil, Bool.not_true,
    Bool.false_eq_true, if_false, atEnd]

/-- Behind the ink, or behind the end, nothing is asked for. -/
theorem skipBlanks_of_settled (h : c.pending.dropWhile Text.isBlank ≠ [] ∨ c.atEnd = true) :
    ∃ found pending, pending <:+ c.pending ∧ ∀ host reads, skipBlanks host reads c = .ok found { c with pending } := by
  by_cases ink : c.pending.dropWhile Text.isBlank = []
  · have atEnd := h.resolve_left (not_not_intro ink)
    exact ⟨false, [], List.nil_suffix, fun host reads => skipBlanks_of_atEnd ink atEnd⟩
  · exact ⟨true, _, List.dropWhile_suffix _, fun host reads => skipBlanks_of_ink ink⟩

end Console

/-- Nothing is at hand and nothing can follow. -/
def Inbox.Exhausted (inbox : Inbox) : Prop :=
  inbox.pending = [] ∧ inbox.atEnd = true

/-- Blanks were used up, to the first byte of ink if one was found, or else to the end of the input. -/
structure Skipping (before : Inbox) (events : List Event) (found : Bool) (after : Inbox) : Prop where
  refills : Refills events
  blanks : ∃ blanks, before.pending ++ delivered events = blanks ++ after.pending ∧
    ∀ b ∈ blanks, Text.isBlank b = true
  ink : found = true → ∃ b rest, after.pending = b :: rest ∧ Text.isInk b = true
  exhausted : found = false → after.Exhausted
  atEnd : before.atEnd = true → events = [] ∧ after.atEnd = true
  seen : EndSeen before events after

/-- Reading a token stopped; the blanks and the ink that were at hand are used up. -/
structure Draining (reads : Nat) (before : Inbox) (events : List Event) (stop : Stop)
    (after : Inbox) : Prop where
  used : ∃ blanks ink, before.pending ++ delivered events = blanks ++ ink ∧
    (∀ b ∈ blanks, Text.isBlank b = true) ∧ ∀ b ∈ ink, Text.isInk b = true
  notEnd : before.atEnd = false
  after_eq : after = ⟨[], false⟩
  waited : stop.isForced = true ∨ stop = .outOfPatience ∧ reads ≤ events.length

theorem traced_skipBlanks_settled (host : Host σ) (reads : Nat) (c : Recording σ)
    {stopped : List Event → Stop → Recording σ → Prop}
    (h : c.pending.dropWhile Text.isBlank ≠ [] ∨ c.atEnd = true) :
    Traced (Console.skipBlanks host.recorded reads) c
      (fun events found d => Skipping c.inbox events found d.inbox) stopped := by
  by_cases ink : c.pending.dropWhile Text.isBlank = []
  · have atEnd : c.atEnd = true := h.resolve_left (not_not_intro ink)
    refine Traced.of_ok (Console.skipBlanks_of_atEnd ink atEnd) (List.append_nil _).symm ?_
    exact {
      refills := .nil
      blanks := ⟨c.pending, by simp [Console.inbox], List.dropWhile_eq_nil_iff.1 ink⟩
      ink := by simp
      exhausted := fun _ => ⟨rfl, atEnd⟩
      atEnd := fun _ => ⟨rfl, atEnd⟩
      seen := .inl }
  · refine Traced.of_ok (Console.skipBlanks_of_ink ink) (List.append_nil _).symm ?_
    exact {
      refills := .nil
      blanks := by
        refine ⟨c.pending.takeWhile Text.isBlank, ?_, fun _ => List.mem_takeWhile_imp⟩
        simp [Console.inbox, List.takeWhile_append_dropWhile]
      ink := fun _ => by
        obtain ⟨b, rest, eq⟩ := List.exists_cons_of_ne_nil ink
        refine ⟨b, rest, eq, ?_⟩
        have := List.head_dropWhile_not Text.isBlank ink
        simpa [Text.isInk, eq] using this
      exhausted := by simp
      atEnd := fun atEnd => ⟨rfl, atEnd⟩
      seen := .inl }

theorem dry_of_not_settled {p : UInt8 → Bool} {c : Console σ}
    (h : ¬ (c.pending.dropWhile p ≠ [] ∨ c.atEnd = true)) :
    c.pending.dropWhile p = [] ∧ c.atEnd = false := by
  simpa only [not_or, ne_eq, Classical.not_not, Bool.not_eq_true] using h

namespace Draining

variable {reads : Nat} {before middle after : Inbox} {events more : List Event} {stop : Stop}

theorem of_blank (nothing : delivered events = [])
    (blank : before.pending.dropWhile Text.isBlank = []) (notEnd : before.atEnd = false)
    (after_eq : after = ⟨[], false⟩)
    (waited : stop.isForced = true ∨ stop = .outOfPatience ∧ reads ≤ events.length) :
    Draining reads before events stop after where
  used := ⟨before.pending, [], by simp [nothing], List.dropWhile_eq_nil_iff.1 blank, by simp⟩
  notEnd := notEnd
  after_eq := after_eq
  waited := waited

theorem after_blanks (blank : before.pending.dropWhile Text.isBlank = [])
    (notEnd : before.atEnd = false) (one : events.length = 1)
    (pending : middle.pending = delivered events) (h : Draining reads middle more stop after) :
    Draining (reads + 1) before (events ++ more) stop after where
  used := by
    obtain ⟨blanks, ink, eq, areBlank, areInk⟩ := h.used
    refine ⟨before.pending ++ blanks, ink, ?_, ?_, areInk⟩
    · rw [delivered_append, ← pending, eq]
      simp only [List.append_assoc]
    · exact List.forall_mem_append.2 ⟨List.dropWhile_eq_nil_iff.1 blank, areBlank⟩
  notEnd := notEnd
  after_eq := h.after_eq
  waited := h.waited.imp_right fun ⟨impatient, waited⟩ => ⟨impatient, by
    rw [List.length_append, one]
    omega⟩

end Draining

theorem Skipping.after_blanks {before middle after : Inbox} {events more : List Event} {found : Bool}
    (refills : Refills events) (blank : before.pending.dropWhile Text.isBlank = [])
    (notEnd : before.atEnd = false) (pending : middle.pending = delivered events)
    (seen : EndSeen before events middle) (h : Skipping middle more found after) :
    Skipping before (events ++ more) found after where
  refills := refills.append h.refills
  blanks := by
    obtain ⟨blanks, eq, areBlank⟩ := h.blanks
    refine ⟨before.pending ++ blanks, ?_, ?_⟩
    · rw [delivered_append, ← pending, eq]
      simp only [List.append_assoc]
    · exact List.forall_mem_append.2 ⟨List.dropWhile_eq_nil_iff.1 blank, areBlank⟩
  ink := h.ink
  exhausted := h.exhausted
  atEnd := by simp [notEnd]
  seen := seen.trans h.seen

theorem traced_skipBlanks (host : Host σ) (reads : Nat) (c : Recording σ) :
    Traced (Console.skipBlanks host.recorded reads) c
      (fun events found d => Skipping c.inbox events found d.inbox)
      (fun events stop d => Stops Refills events stop ∧
        Draining reads c.inbox events stop d.inbox) := by
  induction reads generalizing c with
  | zero =>
    by_cases settled : c.pending.dropWhile Text.isBlank ≠ [] ∨ c.atEnd = true
    · exact traced_skipBlanks_settled host 0 c settled
    obtain ⟨blank, notEnd⟩ := dry_of_not_settled settled
    refine Traced.of_error (Console.skipBlanks_zero blank notEnd) (List.append_nil _).symm ?_
    refine ⟨.outOfPatience, .of_blank rfl blank notEnd ?_ ?_⟩
    · exact Console.inbox_eq_iff.2 ⟨rfl, notEnd⟩
    · exact .inr ⟨rfl, Nat.zero_le _⟩
  | succ reads ih =>
    by_cases settled : c.pending.dropWhile Text.isBlank ≠ [] ∨ c.atEnd = true
    · exact traced_skipBlanks_settled host (reads + 1) c settled
    -- All that is at hand is used up before the read, so what the read brings is all that is pending.
    obtain ⟨blank, notEnd⟩ := dry_of_not_settled settled
    refine Traced.of_eq ?_ (Console.skipBlanks_succ blank notEnd) rfl
    refine (traced_refill host { c with pending := [] }).bind ?_ ?_
    · rintro events more d ⟨refills, one, pending, ended, nothing, seen⟩
      have brought : d.inbox.pending = delivered events := pending
      cases more with
      | false =>
        have exhausted : d.inbox.Exhausted :=
          ⟨by simpa [nothing.1 rfl] using pending, by simpa using ended⟩
        refine Traced.pure (.after_blanks refills blank notEnd brought seen ?_)
        exact {
          refills := .nil
          blanks := ⟨[], by simp, by simp⟩
          ink := by simp
          exhausted := fun _ => exhausted
          atEnd := fun _ => ⟨rfl, exhausted.2⟩
          seen := .inl }
      | true =>
        refine (ih d).mono ?_ ?_
        · rintro events' found e skipping
          exact .after_blanks refills blank notEnd brought seen skipping
        · rintro events' stop e ⟨stops, draining⟩
          exact ⟨.after_refills refills stops, .after_blanks blank notEnd one brought draining⟩
    · rintro events stop d ⟨stops, -, forced, nothing, same⟩
      refine ⟨stops, .of_blank nothing blank notEnd ?_ (.inl forced)⟩
      rw [same]
      exact Console.inbox_eq_iff.2 ⟨rfl, notEnd⟩

/-! ## The token itself -/

namespace Console

variable {host : Host σ} {limit reads : Nat} {token : Token} {c : Console σ}

theorem takeInk_of_blank {b : UInt8} {rest : List UInt8}
    (h : c.pending.dropWhile Text.isInk = b :: rest) :
    takeInk host limit reads token c =
      .ok (token.extend limit (c.pending.takeWhile Text.isInk)) { c with pending := rest } := by
  rw [takeInk.eq_def]
  simp only [Session.get_bind_apply, Session.modify_bind_apply, h, List.isEmpty_cons, Bool.not_false,
    if_true, Session.pure_apply, List.drop_succ_cons, List.drop_zero]

theorem takeInk_of_atEnd (h : c.pending.dropWhile Text.isInk = []) (atEnd : c.atEnd = true) :
    takeInk host limit reads token c =
      .ok (token.extend limit c.pending) { c with pending := [] } := by
  rw [takeInk.eq_def]
  simp only [Session.get_bind_apply, Session.modify_bind_apply, h, List.isEmpty_nil, Bool.not_true,
    Bool.false_eq_true, if_false, atEnd, if_true, Session.pure_apply, List.drop_nil,
    List.takeWhile_eq_self_iff.2 (List.dropWhile_eq_nil_iff.1 h)]

theorem takeInk_zero (h : c.pending.dropWhile Text.isInk = []) (notEnd : c.atEnd = false) :
    takeInk host limit 0 token c = .error .outOfPatience { c with pending := [] } := by
  rw [takeInk.eq_def]
  simp only [Session.get_bind_apply, Session.modify_bind_apply, h, List.isEmpty_nil, Bool.not_true,
    Bool.false_eq_true, if_false, notEnd, Session.throw_apply, List.drop_nil]

theorem takeInk_succ (h : c.pending.dropWhile Text.isInk = []) (notEnd : c.atEnd = false) :
    takeInk host limit (reads + 1) token c =
      (refill host >>= fun more =>
        if more then takeInk host limit reads (token.extend limit c.pending)
        else pure (token.extend limit c.pending)) { c with pending := [] } := by
  rw [takeInk.eq_def]
  simp only [Session.get_bind_apply, Session.modify_bind_apply, h, List.isEmpty_nil, Bool.not_true,
    Bool.false_eq_true, if_false, notEnd, List.drop_nil,
    List.takeWhile_eq_self_iff.2 (List.dropWhile_eq_nil_iff.1 h)]

theorem takeInk_of_settled (limit : Nat) (token : Token) (h : c.pending.dropWhile Text.isInk ≠ [] ∨ c.atEnd = true) :
    ∃ taken pending, pending <:+ c.pending ∧
      ∀ host reads, takeInk host limit reads token c = .ok taken { c with pending } := by
  by_cases blank : c.pending.dropWhile Text.isInk = []
  · have atEnd := h.resolve_left (not_not_intro blank)
    exact ⟨_, [], List.nil_suffix, fun host reads => takeInk_of_atEnd blank atEnd⟩
  · obtain ⟨b, rest, eq⟩ := List.exists_cons_of_ne_nil blank
    have suffix : b :: rest <:+ c.pending := eq ▸ List.dropWhile_suffix Text.isInk
    exact ⟨_, rest, (List.suffix_cons b rest).trans suffix, fun host reads => takeInk_of_blank eq⟩

end Console

/-- Ink went to the token, up to a blank, which is dropped, or to the end of the input. -/
structure Taking (limit : Nat) (token : Token) (before : Inbox) (events : List Event) (result : Token)
    (after : Inbox) : Prop where
  refills : Refills events
  ink : ∃ ink behind, before.pending ++ delivered events = ink ++ behind ++ after.pending ∧
    (∀ b ∈ ink, Text.isInk b = true) ∧ result = token.extend limit ink ∧
    ((∃ b, Text.isBlank b = true ∧ behind = [b]) ∨ behind = [] ∧ after.Exhausted)
  atEnd : before.atEnd = true → events = [] ∧ after.atEnd = true
  seen : EndSeen before events after

/-- Taking ink stopped; what was at hand was ink and is used up. -/
structure Gulping (reads : Nat) (before : Inbox) (events : List Event) (stop : Stop)
    (after : Inbox) : Prop where
  ink : ∀ b ∈ before.pending ++ delivered events, Text.isInk b = true
  notEnd : before.atEnd = false
  after_eq : after = ⟨[], false⟩
  waited : stop.isForced = true ∨ stop = .outOfPatience ∧ reads ≤ events.length

theorem Taking.after_ink {limit : Nat} {token result : Token} {before middle after : Inbox}
    {events more : List Event} (refills : Refills events)
    (ink : before.pending.dropWhile Text.isInk = []) (notEnd : before.atEnd = false)
    (pending : middle.pending = delivered events) (seen : EndSeen before events middle)
    (h : Taking limit (token.extend limit before.pending) middle more result after) :
    Taking limit token before (events ++ more) result after where
  refills := refills.append h.refills
  ink := by
    obtain ⟨further, behind, eq, areInk, rfl, rest⟩ := h.ink
    refine ⟨before.pending ++ further, behind, ?_, ?_, Token.extend_extend _ _ _ _, rest⟩
    · rw [delivered_append, ← pending, eq]
      simp only [List.append_assoc]
    · exact List.forall_mem_append.2 ⟨List.dropWhile_eq_nil_iff.1 ink, areInk⟩
  atEnd := by simp [notEnd]
  seen := seen.trans h.seen

namespace Gulping

variable {reads : Nat} {before middle after : Inbox} {events more : List Event} {stop : Stop}

theorem after_ink (ink : before.pending.dropWhile Text.isInk = []) (notEnd : before.atEnd = false)
    (one : events.length = 1) (pending : middle.pending = delivered events)
    (h : Gulping reads middle more stop after) :
    Gulping (reads + 1) before (events ++ more) stop after where
  ink := by
    rw [delivered_append, ← pending]
    exact List.forall_mem_append.2 ⟨List.dropWhile_eq_nil_iff.1 ink, h.ink⟩
  notEnd := notEnd
  after_eq := h.after_eq
  waited := h.waited.imp_right fun ⟨impatient, waited⟩ => ⟨impatient, by
    rw [List.length_append, one]
    omega⟩

theorem of_ink (nothing : delivered events = []) (ink : before.pending.dropWhile Text.isInk = [])
    (notEnd : before.atEnd = false) (after_eq : after = ⟨[], false⟩)
    (waited : stop.isForced = true ∨ stop = .outOfPatience ∧ reads ≤ events.length) :
    Gulping reads before events stop after where
  ink := by
    rw [nothing, List.append_nil]
    exact List.dropWhile_eq_nil_iff.1 ink
  notEnd := notEnd
  after_eq := after_eq
  waited := waited

end Gulping

theorem traced_takeInk_settled (host : Host σ) (limit reads : Nat) (token : Token) (c : Recording σ)
    {stopped : List Event → Stop → Recording σ → Prop}
    (h : c.pending.dropWhile Text.isInk ≠ [] ∨ c.atEnd = true) :
    Traced (Console.takeInk host.recorded limit reads token) c
      (fun events result d => Taking limit token c.inbox events result d.inbox) stopped := by
  by_cases ink : c.pending.dropWhile Text.isInk = []
  · have atEnd : c.atEnd = true := h.resolve_left (not_not_intro ink)
    refine Traced.of_ok (Console.takeInk_of_atEnd ink atEnd) (List.append_nil _).symm ?_
    exact {
      refills := .nil
      ink := ⟨c.pending, [], by simp [Console.inbox], List.dropWhile_eq_nil_iff.1 ink, rfl,
        .inr ⟨rfl, rfl, atEnd⟩⟩
      atEnd := fun _ => ⟨rfl, atEnd⟩
      seen := .inl }
  · obtain ⟨b, rest, eq⟩ := List.exists_cons_of_ne_nil ink
    have blank : Text.isBlank b = true := by
      have := List.head_dropWhile_not Text.isInk ink
      simpa [Text.isInk, eq] using this
    refine Traced.of_ok (Console.takeInk_of_blank eq) (List.append_nil _).symm ?_
    exact {
      refills := .nil
      ink := by
        refine ⟨c.pending.takeWhile Text.isInk, [b], ?_, fun _ => List.mem_takeWhile_imp, rfl,
          .inl ⟨b, blank, rfl⟩⟩
        rw [delivered_nil, List.append_nil, List.append_assoc]
        exact (eq ▸ List.takeWhile_append_dropWhile).symm
      atEnd := fun atEnd => ⟨rfl, atEnd⟩
      seen := .inl }

theorem traced_takeInk (host : Host σ) (limit reads : Nat) (token : Token) (c : Recording σ) :
    Traced (Console.takeInk host.recorded limit reads token) c
      (fun events result d => Taking limit token c.inbox events result d.inbox)
      (fun events stop d => Stops Refills events stop ∧
        Gulping reads c.inbox events stop d.inbox) := by
  induction reads generalizing token c with
  | zero =>
    by_cases settled : c.pending.dropWhile Text.isInk ≠ [] ∨ c.atEnd = true
    · exact traced_takeInk_settled host limit 0 token c settled
    obtain ⟨ink, notEnd⟩ := dry_of_not_settled settled
    refine Traced.of_error (Console.takeInk_zero ink notEnd) (List.append_nil _).symm ?_
    refine ⟨.outOfPatience, .of_ink rfl ink notEnd ?_ ?_⟩
    · exact Console.inbox_eq_iff.2 ⟨rfl, notEnd⟩
    · exact .inr ⟨rfl, Nat.zero_le _⟩
  | succ reads ih =>
    by_cases settled : c.pending.dropWhile Text.isInk ≠ [] ∨ c.atEnd = true
    · exact traced_takeInk_settled host limit (reads + 1) token c settled
    obtain ⟨ink, notEnd⟩ := dry_of_not_settled settled
    refine Traced.of_eq ?_ (Console.takeInk_succ ink notEnd) rfl
    refine (traced_refill host { c with pending := [] }).bind ?_ ?_
    · rintro events more d ⟨refills, one, pending, ended, nothing, seen⟩
      have brought : d.inbox.pending = delivered events := pending
      cases more with
      | false =>
        have exhausted : d.inbox.Exhausted :=
          ⟨by simpa [nothing.1 rfl] using pending, by simpa using ended⟩
        refine Traced.pure (.after_ink refills ink notEnd brought seen ?_)
        exact {
          refills := .nil
          ink := ⟨[], [], by simp, by simp, by simp [Token.extend], .inr ⟨rfl, exhausted⟩⟩
          atEnd := fun _ => ⟨rfl, exhausted.2⟩
          seen := .inl }
      | true =>
        refine (ih (token.extend limit c.pending) d).mono ?_ ?_
        · rintro events' result e taking
          exact .after_ink refills ink notEnd brought seen taking
        · rintro events' stop e ⟨stops, gulping⟩
          exact ⟨.after_refills refills stops, .after_ink ink notEnd one brought gulping⟩
    · rintro events stop d ⟨stops, -, forced, nothing, same⟩
      refine ⟨stops, .of_ink nothing ink notEnd ?_ (.inl forced)⟩
      rw [same]
      exact Console.inbox_eq_iff.2 ⟨rfl, notEnd⟩

/-! ## Reading a token -/

/-- What it takes of the input to read one token. -/
structure Reading (limit : Nat) (before : Inbox) (events : List Event)
    (result : Except InputError Token) (after : Inbox) : Prop where
  refills : Refills events
  taken : ∃ used token final, before.pending ++ delivered events = used ++ after.pending ∧
    Text.Taken used token final ∧ (final = true → after.Exhausted) ∧ result = Token.given limit token
  atEnd : before.atEnd = true → events = [] ∧ after.atEnd = true
  seen : EndSeen before events after

namespace Skipping

variable {limit reads : Nat} {before middle after : Inbox} {events more : List Event}
variable {token : Token} {stop : Stop}

theorem taking (h : Skipping before events true middle)
    (h' : Taking limit {} middle more token after) :
    Reading limit before (events ++ more) (.ok token) after where
  refills := h.refills.append h'.refills
  taken := by
    obtain ⟨blanks, eq, areBlank⟩ := h.blanks
    obtain ⟨first, rest, starts, isInk⟩ := h.ink rfl
    obtain ⟨ink, behind, eq', areInk, kept, ended⟩ := h'.ink
    have whole : before.pending ++ delivered (events ++ more) =
        blanks ++ (ink ++ behind ++ after.pending) := by
      rw [delivered_append, ← List.append_assoc, eq, List.append_assoc, eq']
    have given : Except.ok token = Token.given limit (some ink) := by
      rw [kept, Token.extend_empty]
      rfl
    rw [starts, List.cons_append] at eq'
    rcases ended with ⟨b, isBlank, rfl⟩ | ⟨rfl, exhausted⟩
    · have nonempty : ink ≠ [] := by
        rintro rfl
        injection eq' with same
        rw [same, Text.isInk, isBlank] at isInk
        cases isInk
      refine ⟨_, _, _, ?_, .delimited areBlank areInk nonempty isBlank, by simp, given⟩
      rw [whole]
      simp only [List.append_assoc]
    · have nonempty : ink ≠ [] := by
        rintro rfl
        rw [exhausted.1] at eq'
        cases eq'
      refine ⟨_, _, _, ?_, .last areBlank areInk nonempty, fun _ => exhausted, given⟩
      rw [whole]
      simp only [List.append_assoc, List.nil_append]
  atEnd := fun atEnd => by
    obtain ⟨rfl, atEnd⟩ := h.atEnd atEnd
    obtain ⟨rfl, atEnd⟩ := h'.atEnd atEnd
    exact ⟨rfl, atEnd⟩
  seen := h.seen.trans h'.seen

theorem closed (h : Skipping before events false after) :
    Reading limit before events (.error .closed) after where
  refills := h.refills
  taken := by
    obtain ⟨blanks, eq, areBlank⟩ := h.blanks
    exact ⟨blanks, none, true, eq, .nothing areBlank, fun _ => h.exhausted rfl, rfl⟩
  atEnd := h.atEnd
  seen := h.seen

theorem gulping (h : Skipping before events true middle)
    (h' : Gulping reads middle more stop after) :
    Draining reads before (events ++ more) stop after where
  used := by
    obtain ⟨blanks, eq, areBlank⟩ := h.blanks
    refine ⟨blanks, middle.pending ++ delivered more, ?_, areBlank, h'.ink⟩
    rw [delivered_append, ← List.append_assoc, eq, List.append_assoc]
  notEnd := by
    cases atEnd : before.atEnd with
    | false => rfl
    | true =>
      have := h'.notEnd
      rw [(h.atEnd atEnd).2] at this
      cases this
  after_eq := h'.after_eq
  waited := h'.waited.imp_right fun ⟨impatient, waited⟩ => ⟨impatient, by
    rw [List.length_append]
    omega⟩

end Skipping

/-- Reading a token takes what it may of the input, or it stops and has used up what was at hand. -/
theorem traced_readToken (host : Host σ) (limit : Nat) (c : Recording σ) :
    Traced (Console.readToken host.recorded limit) c
      (fun events result d => Reading limit c.inbox events result d.inbox)
      (fun events stop d => Stops Refills events stop ∧
        Draining (host.patience c.machine.1) c.inbox events stop d.inbox) := by
  rw [Console.readToken]
  refine Traced.of_eq ?_ (Session.get_bind_apply _ c) rfl
  refine (traced_skipBlanks host _ c).bind ?_ fun _ _ _ stopped => stopped
  intro events found d skipping
  cases found with
  | false => exact Traced.pure (by simpa using skipping.closed)
  | true =>
    refine (traced_takeInk host limit _ {} d).bind ?_ ?_
    · intro more token e taking
      refine Traced.pure ?_
      rw [List.append_nil]
      exact skipping.taking taking
    · rintro more stop e ⟨stops, gulping⟩
      exact ⟨.after_refills skipping.refills stops, skipping.gulping gulping⟩

/-! ## Integers and names -/

namespace Token

/-- The integer that a token of the input stands for. -/
def integer? (ink : List UInt8) : Option Int32 :=
  if ink.length ≤ Console.maxIntToken then (Utf8.decode? ink).bind Numeral.parse else none

theorem int?_kept (ink : List UInt8) : (kept Console.maxIntToken ink).int? = integer? ink := by
  simp only [int?, complete?, integer?, kept, List.length_take]
  by_cases h : ink.length ≤ Console.maxIntToken
  · rw [if_pos (Nat.min_eq_right h), if_pos h, List.take_of_length_le h]
    rfl
  · rw [if_neg (by omega), if_neg h]
    rfl

def asInt : Except InputError Token → Except InputError Int32
  | .error e => .error e
  | .ok token =>
    match token.int? with
    | some n => .ok n
    | none => .error (.notInteger token.shown)

def asName (capacity : Nat) : Except InputError Token → Except InputError (List UInt8)
  | .error e => .error e
  | .ok token =>
    if token.length < capacity then .ok token.bytes else .error (.nameTooLong token.length capacity)

theorem asInt_given (ink : List UInt8) :
    asInt (given Console.maxIntToken (some ink)) =
      match integer? ink with
      | some n => .ok n
      | none => .error (.notInteger (kept Console.maxIntToken ink).shown) := by
  rw [given, asInt, int?_kept]

theorem asName_given (capacity : Nat) (ink : List UInt8) :
    asName capacity (given capacity (some ink)) =
      if ink.length < capacity then .ok ink else .error (.nameTooLong ink.length capacity) := by
  simp only [given, asName, kept]
  split
  · next fits => rw [List.take_of_length_le (Nat.le_of_lt fits)]
  · rfl

end Token

theorem Console.readInt_eq (host : Host σ) :
    readInt host = readToken host maxIntToken >>= fun result => pure (Token.asInt result) := by
  rw [readInt]
  congr 1
  funext result
  cases result with
  | error e => rfl
  | ok token =>
    simp only [Token.asInt]
    cases token.int? <;> rfl

theorem Console.readName_eq (host : Host σ) (capacity : Nat) :
    readName host capacity =
      readToken host capacity >>= fun result => pure (Token.asName capacity result) := by
  rw [readName]
  congr 1
  funext result
  cases result with
  | error e => rfl
  | ok token =>
    simp only [Token.asName]
    split <;> rfl

end ProcessDrill
