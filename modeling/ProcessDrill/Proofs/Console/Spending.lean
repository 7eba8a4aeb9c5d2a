import ProcessDrill.Proofs.Console.Next
import ProcessDrill.Proofs.Console.Offers
/-!
# The number of calls

* `Event.isBarren`: a read that brought nothing, as it found the end of the input, failed, or was not answered.
* `Spends pending events left`: reads that were made by a session with `pending` at hand. All that is at hand is used up
  before a read, so every read but the last brought something that is used up, and what is left at the end was brought
  by the last one.

Main statements: `Operation.reads_le`, reading makes no more reads than it uses up bytes, and one; `writes_le`,
printing makes no more writes than it has bytes. Both are true of every machine.
-/

namespace ProcessDrill

set_option autoImplicit false

variable {σ α : Type}

/-! ## Reads -/

def Event.isBarren : Event → Bool
  | answered (.read _) (.ok (_ + 1), _) => false
  | event => event.call?.any Call.isRead

theorem Event.delivered_of_barren {event : Event} (h : event.isBarren = true) : event.delivered = [] := by
  cases event with
  | unanswered call => rfl
  | logged record => rfl
  | answered call answer =>
    cases call with
    | read buffer =>
      match answer with
      | (.error e, _) => rfl
      | (.ok 0, _) => rfl
      | (.ok (n + 1), _) => cases h
    | _ => rfl

inductive Spends : List UInt8 → List Event → List UInt8 → Prop
  | nothing {pending left : List UInt8} (kept : left <:+ pending) : Spends pending [] left
  | read {pending left : List UInt8} {event : Event} {events : List Event}
      (more : events ≠ [] → event.delivered ≠ []) (rest : Spends event.delivered events left) :
      Spends pending (event :: events) left

namespace Spends

variable {pending middle left : List UInt8} {events more : List Event}

theorem suffix_of_nil (h : Spends pending [] left) : left <:+ pending := by
  cases h with
  | nothing kept => exact kept

theorem length_le (h : Spends pending events left) (some : events ≠ []) :
    events.length + left.length ≤ 1 + (delivered events).length := by
  induction h with
  | nothing kept => exact absurd rfl some
  | @read pending left event events more rest ih =>
    rw [delivered_cons, List.length_append, List.length_cons]
    by_cases last : events = []
    · subst last
      have := rest.suffix_of_nil.length_le
      rw [List.length_nil, delivered_nil, List.length_nil]
      omega
    · have := ih last
      have := List.length_pos_iff.2 (more last)
      omega

/-- There are no more reads than bytes that were used up, apart from the last. -/
theorem length_le_used (h : Spends pending events left) {used : List UInt8}
    (eq : pending ++ delivered events = used ++ left) : events.length ≤ 1 + used.length := by
  by_cases none : events = []
  · rw [none]
    exact Nat.zero_le _
  · have := h.length_le none
    have := congrArg List.length eq
    simp only [List.length_append] at this
    omega

theorem countP_barren_le (h : Spends pending events left) : events.countP Event.isBarren ≤ 1 := by
  induction h with
  | nothing kept => exact Nat.zero_le _
  | @read pending left event events more rest ih =>
    by_cases last : events = []
    · subst last
      exact List.countP_le_length
    · have fertile : ¬ event.isBarren = true := fun barren => more last (Event.delivered_of_barren barren)
      rwa [List.countP_cons_of_neg fertile]

theorem trans (h : Spends pending events middle) (h' : Spends middle more left) (some : middle ≠ []) :
    Spends pending (events ++ more) left := by
  induction h with
  | nothing kept =>
    cases h' with
    | nothing kept' => exact .nothing (kept'.trans kept)
    | read more rest => exact .read more rest
  | @read pending middle event events brings rest ih =>
    refine .read (fun _ nothing => ?_) (ih h' some)
    by_cases last : events = []
    · subst last
      have kept := rest.suffix_of_nil
      rw [nothing] at kept
      exact some (List.suffix_nil.1 kept)
    · exact brings last nothing

end Spends

/-! ## Sessions that read -/

theorem Traced.and {f : Session (σ × List Event) α} {c : Recording σ}
    {ok ok' : List Event → α → Recording σ → Prop} {stopped stopped' : List Event → Stop → Recording σ → Prop}
    (h : Traced f c ok stopped) (h' : Traced f c ok' stopped') :
    Traced f c (fun events a d => ok events a d ∧ ok' events a d)
      (fun events stop d => stopped events stop d ∧ stopped' events stop d) := by
  cases run : f c with
  | ok a d =>
    obtain ⟨events, record, post⟩ := h.ok_of_eq run
    obtain ⟨events', record', post'⟩ := h'.ok_of_eq run
    obtain rfl := List.append_cancel_left (record.symm.trans record')
    exact .of_ok run record ⟨post, post'⟩
  | error stop d =>
    obtain ⟨events, record, post⟩ := h.stopped_of_eq run
    obtain ⟨events', record', post'⟩ := h'.stopped_of_eq run
    obtain rfl := List.append_cancel_left (record.symm.trans record')
    exact .of_error run record ⟨post, post'⟩

/-- The session reads as sparingly as it can with these bytes at hand, however it ends. -/
def Thrifty (f : Session (σ × List Event) α) (c : Recording σ) (pending : List UInt8) : Prop :=
  Traced f c (fun events _ d => Spends pending events d.pending) (fun events _ d => Spends pending events d.pending)

theorem thrifty_refill_bind (host : Host σ) {f : Bool → Session (σ × List Event) α} {c : Recording σ}
    (empty : c.pending = []) (more : ∀ d, Thrifty (f true) d d.pending) (last : ∃ a, f false = pure a)
    (pending : List UInt8) : Thrifty (Console.refill host.recorded >>= f) c pending := by
  refine (traced_refill host c).bind ?_ ?_
  · rintro events found d ⟨-, one, brought, -, nothing, -⟩
    obtain ⟨event, rfl⟩ := List.length_eq_one_iff.1 one
    have brought : d.pending = event.delivered := by
      rw [brought, empty, delivered_cons, delivered_nil, List.append_nil, List.nil_append]
    cases found with
    | false =>
      obtain ⟨a, last⟩ := last
      rw [last]
      exact Traced.pure (.read (absurd rfl) (.nothing (brought ▸ List.suffix_rfl)))
    | true =>
      have some : event.delivered ≠ [] := by
        intro none
        simp [none] at nothing
      have behind {events : List Event} {e : Recording σ} (h : Spends d.pending events e.pending) :
          Spends pending (event :: events) e.pending :=
        .read (fun _ => some) (brought ▸ h)
      exact (more d).mono (fun _ _ _ => behind) (fun _ _ _ => behind)
  · rintro events stop d ⟨-, one, -, nothing, same⟩
    obtain ⟨event, rfl⟩ := List.length_eq_one_iff.1 one
    have left : d.pending = [] := (congrArg Inbox.pending same).trans empty
    exact .read (absurd rfl) (.nothing (left ▸ List.nil_suffix))

theorem thrifty_skipBlanks (host : Host σ) (reads : Nat) (c : Recording σ) :
    Thrifty (Console.skipBlanks host.recorded reads) c c.pending := by
  induction reads generalizing c with
  | zero =>
    by_cases h : c.pending.dropWhile Text.isBlank ≠ [] ∨ c.atEnd = true
    · obtain ⟨found, pending, suffix, runs⟩ := Console.skipBlanks_of_settled h
      exact Traced.of_ok (runs _ _) (List.append_nil _).symm (.nothing suffix)
    obtain ⟨blank, notEnd⟩ := dry_of_not_settled h
    exact Traced.of_error (Console.skipBlanks_zero blank notEnd) (List.append_nil _).symm
      (.nothing List.nil_suffix)
  | succ reads ih =>
    by_cases h : c.pending.dropWhile Text.isBlank ≠ [] ∨ c.atEnd = true
    · obtain ⟨found, pending, suffix, runs⟩ := Console.skipBlanks_of_settled h
      exact Traced.of_ok (runs _ _) (List.append_nil _).symm (.nothing suffix)
    obtain ⟨blank, notEnd⟩ := dry_of_not_settled h
    refine Traced.of_eq ?_ (Console.skipBlanks_succ blank notEnd) rfl
    refine thrifty_refill_bind host rfl ?_ ?_ _
    · exact ih
    · exact ⟨false, rfl⟩

theorem thrifty_takeInk (host : Host σ) (limit reads : Nat) (token : Token) (c : Recording σ) :
    Thrifty (Console.takeInk host.recorded limit reads token) c c.pending := by
  induction reads generalizing token c with
  | zero =>
    by_cases h : c.pending.dropWhile Text.isInk ≠ [] ∨ c.atEnd = true
    · obtain ⟨taken, pending, suffix, runs⟩ := Console.takeInk_of_settled limit token h
      exact Traced.of_ok (runs _ _) (List.append_nil _).symm (.nothing suffix)
    obtain ⟨ink, notEnd⟩ := dry_of_not_settled h
    exact Traced.of_error (Console.takeInk_zero ink notEnd) (List.append_nil _).symm (.nothing List.nil_suffix)
  | succ reads ih =>
    by_cases h : c.pending.dropWhile Text.isInk ≠ [] ∨ c.atEnd = true
    · obtain ⟨taken, pending, suffix, runs⟩ := Console.takeInk_of_settled limit token h
      exact Traced.of_ok (runs _ _) (List.append_nil _).symm (.nothing suffix)
    obtain ⟨ink, notEnd⟩ := dry_of_not_settled h
    refine Traced.of_eq ?_ (Console.takeInk_succ ink notEnd) rfl
    refine thrifty_refill_bind host rfl ?_ ?_ _
    · exact ih _
    · exact ⟨_, rfl⟩

theorem thrifty_readToken (host : Host σ) (limit : Nat) (c : Recording σ) :
    Thrifty (Console.readToken host.recorded limit) c c.pending := by
  rw [Console.readToken]
  refine Traced.of_eq ?_ (Session.get_bind_apply _ c) rfl
  refine ((traced_skipBlanks host _ c).and (thrifty_skipBlanks host _ c)).bind ?_ fun _ _ _ h => h.2
  rintro events found d ⟨skipping, spends⟩
  cases found with
  | false => exact Traced.pure (by rwa [List.append_nil])
  | true =>
    -- A token stands first among what the blanks have left, so the last read before it brought something.
    obtain ⟨b, rest, starts, -⟩ := skipping.ink rfl
    have some : d.inbox.pending ≠ [] := by
      rw [starts]
      exact List.cons_ne_nil b rest
    refine (thrifty_takeInk host limit _ {} d).bind ?_ fun _ _ _ later => spends.trans later some
    intro more token e later
    refine Traced.pure ?_
    rw [List.append_nil]
    exact spends.trans later some

/-! ## The cost of an operation -/

theorem Text.Taken.of_runs {blanks ink : List UInt8} (before : ∀ b ∈ blanks, isBlank b = true)
    (inside : ∀ b ∈ ink, isInk b = true) : ∃ token final, Taken (blanks ++ ink) token final := by
  by_cases nonempty : ink = []
  · subst nonempty
    rw [List.append_nil]
    exact ⟨_, _, .nothing before⟩
  · exact ⟨_, _, .last before inside nonempty⟩

namespace Console

theorem readToken_spends (host : Host σ) (limit : Nat) (c : Console σ) :
    Spends c.pending (Session.record (readToken host.recorded limit) c) (leftBy (readToken host limit c)).pending := by
  have plain := (thrifty_readToken host limit c.recorded).plain (agree_readToken (simulates_recorded host) limit)
  cases run : readToken host limit c with
  | ok result d | error stop d =>
    rw [run] at plain
    obtain ⟨e, spends, related⟩ := plain
    exact related.pending ▸ spends

theorem readToken_uses (host : Host σ) (limit : Nat) (c : Console σ) :
    let events := Session.record (readToken host.recorded limit) c
    (∀ event ∈ events, event.IsRead) ∧ ∃ used token final, Text.Taken used token final ∧
      c.pending ++ delivered events = used ++ (leftBy (readToken host limit c)).pending := by
  have cases_token := readToken_cases host limit c
  dsimp only at cases_token ⊢
  cases run : readToken host limit c with
  | ok result d =>
    rw [run] at cases_token
    obtain ⟨used, token, final, eq, taken, -, -⟩ := cases_token.taken
    exact ⟨cases_token.refills.isRead, used, token, final, taken, eq⟩
  | error stop d =>
    rw [run] at cases_token
    obtain ⟨stops, draining⟩ := cases_token
    obtain ⟨word, refills, cut⟩ := stops.cut
    obtain ⟨blanks, ink, eq, before, inside⟩ := draining.used
    obtain ⟨token, final, taken⟩ := Text.Taken.of_runs before inside
    have left : d.pending = [] := congrArg Inbox.pending draining.after_eq
    refine ⟨cut.forall_call? (P := fun call? => ∃ buffer, call? = some (.read buffer)) refills.isRead, ?_⟩
    refine ⟨_, token, final, taken, ?_⟩
    rw [leftBy, left, List.append_nil]
    exact eq

/-- Reading makes only reads, and no more of them than the bytes that are used up, and one. At most one of them brings
nothing. What is used up are the blanks, the token, and the blank behind it, as far as they came. -/
theorem Operation.reads_le (host : Host σ) (operation : Operation) (c : Console σ) :
    let events := Session.record (operation.perform host.recorded) c
    (∀ event ∈ events, event.IsRead) ∧ events.countP Event.isBarren ≤ 1 ∧
      ∃ used token final, Text.Taken used token final ∧
        c.pending ++ delivered events = used ++ (leftBy (operation.perform host c)).pending ∧
        events.length ≤ 1 + used.length := by
  have spends := readToken_spends host operation.limit c
  obtain ⟨reads, used, token, final, taken, eq⟩ := readToken_uses host operation.limit c
  rw [operation.perform_eq, operation.perform_eq, Session.record_bind_pure, Session.leftBy_bind_pure]
  exact ⟨reads, spends.countP_barren_le, used, token, final, taken, eq, spends.length_le_used eq⟩

theorem writes_le (host : Host σ) (bytes : List UInt8) (c : Console σ) :
    let events := Session.record (writeAll host.recorded bytes) c
    (∀ event ∈ events, event.IsWrite) ∧ events.length ≤ bytes.length := by
  have offered (count : Nat → Nat) (m : Nat) : ∀ event ∈ offers bytes count m, event.IsWrite := by
    intro event mem
    obtain ⟨i, -, rfl⟩ := List.mem_map.1 mem
    exact ⟨_, rfl⟩
  have plain := (traced_writeAll_offers host bytes c.recorded).plain
    (agree_writeAll (simulates_recorded host) bytes)
  dsimp only
  cases run : writeAll host bytes c with
  | ok _ d =>
    rw [run] at plain
    obtain ⟨e, ⟨count, m, takes, whole, trace⟩, -⟩ := plain
    rw [trace, length_offers]
    exact ⟨offered count m, whole ▸ takes.le_offset⟩
  | error stop d =>
    rw [run] at plain
    obtain ⟨e, ⟨count, m, last, takes, short, refusal, trace⟩, -⟩ := plain
    rw [trace, List.length_append, length_offers]
    refine ⟨List.forall_mem_append.2 ⟨offered count m, List.forall_mem_singleton.2 ?_⟩, ?_⟩
    · cases refusal <;> exact ⟨_, rfl⟩
    · exact Nat.lt_of_le_of_lt takes.le_offset short

end Console

end ProcessDrill
