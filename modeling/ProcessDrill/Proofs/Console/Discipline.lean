import ProcessDrill.Proofs.Console.Reading
import ProcessDrill.Proofs.Host.Simulation
/-!
# The discipline of reading

* `Watched past ended`: every read in the record offers an empty buffer of one chunk, and there is none behind the
  one that found the end of the input; `ended` tells whether there was such a one.
* `Orderly size past inbox`: what the record and the input at hand have to do with each other, when no more than
  `size` bytes are pending and none at the end.

Main statement: `readToken_orderly`, less than a chunk is pending after a token was read, however that went, and the
record is watched if it was before. A token that is pending with the blank behind it takes no read, and nor does any
behind the end of the input: `readToken_of_pending`, `readToken_of_ended`.
-/

namespace ProcessDrill

set_option autoImplicit false

/-! ## Records -/

inductive Watched : List Event → Bool → Prop
  | nil : Watched [] false
  | other {past : List Event} {ended : Bool} {event : Event} (before : Watched past ended)
      (other : ¬ event.IsRead) : Watched (past ++ [event]) ended
  | more {past : List Event} {event : Event} (before : Watched past false)
      (asked : event.call? = some (.read (Buffer.zeros Console.chunkSize))) (more : ¬ event.IsEnd) :
      Watched (past ++ [event]) false
  | last {past : List Event} {event : Event} (before : Watched past false)
      (asked : event.call? = some (.read (Buffer.zeros Console.chunkSize))) (last : event.IsEnd) :
      Watched (past ++ [event]) true

namespace Watched

variable {past events : List Event} {ended : Bool}

theorem others (h : Watched past ended) (others : ∀ event ∈ events, ¬ event.IsRead) :
    Watched (past ++ events) ended := by
  induction events generalizing past with
  | nil => rwa [List.append_nil]
  | cons event events ih =>
    obtain ⟨here, later⟩ := List.forall_mem_cons.1 others
    have := ih (h.other here) later
    rwa [List.append_assoc] at this

theorem chunk (h : Watched past ended) :
    ∀ event ∈ past, event.IsRead → event.call? = some (.read (Buffer.zeros Console.chunkSize)) := by
  induction h with
  | nil => exact nofun
  | other _ other ih =>
    exact List.forall_mem_append.2 ⟨ih, List.forall_mem_singleton.2 fun read => absurd read other⟩
  | more _ asked _ ih => exact List.forall_mem_append.2 ⟨ih, List.forall_mem_singleton.2 fun _ => asked⟩
  | last _ asked _ ih => exact List.forall_mem_append.2 ⟨ih, List.forall_mem_singleton.2 fun _ => asked⟩

theorem ended_iff (h : Watched past ended) : ended = true ↔ ∃ event ∈ past, event.IsEnd := by
  have behind (past : List Event) (event : Event) :
      (∃ e ∈ past ++ [event], e.IsEnd) ↔ (∃ e ∈ past, e.IsEnd) ∨ event.IsEnd := by
    simp only [List.mem_append, List.mem_singleton, or_and_right, exists_or, exists_eq_left]
  induction h with
  | nil => simp
  | other _ other ih =>
    rw [behind, or_iff_left fun last => other last.isRead]
    exact ih
  | more _ _ more ih =>
    rw [behind, or_iff_left more]
    exact ih
  | last _ _ last ih => exact iff_of_true rfl ((behind _ _).2 (.inr last))

theorem not_read_behind (h : Watched past ended) {before after : List Event} {last : Event}
    (split : past = before ++ last :: after) (end' : last.IsEnd) : ∀ event ∈ after, ¬ event.IsRead := by
  -- The last event of the record is not a read if the end was found before it.
  have inside {past : List Event} {event : Event} {after : List Event}
      (split : past ++ [event] = before ++ last :: after) :
      after = [] ∨ ∃ between, after = between ++ [event] ∧ past = before ++ last :: between := by
    rcases after.eq_nil_or_concat with rfl | ⟨between, final, rfl⟩
    · exact .inl rfl
    · rw [List.concat_eq_append, ← List.cons_append, ← List.append_assoc] at split
      obtain ⟨rfl, same⟩ := List.append_inj' split rfl
      cases same
      exact .inr ⟨between, List.concat_eq_append .., rfl⟩
  induction h generalizing after with
  | nil => simp at split
  | other _ other ih =>
    rcases inside split with rfl | ⟨between, rfl, eq⟩
    · exact nofun
    · exact List.forall_mem_append.2 ⟨ih eq, List.forall_mem_singleton.2 other⟩
  | more before' _ _ ih =>
    rcases inside split with rfl | ⟨between, rfl, eq⟩
    · exact nofun
    · exact absurd (before'.ended_iff.2 ⟨last, by simp [eq], end'⟩) Bool.false_ne_true
  | last before' _ _ ih =>
    rcases inside split with rfl | ⟨between, rfl, eq⟩
    · exact nofun
    · exact absurd (before'.ended_iff.2 ⟨last, by simp [eq], end'⟩) Bool.false_ne_true

end Watched

/-! ## Orderly consoles -/

structure Orderly (size : Nat) (past : List Event) (inbox : Inbox) : Prop where
  room : inbox.pending.length ≤ size
  ended : inbox.atEnd = true → inbox.pending = []
  watched : Watched past inbox.atEnd

namespace Orderly

variable {size : Nat} {past : List Event} {inbox : Inbox}

theorem others (h : Orderly size past inbox) {events : List Event} (others : ∀ event ∈ events, ¬ event.IsRead) :
    Orderly size (past ++ events) inbox where
  room := h.room
  ended := h.ended
  watched := h.watched.others others

theorem left {room : Nat} {pending : List UInt8} (h : Orderly size past inbox) (suffix : pending <:+ inbox.pending)
    (fits : pending.length ≤ room) : Orderly room past { inbox with pending } where
  room := fits
  ended := fun ended => List.suffix_nil.1 (h.ended ended ▸ suffix)
  watched := h.watched

theorem emptied (h : Orderly size past inbox) (room : Nat) : Orderly room past { inbox with pending := [] } :=
  h.left List.nil_suffix (Nat.zero_le room)

end Orderly

namespace Console

variable {σ : Type}

/-- What a session leaves behind on a machine that keeps a record, when it comes to its end with a value and when
it stops. -/
def Leaves {α : Type} (size : α → Nat) : EStateM.Result Stop (Recording σ) α → Prop
  | .ok a d => Orderly (size a) d.machine.2 d.inbox
  | .error _ d => Orderly (chunkSize - 1) d.machine.2 d.inbox

/-- How many bytes may be pending while blanks are skipped. -/
def unskipped (more : Bool) : Nat :=
  if more then chunkSize else chunkSize - 1

theorem refill_orderly (host : Host σ) {c : Recording σ} (empty : c.pending = []) (notEnd : c.atEnd = false)
    (watched : Watched c.machine.2 false) : Leaves unskipped (refill host.recorded c) := by
  have asked := traced_ask host (.read (Buffer.zeros chunkSize)) c
  have inbox : c.inbox = ⟨[], false⟩ := inbox_eq_iff.2 ⟨empty, notEnd⟩
  rw [refill, Session.bind_apply]
  cases run : ask host.recorded (.read (Buffer.zeros chunkSize)) c with
  | error stop d =>
    obtain ⟨_, record, rfl, -, same⟩ := asked.stopped_of_eq run
    show Orderly _ d.machine.2 d.inbox
    rw [record, same, inbox]
    exact ⟨Nat.zero_le _, fun _ => rfl, watched.more rfl (by rintro ⟨_, _, eq⟩; cases eq)⟩
  | ok answer d =>
    obtain ⟨_, record, rfl, same⟩ := asked.ok_of_eq run
    obtain ⟨result, stored⟩ := answer
    have pending : d.pending = [] := (congrArg Inbox.pending same).trans empty
    have atEnd : d.atEnd = false := (congrArg Inbox.atEnd same).trans notEnd
    rcases result with e | _ | n
    · show Orderly _ d.machine.2 d.inbox
      rw [record, same, inbox]
      exact ⟨Nat.zero_le _, fun _ => rfl, watched.more rfl (by rintro ⟨_, _, eq⟩; cases eq)⟩
    · show Orderly _ d.machine.2 ⟨d.pending, true⟩
      rw [record, pending]
      exact ⟨Nat.zero_le _, fun _ => rfl, watched.last rfl ⟨_, _, rfl⟩⟩
    · have slice := Buffer.sliceTo?_min (Buffer.overlay stored (Buffer.zeros chunkSize)) (n + 1)
      rw [Buffer.length_overlay, Buffer.length_zeros] at slice
      simp only [slice]
      show Orderly _ d.machine.2 ⟨d.pending ++ _, d.atEnd⟩
      rw [record, pending, atEnd]
      refine ⟨?_, fun ended => absurd ended Bool.false_ne_true, watched.more rfl (by rintro ⟨_, _, eq⟩; cases eq)⟩
      simp only [List.nil_append, List.length_take, Buffer.length_overlay, Buffer.length_zeros]
      exact Nat.min_le_right _ _

theorem skipBlanks_orderly_settled (host : Host σ) (reads : Nat) {c : Recording σ}
    (h : Orderly chunkSize c.machine.2 c.inbox)
    (settled : c.pending.dropWhile Text.isBlank ≠ [] ∨ c.atEnd = true) :
    Leaves unskipped (skipBlanks host.recorded reads c) := by
  by_cases ink : c.pending.dropWhile Text.isBlank = []
  · rw [skipBlanks_of_atEnd ink (settled.resolve_left (not_not_intro ink))]
    exact h.emptied _
  · rw [skipBlanks_of_ink ink]
    have suffix := List.dropWhile_suffix Text.isBlank (l := c.pending)
    exact h.left suffix (Nat.le_trans suffix.length_le h.room)

/-- What is left behind the blanks was pending or was brought by the last read, so it is a chunk at most. -/
theorem skipBlanks_orderly (host : Host σ) (reads : Nat) {c : Recording σ}
    (h : Orderly chunkSize c.machine.2 c.inbox) : Leaves unskipped (skipBlanks host.recorded reads c) := by
  induction reads generalizing c with
  | zero =>
    by_cases settled : c.pending.dropWhile Text.isBlank ≠ [] ∨ c.atEnd = true
    · exact skipBlanks_orderly_settled host 0 h settled
    obtain ⟨blank, notEnd⟩ := dry_of_not_settled settled
    rw [skipBlanks_zero blank notEnd]
    exact h.emptied _
  | succ reads ih =>
    by_cases settled : c.pending.dropWhile Text.isBlank ≠ [] ∨ c.atEnd = true
    · exact skipBlanks_orderly_settled host (reads + 1) h settled
    obtain ⟨blank, notEnd⟩ := dry_of_not_settled settled
    have watched := h.watched
    rw [atEnd_inbox, notEnd] at watched
    have refilled := refill_orderly host (c := { c with pending := [] }) rfl notEnd watched
    rw [skipBlanks_succ blank notEnd, Session.bind_apply]
    generalize refill host.recorded { c with pending := [] } = result at refilled
    match result with
    | .error stop d => exact refilled
    | .ok false d => exact refilled
    | .ok true d => exact ih refilled

theorem takeInk_orderly_settled (host : Host σ) (limit reads : Nat) (token : Token) {c : Recording σ}
    (h : Orderly chunkSize c.machine.2 c.inbox)
    (settled : c.pending.dropWhile Text.isInk ≠ [] ∨ c.atEnd = true) :
    Leaves (fun _ => chunkSize - 1) (takeInk host.recorded limit reads token c) := by
  by_cases blank : c.pending.dropWhile Text.isInk = []
  · rw [takeInk_of_atEnd blank (settled.resolve_left (not_not_intro blank))]
    exact h.emptied _
  · obtain ⟨b, rest, eq⟩ := List.exists_cons_of_ne_nil blank
    have suffix : b :: rest <:+ c.pending := eq ▸ List.dropWhile_suffix Text.isInk
    have shorter := Nat.le_trans suffix.length_le h.room
    rw [takeInk_of_blank eq]
    refine h.left ((List.suffix_cons b rest).trans suffix) (Nat.le_sub_of_add_le ?_)
    exact shorter

/-- The blank behind a token is used up, so less than a chunk is left. -/
theorem takeInk_orderly (host : Host σ) (limit reads : Nat) (token : Token) {c : Recording σ}
    (h : Orderly chunkSize c.machine.2 c.inbox) :
    Leaves (fun _ => chunkSize - 1) (takeInk host.recorded limit reads token c) := by
  induction reads generalizing token c with
  | zero =>
    by_cases settled : c.pending.dropWhile Text.isInk ≠ [] ∨ c.atEnd = true
    · exact takeInk_orderly_settled host limit 0 token h settled
    obtain ⟨ink, notEnd⟩ := dry_of_not_settled settled
    rw [takeInk_zero ink notEnd]
    exact h.emptied _
  | succ reads ih =>
    by_cases settled : c.pending.dropWhile Text.isInk ≠ [] ∨ c.atEnd = true
    · exact takeInk_orderly_settled host limit (reads + 1) token h settled
    obtain ⟨ink, notEnd⟩ := dry_of_not_settled settled
    have watched := h.watched
    rw [atEnd_inbox, notEnd] at watched
    have refilled := refill_orderly host (c := { c with pending := [] }) rfl notEnd watched
    rw [takeInk_succ ink notEnd, Session.bind_apply]
    generalize refill host.recorded { c with pending := [] } = result at refilled
    match result with
    | .error stop d => exact refilled
    | .ok false d => exact refilled
    | .ok true d => exact ih _ refilled

theorem readToken_orderly (host : Host σ) (limit : Nat) {c : Recording σ}
    (h : Orderly (chunkSize - 1) c.machine.2 c.inbox) :
    Leaves (fun _ => chunkSize - 1) (readToken host.recorded limit c) := by
  have within : Orderly chunkSize c.machine.2 c.inbox :=
    ⟨Nat.le_trans h.room (Nat.sub_le _ _), h.ended, h.watched⟩
  have skipped := skipBlanks_orderly host (host.recorded.patience c.machine) within
  rw [readToken, Session.get_bind_apply, Session.bind_apply]
  generalize skipBlanks host.recorded (host.recorded.patience c.machine) c = result at skipped
  rcases result with ⟨_ | _, d⟩ | ⟨stop, d⟩
  · exact skipped
  · have taken := takeInk_orderly host limit (host.recorded.patience c.machine) {} skipped
    simp only [if_true, Session.bind_apply]
    generalize takeInk host.recorded limit (host.recorded.patience c.machine) {} d = result at taken
    cases result with
    | ok token e => exact taken
    | error stop e => exact taken
  · exact skipped

theorem Leaves.leftBy {α : Type} {result : EStateM.Result Stop (Recording σ) α}
    (h : Leaves (fun _ => chunkSize - 1) result) :
    Orderly (chunkSize - 1) (leftBy result).machine.2 (leftBy result).inbox := by
  cases result with
  | ok a d => exact h
  | error stop d => exact h

/-! ## Nothing is asked for -/

variable {host : Host σ} {c : Console σ}

/-- A token that is pending with the blank behind it is taken without the machine. -/
theorem readToken_of_pending (limit : Nat) {used ink rest : List UInt8} (pending : c.pending = used ++ rest)
    (taken : Text.Taken used (some ink) false) :
    readToken host limit c = .ok (Token.given limit (some ink)) { c with pending := rest } := by
  cases taken with
  | @delimited blanks ink b before inside nonempty behind =>
    have whole : c.pending = blanks ++ (ink ++ b :: rest) := by
      rw [pending]
      simp only [List.append_assoc, List.singleton_append]
    have skipped : c.pending.dropWhile Text.isBlank = ink ++ b :: rest := by
      obtain ⟨first, more, rfl⟩ := List.exists_cons_of_ne_nil nonempty
      have isInk : Text.isBlank first = false := by
        simpa [Text.isInk] using inside first List.mem_cons_self
      rw [whole, List.dropWhile_append_of_pos before, List.cons_append,
        List.dropWhile_cons_of_neg (by rw [isInk]; exact Bool.false_ne_true)]
    have notInk : ¬ Text.isInk b = true := by simp [Text.isInk, behind]
    have ends : (ink ++ b :: rest).dropWhile Text.isInk = b :: rest := by
      rw [List.dropWhile_append_of_pos inside, List.dropWhile_cons_of_neg notInk]
    have inked : (ink ++ b :: rest).takeWhile Text.isInk = ink := by
      rw [List.takeWhile_append_of_pos inside, List.takeWhile_cons_of_neg notInk, List.append_nil]
    have found : c.pending.dropWhile Text.isBlank ≠ [] := by
      rw [skipped]
      exact List.append_ne_nil_of_left_ne_nil nonempty _
    rw [readToken, Session.get_bind_apply, Session.bind_apply, skipBlanks_of_ink found, skipped]
    simp only [if_true, Session.bind_apply]
    rw [takeInk_of_blank (c := { c with pending := ink ++ b :: rest }) ends, inked, Token.extend_empty]
    rfl

theorem readToken_of_ended (limit : Nat) (empty : c.pending = []) (ended : c.atEnd = true) :
    readToken host limit c = .ok (.error .closed) c := by
  have blank : c.pending.dropWhile Text.isBlank = [] := by rw [empty]; rfl
  have same : { c with pending := [] } = c := by rw [← empty]
  rw [readToken, Session.get_bind_apply, Session.bind_apply, skipBlanks_of_atEnd blank ended, same]
  rfl

end Console

end ProcessDrill
