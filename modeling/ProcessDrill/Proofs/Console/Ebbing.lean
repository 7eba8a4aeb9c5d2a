import ProcessDrill.Proofs.Console.Delivery
import ProcessDrill.Proofs.Console.Tokenizer
import ProcessDrill.Proofs.Console.Writing
/-!
# Input that ends

A session waits for as many reads as its machine has patience. It settles if there is a patience from which on more of
it makes no difference; this is how a loop that waits without a limit comes to its end.

* `Settles keeps excused f s`: from some patience on, `f` comes out the same from `s`, with a state that satisfies
  `keeps` or with a stop that is excused.
* `Host.Ebbs host s`: from `s` on every read is answered, and in no course of calls do reads bring something for ever,
  with no end of the input and no error. All other answers are free, and they may change what is read.

Main statements: `readToken_settles` and `Operation.perform_settles`, on a machine whose input ebbs a token is read or
the console fails. Printing settles on every machine, `writeAll_settles`.
-/

namespace ProcessDrill

set_option autoImplicit false

/-! ## Settling -/

section Settles

variable {S T α β : Type}

def Comes (keeps : S → Prop) (excused : Stop → S → Prop) : EStateM.Result Stop S α → Prop
  | .ok _ s => keeps s
  | .error stop s => excused stop s

def Settles (keeps : S → Prop) (excused : Stop → S → Prop) (f : Nat → EStateM Stop S α) (s : S) : Prop :=
  ∃ enough result, Comes keeps excused result ∧ ∀ patience, enough ≤ patience → f patience s = result

namespace Settles

variable {keeps : S → Prop} {excused excused' : Stop → S → Prop} {f : Nat → EStateM Stop S α} {s : S}

theorem of_eq {result : EStateM.Result Stop S α} (same : ∀ patience, f patience s = result)
    (comes : Comes keeps excused result) : Settles keeps excused f s :=
  ⟨0, result, comes, fun patience _ => same patience⟩

theorem pure {a : α} (here : keeps s) : Settles keeps excused (fun _ => Pure.pure a) s :=
  .of_eq (fun _ => rfl) here

theorem throw {stop : Stop} (reason : excused stop s) :
    Settles (α := α) keeps excused (fun _ => MonadExcept.throw stop) s :=
  .of_eq (fun _ => rfl) reason

theorem congr {f' : Nat → EStateM Stop S α} {s' : S} (h : Settles keeps excused f' s')
    (same : ∀ patience, f patience s = f' patience s') : Settles keeps excused f s := by
  obtain ⟨enough, result, comes, settled⟩ := h
  exact ⟨enough, result, comes, fun patience more => (same patience).trans (settled patience more)⟩

theorem of_succ (h : Settles keeps excused (fun patience => f (patience + 1)) s) : Settles keeps excused f s := by
  obtain ⟨enough, result, comes, settled⟩ := h
  refine ⟨enough + 1, result, comes, fun patience more => ?_⟩
  obtain ⟨less, rfl⟩ := Nat.exists_eq_add_of_le' (Nat.le_of_add_left_le more)
  exact settled less (Nat.le_of_add_le_add_right more)

theorem excuse (h : Settles keeps excused f s)
    (due : ∀ patience stop t, f patience s = .error stop t → excused stop t → excused' stop t) :
    Settles keeps excused' f s := by
  obtain ⟨enough, result, comes, settled⟩ := h
  refine ⟨enough, result, ?_, settled⟩
  cases result with
  | ok a t => exact comes
  | error stop t => exact due enough stop t (settled enough (Nat.le_refl _)) comes

theorem bind {g : Nat → α → EStateM Stop S β} (first : Settles keeps excused f s)
    (second : ∀ a t, keeps t → Settles keeps excused (fun patience => g patience a) t) :
    Settles keeps excused (fun patience => f patience >>= g patience) s := by
  obtain ⟨enough, result, comes, settled⟩ := first
  cases result with
  | error stop t =>
    refine ⟨enough, .error stop t, comes, fun patience more => ?_⟩
    simp only [Bind.bind, EStateM.bind, settled patience more]
  | ok a t =>
    obtain ⟨enough', result', comes', settled'⟩ := second a t comes
    refine ⟨max enough enough', result', comes', fun patience more => ?_⟩
    simp only [Bind.bind, EStateM.bind, settled patience (Nat.le_trans (Nat.le_max_left _ _) more)]
    exact settled' patience (Nat.le_trans (Nat.le_max_right _ _) more)

end Settles

end Settles

/-! ## Machines -/

variable {σ α : Type}

/-- The machine, with the same patience in every state. -/
def Host.waiting (host : Host σ) (patience : Nat) : Host σ :=
  { host with patience := fun _ => patience }

/-- What a machine can come to when it is asked and told whatever, but reads nothing. -/
inductive Host.Unread (host : Host σ) (s : σ) : σ → Prop
  | here : Unread host s s
  | asked {t : σ} (before : Unread host s t) {call : Call} (other : call.isRead = false) :
      Unread host s (host.answer call t).2
  | told {t : σ} (before : Unread host s t) (record : Log.Record) : Unread host s (host.log record t)

inductive Host.Ebbs (host : Host σ) : σ → Prop
  | intro {s : σ} (answers : ∀ t, host.Unread s t → (host.answer .chunk t).1 ≠ none)
      (more : ∀ t, host.Unread s t → ∀ n stored, (host.answer .chunk t).1 = some (.ok (n + 1), stored) →
        Ebbs host (host.answer .chunk t).2) : Ebbs host s

/-- A stop that is due to the machine, in the state that it was left in: it failed at the console, or it was asked
something that is no read and did not answer. -/
inductive Host.Excuses (host : Host σ) : Stop → σ → Prop
  | console (e : Errno) (s : σ) : Excuses host (.console e) s
  | unanswered {call : Call} {s : σ} (other : call.isRead = false) (never : (host.answer call s).1 = none) :
      Excuses host .neverReturned (host.answer call s).2

namespace Host

variable {host : Host σ} {s t : σ}

theorem Unread.trans {u : σ} (h : host.Unread s t) (h' : host.Unread t u) : host.Unread s u := by
  induction h' with
  | here => exact h
  | asked _ other ih => exact ih.asked other
  | told _ record ih => exact ih.told record

theorem Ebbs.unread (h : host.Ebbs s) (unread : host.Unread s t) : host.Ebbs t := by
  obtain ⟨answers, more⟩ := h
  exact ⟨fun u later => answers u (unread.trans later), fun u later => more u (unread.trans later)⟩

/-- The input ebbs if every read that brings something leaves less to come, and nothing else makes it more. -/
theorem Ebbs.of_left (left : σ → Nat) (answers : ∀ s, (host.answer .chunk s).1 ≠ none)
    (brings : ∀ s n stored, (host.answer .chunk s).1 = some (.ok (n + 1), stored) →
      left (host.answer .chunk s).2 < left s)
    (keeps : ∀ call s, call.isRead = false → left (host.answer call s).2 ≤ left s)
    (keeps_log : ∀ record s, left (host.log record s) ≤ left s) (s : σ) : host.Ebbs s := by
  induction h : left s using Nat.strongRecOn generalizing s with
  | _ n ih =>
    subst h
    have bound {t : σ} (unread : host.Unread s t) : left t ≤ left s := by
      induction unread with
      | here => exact Nat.le_refl _
      | @asked t _ call other ih => exact Nat.le_trans (keeps call t other) ih
      | @told t _ record ih => exact Nat.le_trans (keeps_log record t) ih
    refine .intro (fun t _ => answers t) fun t unread n stored brought => ?_
    exact ih _ (Nat.lt_of_lt_of_le (brings t n stored brought) (bound unread)) _ rfl

theorem Unread.of_recorded {s t : σ × List Event} (h : host.recorded.Unread s t) : host.Unread s.1 t.1 := by
  induction h with
  | here => exact .here
  | asked _ other ih =>
    rw [recorded_answer_snd]
    exact ih.asked other
  | told _ record ih => exact ih.told record

/-- A record makes no difference to what is read. -/
theorem Ebbs.recorded (h : host.Ebbs s) (past : List Event) : host.recorded.Ebbs (s, past) := by
  induction h generalizing past with
  | @intro s answers more ih =>
    have alike (t : σ × List Event) := (simulates_recorded host).answer .chunk t t.1 rfl
    refine .intro (fun t unread => ?_) fun t unread n stored brought => ?_
    · rw [(alike t).1]
      exact answers t.1 unread.of_recorded
    · rw [(alike t).1] at brought
      have next := ih t.1 unread.of_recorded n stored brought (host.recorded.answer .chunk t).2.2
      rwa [← (alike t).2] at next

/-- What is not answered is the last on record. -/
theorem Excuses.last {stop : Stop} {s : σ × List Event} (h : host.recorded.Excuses stop s) :
    (∃ e, stop = .console e) ∨
      stop = .neverReturned ∧ ∃ before call, call.isRead = false ∧ s.2 = before ++ [.unanswered call] := by
  cases h with
  | console e _ => exact .inl ⟨e, rfl⟩
  | @unanswered call s other never =>
    obtain ⟨s, past⟩ := s
    have same := ((simulates_recorded host).answer call (s, past) s rfl).1
    rw [recorded_answer_none (same.symm.trans never)]
    exact .inr ⟨rfl, past, call, other, rfl⟩

end Host

/-- No read is left for a session to make, or the input of its machine ebbs. -/
def Console.Ebbing (host : Host σ) (c : Console σ) : Prop :=
  c.atEnd = true ∨ host.Ebbs c.machine

theorem Console.Ebbing.unread {host : Host σ} {c d : Console σ} (h : c.Ebbing host)
    (unread : host.Unread c.machine d.machine) (same : d.atEnd = c.atEnd) : d.Ebbing host :=
  h.imp same.trans fun ebbs => ebbs.unread unread

/-! ## Output -/

namespace Console

variable {host : Host σ} {c : Console σ}

def Excused (host : Host σ) (stop : Stop) (c : Console σ) : Prop :=
  host.Excuses stop c.machine

theorem ask_settles {call : Call} (other : call.isRead = false) (ebbing : c.Ebbing host) :
    Settles (Ebbing host) (Excused host) (fun patience => ask (host.waiting patience) call) c := by
  have unread : host.Unread c.machine (host.answer call c.machine).2 := .asked .here other
  have excused (never : (host.answer call c.machine).1 = none) :
      host.Excuses .neverReturned (host.answer call c.machine).2 := .unanswered other never
  have asked (patience : Nat) : ask (host.waiting patience) call c = ask host call c := rfl
  refine .of_eq asked ?_
  rw [ask]
  generalize host.answer call c.machine = answer at unread excused
  obtain ⟨_ | a, s⟩ := answer
  · exact excused rfl
  · exact ebbing.unread (d := { c with machine := s }) unread rfl

theorem log_settles (record : Log.Record) (ebbing : c.Ebbing host) :
    Settles (Ebbing host) (Excused host)
      (fun patience => log (host.waiting patience) record.level record.source record.message) c := by
  have told (patience : Nat) : log (host.waiting patience) record.level record.source record.message c =
      .ok () { c with machine := host.log record c.machine } := rfl
  exact .of_eq told (ebbing.unread (.told .here record) rfl)

theorem writeAll_settles (bytes : List UInt8) (ebbing : c.Ebbing host) :
    Settles (Ebbing host) (Excused host) (fun patience => writeAll (host.waiting patience) bytes) c := by
  -- A write that is not the last one has taken something, so fewer bytes are left.
  induction h : bytes.length using Nat.strongRecOn generalizing bytes c with
  | _ length ih =>
    subst h
    by_cases nonempty : bytes = []
    · subst nonempty
      have written (patience : Nat) : writeAll (host.waiting patience) [] c = .ok () c := by
        rw [writeAll, dif_pos rfl]
        rfl
      exact .of_eq written ebbing
    · simp only [writeAll_eq _ nonempty]
      refine (ask_settles rfl ebbing).bind fun answer d ebbing' => ?_
      match answer with
      | .error e => exact .throw (.console e d.machine)
      | .ok 0 => exact .throw (.console .eio d.machine)
      | .ok (n + 1) =>
        have shorter : (bytes.drop (n + 1)).length < bytes.length := by
          have := List.length_pos_iff.2 nonempty
          rw [List.length_drop]
          omega
        exact ih _ shorter (bytes.drop (n + 1)) ebbing' rfl

/-! ## One chunk -/

def Failed (stop : Stop) (_ : Console σ) : Prop :=
  ∃ e, stop = .console e

/-- What waits for a chunk settles if all that may follow does: another chunk on a machine that was left with less to
come, or the end of the input. -/
theorem refill_settles {f : Nat → Bool → Session σ α} (answered : (host.answer .chunk c.machine).1 ≠ none)
    (more : ∀ n stored, (host.answer .chunk c.machine).1 = some (.ok (n + 1), stored) →
      ∀ d : Console σ, d.machine = (host.answer .chunk c.machine).2 →
        Settles (Ebbing host) Failed (fun patience => f patience true) d)
    (last : ∀ d : Console σ, d.atEnd = true → Settles (Ebbing host) Failed (fun patience => f patience false) d) :
    Settles (Ebbing host) Failed (fun patience => refill host >>= f patience) c := by
  have runs (patience : Nat) : (refill host >>= f patience) c = _ := Session.bind_apply _ _ c
  simp only [refill_apply host c] at runs
  generalize host.answer .chunk c.machine = answer at answered more runs
  obtain ⟨_ | ⟨e | _ | n, stored⟩, s⟩ := answer
  · exact absurd rfl answered
  · exact .of_eq runs ⟨e, rfl⟩
  · exact (last _ rfl).congr runs
  · exact (more n stored rfl _ rfl).congr runs

/-! ## Reading a token -/

theorem skipBlanks_settles (ebbing : c.Ebbing host) :
    Settles (Ebbing host) Failed (skipBlanks host) c := by
  rcases ebbing with atEnd | ebbs
  · obtain ⟨found, pending, -, runs⟩ := skipBlanks_of_settled (.inr atEnd)
    exact .of_eq (runs host) (.inl atEnd)
  -- The induction is on the reads that can still bring something.
  generalize at_s : c.machine = s at ebbs
  induction ebbs generalizing c with
  | @intro s answers more ih =>
    subst at_s
    by_cases h : c.pending.dropWhile Text.isBlank ≠ [] ∨ c.atEnd = true
    · obtain ⟨found, pending, -, runs⟩ := skipBlanks_of_settled h
      exact .of_eq (runs host) (.inr ⟨answers, more⟩)
    obtain ⟨blank, notEnd⟩ := dry_of_not_settled h
    refine .of_succ (.congr ?_ fun patience => skipBlanks_succ blank notEnd)
    refine refill_settles (answers _ .here) ?_ fun d atEnd => .pure (.inl atEnd)
    intro n stored brought d left
    exact ih _ .here n stored brought left

theorem takeInk_settles (limit : Nat) (token : Token) (ebbing : c.Ebbing host) :
    Settles (Ebbing host) Failed (fun patience => takeInk host limit patience token) c := by
  rcases ebbing with atEnd | ebbs
  · obtain ⟨taken, pending, -, runs⟩ := takeInk_of_settled limit token (.inr atEnd)
    exact .of_eq (runs host) (.inl atEnd)
  generalize at_s : c.machine = s at ebbs
  induction ebbs generalizing c token with
  | @intro s answers more ih =>
    subst at_s
    by_cases h : c.pending.dropWhile Text.isInk ≠ [] ∨ c.atEnd = true
    · obtain ⟨taken, pending, -, runs⟩ := takeInk_of_settled limit token h
      exact .of_eq (runs host) (.inr ⟨answers, more⟩)
    obtain ⟨ink, notEnd⟩ := dry_of_not_settled h
    refine .of_succ (.congr ?_ fun patience => takeInk_succ ink notEnd)
    refine refill_settles (answers _ .here) ?_ fun d atEnd => .pure (.inl atEnd)
    intro n stored brought d left
    exact ih _ .here n stored brought _ left

/-- The loops look at the answers of the machine, and not at its patience. -/
theorem skipBlanks_waiting (host : Host σ) (patience reads : Nat) :
    skipBlanks (host.waiting patience) reads = skipBlanks host reads := by
  induction reads with
  | zero => rw [skipBlanks.eq_def, skipBlanks.eq_def]
  | succ reads ih =>
    rw [skipBlanks, skipBlanks, ih]
    rfl

theorem takeInk_waiting (host : Host σ) (patience limit reads : Nat) (token : Token) :
    takeInk (host.waiting patience) limit reads token = takeInk host limit reads token := by
  induction reads generalizing token with
  | zero => rw [takeInk.eq_def, takeInk.eq_def]
  | succ reads ih =>
    rw [takeInk, takeInk]
    simp only [ih]
    rfl

theorem readToken_settles (limit : Nat) (ebbing : c.Ebbing host) :
    Settles (Ebbing host) Failed (fun patience => readToken (host.waiting patience) limit) c := by
  have begun (patience : Nat) : readToken (host.waiting patience) limit c =
      (skipBlanks host patience >>= fun found =>
        if found then do
          let token ← takeInk host limit patience {}
          pure (.ok token)
        else pure (.error .closed)) c := by
    simp only [readToken, skipBlanks_waiting, takeInk_waiting]
    rfl
  refine .congr ((skipBlanks_settles ebbing).bind fun found d ebbing' => ?_) begun
  cases found with
  | false => exact .pure ebbing'
  | true => exact (takeInk_settles limit {} ebbing').bind fun token e ebbing'' => .pure ebbing''

theorem Operation.perform_settles (operation : Operation) (ebbing : c.Ebbing host) :
    Settles (Ebbing host) Failed (fun patience => operation.perform (host.waiting patience)) c := by
  simp only [operation.perform_eq]
  exact (readToken_settles operation.limit ebbing).bind fun result d ebbing' => .pure ebbing'

end Console

end ProcessDrill
