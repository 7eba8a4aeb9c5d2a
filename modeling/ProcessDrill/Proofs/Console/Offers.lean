import ProcessDrill.Proofs.Console.Writing
import ProcessDrill.Proofs.Host.Records
/-!
# What is offered

A session that writes offers its bytes from where the counts of its writes so far have come to.
* `offset size count i`: where write `i` begins, if write `j` was answered with `count j`.
* `offers bytes count m`: the record of `m` such writes.
* `Refusal rest last stop`: the write of `rest` that was not answered with a count of one or more.

Main statement: `writeAll_offers`, the record of a session that writes, on any machine and whatever counts it answers
with.
* The writes offer what is behind the offsets that the counts lead to, so a write begins where the last one ended and
  no count leads beyond the end.
* Each of them has something to offer, so there are no more writes than bytes, and none for no bytes.
* The session ends well exactly if an offset comes to the end, and then the machine has accepted all bytes in order.
* It stops at the first write that fails or takes nothing, or does not return, and then the machine has accepted the
  bytes before the offset of that write, which are not all.
-/

namespace ProcessDrill

set_option autoImplicit false

/-! ## Offsets -/

/-- Where a write begins. No count leads beyond the end. -/
def offset (size : Nat) (count : Nat → Nat) : Nat → Nat
  | 0 => 0
  | i + 1 => min size (offset size count i + count i)

/-- The writes were all answered with a count of one or more, and each of them had something to offer. -/
def Takes (size : Nat) (count : Nat → Nat) (m : Nat) : Prop :=
  ∀ i < m, 1 ≤ count i ∧ offset size count i < size

/-- The counts of the first write and of the ones behind it. -/
def counts (first : Nat) (later : Nat → Nat) : Nat → Nat
  | 0 => first
  | i + 1 => later i

section Offset

variable {size first m : Nat} {count later : Nat → Nat}

/-- Behind the first write the others begin as they would in what is left. -/
theorem offset_succ (size : Nat) (count : Nat → Nat) (i : Nat) :
    offset size count (i + 1) = min size (count 0) + offset (size - count 0) (fun j => count (j + 1)) i := by
  induction i with
  | zero => simp [offset]
  | succ i ih =>
    rw [offset, ih, offset]
    omega

theorem offset_counts (size first : Nat) (later : Nat → Nat) (i : Nat) :
    offset size (counts first later) (i + 1) = min size first + offset (size - first) later i :=
  offset_succ size (counts first later) i

theorem Takes.none : Takes size count 0 :=
  nofun

/-- Every write takes a byte at least, so there are no more of them than bytes. -/
theorem Takes.le_offset (h : Takes size count m) : m ≤ offset size count m := by
  induction m with
  | zero => exact Nat.zero_le _
  | succ m ih =>
    have before := ih fun i small => h i (Nat.lt_succ_of_lt small)
    obtain ⟨some, inside⟩ := h m (Nat.lt_succ_self m)
    rw [offset]
    omega

theorem Takes.behind (nonempty : 0 < size) (some : 1 ≤ first) (h : Takes (size - first) later m) :
    Takes size (counts first later) (m + 1) := by
  intro i small
  cases i with
  | zero => exact ⟨some, nonempty⟩
  | succ i =>
    obtain ⟨some', inside⟩ := h i (Nat.lt_of_succ_lt_succ small)
    refine ⟨some', ?_⟩
    rw [offset_counts]
    omega

end Offset

/-! ## Records -/

/-- Writes that offer what is left behind the ones before them, and their counts. -/
def offers (bytes : List UInt8) (count : Nat → Nat) (m : Nat) : List Event :=
  (List.range m).map fun i => .answered (.write (bytes.drop (offset bytes.length count i))) (.ok (count i))

@[simp]
theorem length_offers (bytes : List UInt8) (count : Nat → Nat) (m : Nat) :
    (offers bytes count m).length = m := by
  rw [offers, List.length_map, List.length_range]

theorem drop_offset_succ (bytes : List UInt8) (count : Nat → Nat) (i : Nat) :
    bytes.drop (offset bytes.length count (i + 1)) =
      (bytes.drop (count 0)).drop (offset (bytes.drop (count 0)).length (fun j => count (j + 1)) i) := by
  rw [offset_succ, List.length_drop, List.drop_drop]
  rcases Nat.le_total (count 0) bytes.length with within | beyond
  · rw [Nat.min_eq_right within]
  · rw [Nat.min_eq_left beyond, List.drop_eq_nil_of_le (Nat.le_add_right _ _),
      List.drop_eq_nil_of_le (Nat.le_add_right_of_le beyond)]

theorem offers_succ (bytes : List UInt8) (count : Nat → Nat) (m : Nat) :
    offers bytes count (m + 1) =
      .answered (.write bytes) (.ok (count 0)) :: offers (bytes.drop (count 0)) (fun i => count (i + 1)) m := by
  rw [offers, List.range_succ_eq_map, List.map_cons, List.map_map]
  refine congrArg _ (List.map_congr_left fun i _ => ?_)
  show Event.answered (.write (bytes.drop (offset bytes.length count (i + 1)))) (.ok (count (i + 1))) = _
  rw [drop_offset_succ]

theorem accepted_offers (bytes : List UInt8) (count : Nat → Nat) (m : Nat) :
    accepted (offers bytes count m) = bytes.take (offset bytes.length count m) := by
  induction m with
  | zero => rfl
  | succ m ih =>
    have last : offers bytes count (m + 1) = offers bytes count m ++
        [.answered (.write (bytes.drop (offset bytes.length count m))) (.ok (count m))] := by
      rw [offers, List.range_succ, List.map_append]
      rfl
    have clipped : bytes.take (min bytes.length (offset bytes.length count m + count m)) =
        bytes.take (offset bytes.length count m + count m) := by
      rw [Nat.min_comm, ← List.take_take, List.take_length]
    rw [last, accepted_append, ih, offset, clipped, List.take_add]
    exact congrArg _ (List.append_nil _)

/-- A write that was not answered with a count of one or more, and what it makes of the session. -/
inductive Refusal (rest : List UInt8) : Event → Stop → Prop
  | failed (e : Errno) : Refusal rest (.answered (.write rest) (.error e)) (.console e)
  | nothing : Refusal rest (.answered (.write rest) (.ok 0)) (.console .eio)
  | unanswered : Refusal rest (.unanswered (.write rest)) .neverReturned

theorem Refusal.accepted_eq {rest : List UInt8} {last : Event} {stop : Stop} (h : Refusal rest last stop) :
    last.accepted = [] := by
  cases h <;> rfl

/-! ## Sessions that write -/

variable {σ : Type}

/-- The writes have come to the end, or to one that was refused. -/
theorem traced_writeAll_offers (host : Host σ) (bytes : List UInt8) (c : Recording σ) :
    Traced (Console.writeAll host.recorded bytes) c
      (fun events _ _ => ∃ count m, Takes bytes.length count m ∧ offset bytes.length count m = bytes.length ∧
        events = offers bytes count m)
      (fun events stop _ => ∃ count m last, Takes bytes.length count m ∧
        offset bytes.length count m < bytes.length ∧
        Refusal (bytes.drop (offset bytes.length count m)) last stop ∧ events = offers bytes count m ++ [last]) := by
  -- What the first write leaves over is written in the same way, with offsets that begin where it ended.
  induction h : bytes.length using Nat.strongRecOn generalizing bytes c with
  | _ length ih =>
    subst h
    by_cases nonempty : bytes = []
    · subst nonempty
      rw [Console.writeAll, dif_pos rfl]
      exact Traced.pure ⟨fun _ => 0, 0, .none, rfl, rfl⟩
    have positive : 0 < bytes.length := List.length_pos_iff.2 nonempty
    have refused {last : Event} {stop : Stop} (refusal : Refusal bytes last stop) :
        ∃ count m last', Takes bytes.length count m ∧ offset bytes.length count m < bytes.length ∧
          Refusal (bytes.drop (offset bytes.length count m)) last' stop ∧
          [last] = offers bytes count m ++ [last'] :=
      ⟨fun _ => 0, 0, last, .none, positive, refusal, rfl⟩
    rw [Console.writeAll_eq _ nonempty]
    refine (traced_ask host (.write bytes) c).bind ?_ ?_
    · rintro _ answer d ⟨rfl, -⟩
      rcases answer with e | _ | n
      · exact Traced.throw (refused (.failed e))
      · exact Traced.throw (refused .nothing)
      · have left : (bytes.drop (n + 1)).length = bytes.length - (n + 1) := List.length_drop
        have shorter : (bytes.drop (n + 1)).length < bytes.length := by omega
        refine (ih _ shorter (bytes.drop (n + 1)) d rfl).mono ?_ ?_
        · rintro events _ e ⟨count, m, takes, whole, rfl⟩
          rw [left] at takes whole
          refine ⟨counts (n + 1) count, m + 1, takes.behind positive (Nat.le_add_left 1 n), ?_, ?_⟩
          · rw [offset_counts, whole]
            omega
          · rw [offers_succ]
            rfl
        · rintro events stop e ⟨count, m, last, takes, short, refusal, rfl⟩
          have short' := left ▸ short
          refine ⟨counts (n + 1) count, m + 1, last, .behind positive (Nat.le_add_left 1 n) (left ▸ takes), ?_, ?_, ?_⟩
          · rw [offset_counts]
            omega
          · rw [drop_offset_succ]
            exact refusal
          · rw [offers_succ]
            rfl
    · rintro _ _ d ⟨rfl, rfl, -⟩
      exact refused .unanswered

/-- A session that writes offers what the counts of its writes have left, until they come to the end or a write is
refused. -/
theorem Console.writeAll_offers (host : Host σ) (bytes : List UInt8) (c : Console σ) :
    let events := Session.record (writeAll host.recorded bytes) c
    ∃ (count : Nat → Nat) (m : Nat), let reached := offset bytes.length count m
      Takes bytes.length count m ∧ events.length ≤ bytes.length ∧
      (reached = bytes.length ∧ events = offers bytes count m ∧ accepted events = bytes ∧
          (∃ d, writeAll host bytes c = .ok () d) ∨
        reached < bytes.length ∧ ∃ last stop, Refusal (bytes.drop reached) last stop ∧
          events = offers bytes count m ++ [last] ∧ accepted events = bytes.take reached ∧
          accepted events ≠ bytes ∧ ∃ d, writeAll host bytes c = .error stop d) := by
  have plain := (traced_writeAll_offers host bytes c.recorded).plain
    (agree_writeAll (simulates_recorded host) bytes)
  dsimp only
  cases run : writeAll host bytes c with
  | ok _ d =>
    rw [run] at plain
    obtain ⟨e, ⟨count, m, takes, whole, trace⟩, -⟩ := plain
    refine ⟨count, m, takes, ?_, .inl ⟨whole, trace, ?_, d, rfl⟩⟩
    · rw [trace, length_offers]
      exact whole ▸ takes.le_offset
    · rw [trace, accepted_offers, whole, List.take_length]
  | error stop d =>
    rw [run] at plain
    obtain ⟨e, ⟨count, m, last, takes, short, refusal, trace⟩, -⟩ := plain
    have taken : accepted (Session.record (writeAll host.recorded bytes) c) =
        bytes.take (offset bytes.length count m) := by
      rw [trace, accepted_append, accepted_offers, accepted_cons, refusal.accepted_eq]
      exact List.append_nil _
    refine ⟨count, m, takes, ?_, .inr ⟨short, last, stop, refusal, trace, taken, ?_, d, rfl⟩⟩
    · rw [trace, List.length_append, length_offers]
      exact Nat.lt_of_le_of_lt takes.le_offset short
    · rw [taken]
      intro all
      have := congrArg List.length all
      rw [List.length_take] at this
      omega

end ProcessDrill
