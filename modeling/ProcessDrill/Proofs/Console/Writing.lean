import ProcessDrill.Proofs.Trace.Session
/-!
# Output

`Written bytes events`: the events are writes, each of which offers what the one before it has left over,
and together they take all of `bytes`. Main statement: `traced_writeAll`, a session that writes `bytes`
leaves such a record or stops on the way to one.
-/

namespace ProcessDrill

set_option autoImplicit false

/-- The complete records of writing `bytes`. -/
inductive Written : List UInt8 → List Event → Prop
  | nil : Written [] []
  | cons {bytes : List UInt8} {n : Nat} {events : List Event} (nonempty : bytes ≠ [])
      (rest : Written (bytes.drop (n + 1)) events) :
      Written bytes (.answered (.write bytes) (.ok (n + 1)) :: events)

namespace Written

variable {bytes : List UInt8} {events : List Event}

theorem accepted_eq (h : Written bytes events) : accepted events = bytes := by
  induction h with
  | nil => rfl
  | @cons bytes n events _ _ ih =>
    rw [accepted_cons, ih]
    exact List.take_append_drop (n + 1) bytes

theorem isWrite (h : Written bytes events) : ∀ event ∈ events, event.IsWrite := by
  induction h with
  | nil => simp
  | cons _ _ ih => exact List.forall_mem_cons.2 ⟨⟨_, rfl⟩, ih⟩

theorem delivered_eq (h : Written bytes events) : delivered events = [] := by
  induction h with
  | nil => rfl
  | cons _ _ ih =>
    rw [delivered_cons, ih]
    rfl

theorem clean (h : Written bytes events) : Clean events := by
  induction h with
  | nil => exact clean_nil
  | cons _ _ ih => exact (clean_cons _ _).2 ⟨rfl, ih⟩

theorem exists_record (bytes : List UInt8) : ∃ events, Written bytes events := by
  cases bytes with
  | nil => exact ⟨[], .nil⟩
  | cons b rest =>
    refine ⟨[.answered (.write (b :: rest)) (.ok (rest.length + 1))], .cons (List.cons_ne_nil _ _) ?_⟩
    simpa using Written.nil

end Written

/-! ## Lines -/

/-- A line with its line feed. -/
def Utf8.encodeLine (line : String) : List UInt8 :=
  Utf8.encode line ++ Utf8.encode "\n"

/-- The complete records of printing lines, each of them followed, by calls of its own, by a line feed. -/
inductive Printed : List String → List Event → Prop
  | nil : Printed [] []
  | cons {line : String} {lines : List String} {text feed more : List Event}
      (text_written : Written (Utf8.encode line) text) (feed_written : Written (Utf8.encode "\n") feed)
      (rest : Printed lines more) : Printed (line :: lines) (text ++ feed ++ more)

namespace Printed

variable {lines : List String} {events : List Event}

theorem accepted_eq (h : Printed lines events) :
    accepted events = lines.flatMap Utf8.encodeLine := by
  induction h with
  | nil => rfl
  | cons text feed _ ih =>
    rw [accepted_append, accepted_append, text.accepted_eq, feed.accepted_eq, ih]
    rfl

theorem isWrite (h : Printed lines events) : ∀ event ∈ events, event.IsWrite := by
  induction h with
  | nil => simp
  | cons text feed _ ih =>
    exact List.forall_mem_append.2 ⟨List.forall_mem_append.2 ⟨text.isWrite, feed.isWrite⟩, ih⟩

theorem isConsole (h : Printed lines events) : ∀ event ∈ events, event.IsConsole :=
  fun event mem => .inr (h.isWrite event mem)

end Printed

/-! ## Breaking off -/

namespace Stops

variable {bytes : List UInt8}

theorem of_write {event : Event} {stop : Stop} (nonempty : bytes ≠ [])
    (asked : event.call? = some (.write bytes)) (h : event.stop? = some stop) :
    Stops (Written bytes) [event] stop where
  cut := by
    refine ⟨[.answered (.write bytes) (.ok (bytes.length + 1))], .cons nonempty ?_, ?_⟩
    · rw [List.drop_eq_nil_of_le (Nat.le_succ _)]
      exact .nil
    · exact .first [] rfl asked h
  ends := .first h

theorem after_write {n : Nat} {events : List Event} {stop : Stop} (nonempty : bytes ≠ [])
    (h : Stops (Written (bytes.drop (n + 1))) events stop) :
    Stops (Written bytes) (.answered (.write bytes) (.ok (n + 1)) :: events) stop where
  cut := by
    obtain ⟨word, written, cut⟩ := h.cut
    exact ⟨_, .cons nonempty written, cut.behind [_]⟩
  ends := h.ends.behind ((clean_cons _ []).2 ⟨rfl, clean_nil⟩)

end Stops

/-! ## Sessions that write -/

variable {σ : Type}

namespace Console

theorem writeAll_eq (host : Host σ) {bytes : List UInt8} (nonempty : bytes ≠ []) :
    writeAll host bytes = (ask host (.write bytes) >>= fun answer =>
      match answer with
      | .error e => throw (.console e)
      | .ok 0 => throw (.console .eio)
      | .ok (n + 1) => writeAll host (bytes.drop (n + 1))) := by
  rw [writeAll, dif_neg nonempty]
  congr 1
  funext answer
  match answer with
  | .error e => rfl
  | .ok 0 => rfl
  | .ok (n + 1) =>
    dsimp only
    split
    · next h => rw [Buffer.sliceFrom?_min] at h; cases h
    · next rest h => rw [Buffer.sliceFrom?_min] at h; cases h; rfl

end Console

/-- Writing leaves a complete record or stops on the way to one; the input stays as it is. -/
theorem traced_writeAll (host : Host σ) (bytes : List UInt8) (c : Recording σ) :
    Traced (Console.writeAll host.recorded bytes) c
      (fun events _ d => Written bytes events ∧ d.inbox = c.inbox)
      (fun events stop d => Stops (Written bytes) events stop ∧ stop.isForced = true ∧
        d.inbox = c.inbox) := by
  -- A write that is not the last one has taken something, so fewer bytes are left.
  induction h : bytes.length using Nat.strongRecOn generalizing bytes c with
  | _ length ih =>
    by_cases nonempty : bytes = []
    · subst nonempty
      rw [Console.writeAll, dif_pos rfl]
      exact Traced.pure ⟨.nil, rfl⟩
    · rw [Console.writeAll_eq _ nonempty]
      refine (traced_ask host (.write bytes) c).bind ?_ ?_
      · rintro _ answer d ⟨rfl, same⟩
        match answer with
        | .error e => exact Traced.throw ⟨.of_write nonempty rfl rfl, rfl, same⟩
        | .ok 0 => exact Traced.throw ⟨.of_write nonempty rfl rfl, rfl, same⟩
        | .ok (n + 1) =>
          have shorter : (bytes.drop (n + 1)).length < length := by
            have := List.length_pos_iff.2 nonempty
            rw [List.length_drop]
            omega
          refine (ih _ shorter (bytes.drop (n + 1)) d rfl).mono ?_ ?_
          · rintro events _ e ⟨written, same'⟩
            exact ⟨.cons nonempty written, same'.trans same⟩
          · rintro events stop e ⟨stops, forced, same'⟩
            exact ⟨.after_write nonempty stops, forced, same'.trans same⟩
      · rintro _ _ d ⟨rfl, rfl, same⟩
        exact ⟨.of_write nonempty rfl rfl, rfl, same⟩

end ProcessDrill
