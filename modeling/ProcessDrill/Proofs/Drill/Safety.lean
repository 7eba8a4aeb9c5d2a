import Mathlib
import ProcessDrill.Proofs.Drill.Series
import ProcessDrill.Proofs.Text.Grammar
import ProcessDrill.Proofs.Text.Lines
import ProcessDrill.Proofs.Text.Numbers
/-!
# Operations inside their domains

Some operations are defined for a part of their arguments only. A draw from an empty range and a slice beyond its
bytes stop a session with a `Fault`. For reading an integer and a raw return, namespace `Checked` has each such
operation as one that tells of a `Breach`: a text cut inside a character, a base that does not exist, a number that
has no negative.

Main statement: `series_safe`, for drills on a bench that was made for them, any number of them, one after the other, on
any machine.
* Each of them goes by the configuration that was checked, and it is still a valid one.
* None of them draws from an empty range or takes a slice beyond its bytes.
* No text that is read as an integer is cut inside a character, read in a base that does not exist, or has a magnitude
  without a negative; and no raw return but the least one is without a negative.
-/

namespace ProcessDrill

set_option autoImplicit false

/-- What an operation outside its domain comes to. -/
inductive Breach where
  | boundary
  | radix
  | overflow
  deriving DecidableEq, Repr

namespace Checked

/-! ## Checked operations -/

/-- The text behind its first bytes, which must end where a character ends. -/
def sliceFrom : List Char → Nat → Except Breach (List Char)
  | text, 0 => .ok text
  | [], _ + 1 => .error .boundary
  | c :: text, n + 1 =>
    if c.utf8Size ≤ n + 1 then sliceFrom text (n + 1 - c.utf8Size) else .error .boundary

def neg (n : Int64) : Except Breach Int64 :=
  if n = Int64.minValue then .error .overflow else .ok (-n)

/-- The magnitude of a text all of whose characters are digits in this base. -/
def magnitude (radix : Nat) (text : List Char) : Except Breach (Option Int64) :=
  if radix < 2 ∨ 36 < radix then .error .radix else .ok (Numeral.magnitude? radix text)

/-! ## Reading an integer -/

def firstByte? (text : List Char) : Option UInt8 :=
  (text.flatMap String.utf8EncodeChar).head?

def byteLength (text : List Char) : Nat :=
  (text.flatMap String.utf8EncodeChar).length

/-- A sign is told by its byte, and is dropped as one byte. -/
def splitSign (text : List Char) : Except Breach (Bool × List Char) := do
  if firstByte? text = some 0x2d then return (true, ← sliceFrom text 1)
  else if firstByte? text = some 0x2b then return (false, ← sliceFrom text 1)
  else return (false, text)

/-- A mark of base sixteen is dropped as it stands, the zero of base eight as one byte. -/
def splitRadix (text : List Char) : Except Breach (Nat × List Char) := do
  match (text.dropPrefix? ['0', 'x']).or (text.dropPrefix? ['0', 'X']) with
  | some digits => return (16, digits)
  | none =>
    if 1 < byteLength text ∧ text.head? = some '0' then return (8, ← sliceFrom text 1)
    else return (10, text)

def parse (text : List Char) : Except Breach (Option Int32) := do
  let (negative, unsigned) ← splitSign text
  let (radix, digits) ← splitRadix unsigned
  match ← magnitude radix digits with
  | none => return none
  | some m => return Numeral.narrow? (← if negative then neg m else pure m)

/-! ## Reading a raw return -/

def ofReturn (ret : Int64) : Except Breach (Except Errno UInt64) := do
  if ret < 0 then return .error (Errno.ofNumber (← neg ret))
  else return .ok ret.toUInt64

/-! ## No breach -/

theorem firstByte?_eq_iff {b : UInt8} (ascii : b.toNat < 0x80) {d : Char} (same : d.toNat = b.toNat)
    {text : List Char} : firstByte? text = some b ↔ text.head? = some d := by
  cases text with
  | nil => simp [firstByte?]
  | cons c text =>
    have nonempty : String.utf8EncodeChar c ≠ [] := by
      rw [← List.length_pos_iff, String.length_utf8EncodeChar]
      exact c.utf8Size_pos
    rw [firstByte?, List.flatMap_cons, List.head?_append_of_ne_nil _ nonempty, List.head?_cons, Option.some.injEq]
    constructor
    · intro first
      have inside := (Utf8.mem_utf8EncodeChar_iff ascii c).1 (List.mem_of_mem_head? first)
      exact Char.toNat_inj.1 (inside.trans same.symm)
    · rintro rfl
      rw [Utf8.utf8EncodeChar_of_ascii (by omega), same, UInt8.ofNat_toNat]
      rfl

theorem sliceFrom_one {c : Char} (ascii : c.utf8Size = 1) (text : List Char) : sliceFrom (c :: text) 1 = .ok text := by
  simp [sliceFrom, ascii]

theorem splitSign_eq (text : List Char) : splitSign text = .ok (Numeral.splitSign text) := by
  have minus : firstByte? text = some 0x2d ↔ text.head? = some '-' := firstByte?_eq_iff (by decide) rfl
  have plus : firstByte? text = some 0x2b ↔ text.head? = some '+' := firstByte?_eq_iff (by decide) rfl
  simp only [splitSign, minus, plus]
  by_cases negative : text.head? = some '-'
  · obtain ⟨rest, rfl⟩ := List.head?_eq_some_iff.1 negative
    rw [if_pos negative, sliceFrom_one (by decide)]
    rfl
  by_cases positive : text.head? = some '+'
  · obtain ⟨rest, rfl⟩ := List.head?_eq_some_iff.1 positive
    rw [if_neg negative, if_pos positive, sliceFrom_one (by decide)]
    rfl
  rw [if_neg negative, if_neg positive]
  unfold Numeral.splitSign
  split
  · exact absurd rfl negative
  · exact absurd rfl positive
  · rfl

theorem one_lt_byteLength_iff {c : Char} (ascii : c.utf8Size = 1) (text : List Char) :
    1 < byteLength (c :: text) ↔ text ≠ [] := by
  rw [byteLength, List.flatMap_cons, List.length_append, String.length_utf8EncodeChar, ascii]
  cases text with
  | nil => simp
  | cons d text =>
    have := d.utf8Size_pos
    rw [List.flatMap_cons, List.length_append, String.length_utf8EncodeChar]
    simp
    omega

theorem splitRadix_eq (text : List Char) : splitRadix text = .ok (Numeral.splitRadix text) := by
  unfold Numeral.splitRadix
  split
  · simp [splitRadix, List.dropPrefix?]
    rfl
  · simp [splitRadix, List.dropPrefix?]
    rfl
  · next d digits lower upper =>
    have long : 1 < byteLength ('0' :: d :: digits) := (one_lt_byteLength_iff (by decide) _).2 (List.cons_ne_nil _ _)
    have unmarked (x : Char) (other : d ≠ x) : ('0' :: d :: digits).dropPrefix? ['0', x] = none := by
      simp [List.dropPrefix?, other]
    rw [splitRadix, unmarked 'x' lower, unmarked 'X' upper]
    dsimp only [Option.or]
    rw [if_pos ⟨long, rfl⟩, sliceFrom_one (by decide)]
    rfl
  · next other =>
    have short : ¬ (1 < byteLength text ∧ text.head? = some '0') := by
      rintro ⟨long, first⟩
      obtain ⟨rest, rfl⟩ := List.head?_eq_some_iff.1 first
      obtain ⟨d, digits, rfl⟩ := List.exists_cons_of_ne_nil ((one_lt_byteLength_iff (by decide) _).1 long)
      exact other d digits rfl
    have unmarked (x : Char) : text.dropPrefix? ['0', x] = none := by
      refine Option.eq_none_iff_forall_ne_some.2 fun digits marked => ?_
      obtain ⟨mark, rfl, same⟩ := List.dropPrefix?_eq_some_iff.1 marked
      rw [beq_iff_eq.1 same] at other
      exact other x digits rfl
    rw [splitRadix, unmarked 'x', unmarked 'X']
    dsimp only [Option.or]
    rw [if_neg short]
    rfl

theorem magnitude_eq {radix : Nat} (low : 2 ≤ radix) (high : radix ≤ 36) (text : List Char) :
    magnitude radix text = .ok (Numeral.magnitude? radix text) :=
  if_neg (by omega)

theorem neg_of_ne {n : Int64} (h : n ≠ Int64.minValue) : neg n = .ok (-n) :=
  if_neg h

theorem ofReturn_eq {ret : Int64} (h : ret ≠ Int64.minValue) : ofReturn ret = .ok (Errno.ofReturn ret) := by
  rw [ofReturn, Errno.ofReturn, neg_of_ne h]
  split <;> rfl

/-- A magnitude has a sign bit to spare, so it has a negative. -/
theorem neg_magnitude {radix : Nat} {text : List Char} {m : Int64} (small : radix ≤ 16)
    (h : Numeral.magnitude? radix text = some m) : neg m = .ok (-m) := by
  obtain ⟨n, -, fits, rfl⟩ := (Numeral.magnitude?_eq_some_iff small).1 h
  refine neg_of_ne fun least => ?_
  have value := congrArg Int64.toInt least
  rw [Int64.toInt_ofNat_of_lt (by omega), Int64.toInt_minValue] at value
  omega

theorem parse_eq (text : List Char) : parse text = .ok (Numeral.parse text) := by
  rw [parse, Numeral.parse_eq, splitSign_eq]
  generalize Numeral.splitSign text = signed
  obtain ⟨negative, unsigned⟩ := signed
  have base := Numeral.splitRadix_base unsigned
  show (splitRadix unsigned >>= _) = _
  rw [splitRadix_eq]
  generalize Numeral.splitRadix unsigned = based at base
  obtain ⟨radix, digits⟩ := based
  show (magnitude radix digits >>= _) = _
  rw [magnitude_eq (by omega) (by omega)]
  cases read : Numeral.magnitude? radix digits with
  | none => rfl
  | some m =>
    cases negative with
    | false => rfl
    | true =>
      show (neg m >>= _) = _
      rw [neg_magnitude (by omega) read]
      rfl

end Checked

namespace Drill

variable {σ : Type}

/-- No drill of a series comes to a fault, and no text and no return to a breach. -/
theorem series_safe (host : Host σ) (machine : σ) (words : List UInt32) (config : Config) (bench : Bench σ)
    (built : Bench.new machine words config = .ok bench) (n : Nat) :
    (series host config n bench = (List.range n).map fun i => run host config (benchAt host config bench i)) ∧
    config.Valid ∧
    (∀ fault after, .error (.fault fault) after ∉ series host config n bench) ∧
    (∀ text, Checked.parse text = .ok (Numeral.parse text)) ∧
    (∀ ret, ret ≠ Int64.minValue → Checked.ofReturn ret = .ok (Errno.ofReturn ret)) := by
  have valid := Config.valid_of_new built
  refine ⟨series_eq_map n bench, valid, ?_, Checked.parse_eq, fun ret => Checked.ofReturn_eq⟩
  intro fault after mem
  rw [series_eq_map] at mem
  obtain ⟨i, -, ended⟩ := List.mem_map.1 mem
  exact (run_error ended).no_fault (Plan.inRange_drill valid) fault rfl

/-- A name is drawn, and a machine counts more bytes than it delivered or was offered. -/
theorem long_counts_safe :
    let machine : Machine := { reads := [.raw [49, 10] 1000], writes := [.raw 1000] }
    let bench : Bench Machine := ⟨{ machine }, [0]⟩
    Bench.new machine [0] {} = .ok bench ∧
      ∀ fault after, .error (.fault fault) after ∉ series Machine.direct {} 3 bench := by
  intro machine bench
  have built : Bench.new machine [0] {} = .ok bench := rfl
  exact ⟨built, (series_safe Machine.direct machine [0] {} bench built 3).2.2.1⟩

end Drill

end ProcessDrill
