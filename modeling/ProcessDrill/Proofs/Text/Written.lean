import ProcessDrill.Proofs.Text.Lossy
import ProcessDrill.Proofs.Text.Numbers
import ProcessDrill.Text.Escaped
/-!
# Written numbers and names

How the numbers and the names that a drill prints are written, apart from the functions that write them.
* `Text.IsSigned n text`: the decimal of an integer, behind a minus sign if it is negative.
* `Text.Escapes bytes text`: bytes as they stand between quotes. A tab, a line feed, a carriage return, a quote, an
  apostrophe and a backslash have two characters each, other bytes that can be seen one, and all else four.

Main statements: `isSigned_iff` and `escapes_iff`, there is one such text of each, and it is the one that is written.
-/

namespace ProcessDrill.Text

set_option autoImplicit false

/-! ## Numbers -/

theorem IsDecimal.digits {n : Nat} {bytes : List UInt8} (h : IsDecimal n bytes) (other : bytes ≠ [0x30]) :
    Nat.digits 10 n = (bytes.map fun b => b.toNat - 0x30).reverse := by
  have value : Nat.ofDigits 10 (bytes.map fun b => b.toNat - 0x30).reverse = n := by
    rw [Nat.ofDigits_eq_foldr, List.foldr_reverse, List.foldl_map]
    refine Eq.trans ?_ h.value
    congr 1
    funext value b
    exact Nat.add_comm _ _
  rw [← value]
  refine Nat.digits_ofDigits 10 (by decide) _ ?_ ?_
  · intro d mem
    obtain ⟨b, inside, rfl⟩ := List.mem_map.1 (List.mem_reverse.1 mem)
    have := h.isDigit b inside
    omega
  · intro nonempty
    rw [List.getLast_reverse, List.head_map]
    have first := h.isDigit _ (List.head_mem h.nonempty)
    intro zero
    refine other (h.leading ?_)
    rw [List.head?_eq_some_head h.nonempty, Option.some_inj, ← UInt8.toNat_inj]
    show _ = 0x30
    omega

theorem IsDecimal.eq_digits {n : Nat} {bytes : List UInt8} (h : IsDecimal n bytes) (other : bytes ≠ [0x30]) :
    bytes = (Nat.digits 10 n).reverse.map fun d => UInt8.ofNat (d + 0x30) := by
  rw [h.digits other, List.reverse_reverse, List.map_map]
  refine (List.map_id _).symm.trans (List.map_congr_left fun b mem => ?_)
  have digit := (h.isDigit b mem).1
  show b = UInt8.ofNat (b.toNat - 0x30 + 0x30)
  rw [Nat.sub_add_cancel digit, UInt8.ofNat_toNat]

/-- There is one decimal of a number. -/
theorem IsDecimal.unique {n : Nat} {bytes other : List UInt8} (h : IsDecimal n bytes) (h' : IsDecimal n other) :
    bytes = other := by
  have zero {bytes other : List UInt8} (h : IsDecimal n bytes) (h' : IsDecimal n other) (same : bytes = [0x30]) :
      other = [0x30] := by
    subst same
    by_contra more
    have none := h'.eq_digits more
    rw [← h.value] at none
    exact h'.nonempty none
  by_cases none : bytes = [0x30]
  · rw [none, zero h h' none]
  · have other_ne : other ≠ [0x30] := fun same => none (zero h' h same)
    rw [h.eq_digits none, h'.eq_digits other_ne]

/-- The decimal of an integer, behind a minus sign if it is negative. -/
def IsSigned (n : Int) (text : String) : Prop :=
  ∃ digits, IsDecimal n.natAbs (Utf8.encode digits) ∧ text = (if n < 0 then "-" else "") ++ digits

theorem signed_eq (n : Int) : signed n = (if n < 0 then "-" else "") ++ decimal n.natAbs := by
  cases n with
  | ofNat k => exact String.empty_append.symm
  | negSucc k =>
    rw [if_pos (Int.negSucc_lt_zero k)]
    rfl

theorem isSigned_iff {n : Int} {text : String} : IsSigned n text ↔ text = signed n := by
  constructor
  · rintro ⟨digits, isDecimal, rfl⟩
    rw [signed_eq, Utf8.encode_injective (isDecimal.unique (isDecimal_encode _))]
  · rintro rfl
    exact ⟨decimal n.natAbs, isDecimal_encode _, signed_eq n⟩

/-! ## Names -/

/-- A byte as it stands between quotes. -/
inductive EscapesByte : UInt8 → List Char → Prop
  | tab : EscapesByte 0x09 ['\\', 't']
  | lineFeed : EscapesByte 0x0a ['\\', 'n']
  | carriageReturn : EscapesByte 0x0d ['\\', 'r']
  | quote : EscapesByte 0x22 ['\\', '\x22']
  | apostrophe : EscapesByte 0x27 ['\\', '\x27']
  | backslash : EscapesByte 0x5c ['\\', '\\']
  | plain {b : UInt8} {c : Char} (seen : 0x20 ≤ b ∧ b ≤ 0x7e) (bare : b ∉ [0x22, 0x27, 0x5c])
      (same : c.toNat = b.toNat) : EscapesByte b [c]
  | hexadecimal {b : UInt8} {high low : Char} (unseen : b < 0x20 ∨ 0x7e < b) (bare : b ∉ [0x09, 0x0a, 0x0d])
      (first : "0123456789abcdef".toList[b.toNat / 16]? = some high)
      (second : "0123456789abcdef".toList[b.toNat % 16]? = some low) : EscapesByte b ['\\', 'x', high, low]

inductive Escapes : List UInt8 → List Char → Prop
  | nil : Escapes [] []
  | cons {b : UInt8} {bytes : List UInt8} {shown text : List Char} (first : EscapesByte b shown)
      (rest : Escapes bytes text) : Escapes (b :: bytes) (shown ++ text)

theorem getElem?_hexDigits {d : Nat} (small : d < 16) : "0123456789abcdef".toList[d]? = some (hexDigit d) := by
  have all : ∀ d < 16, "0123456789abcdef".toList[d]? = some (hexDigit d) := by decide
  exact all d small

theorem escapeByte_of_plain {b : UInt8} (seen : 0x20 ≤ b ∧ b ≤ 0x7e) (bare : b ∉ [0x22, 0x27, 0x5c]) :
    escapeByte b = [Char.ofNat b.toNat] := by
  have control {c : UInt8} (low : c < 0x20) : b ≠ c := by
    rintro rfl
    exact absurd seen.1 (UInt8.not_le.2 low)
  simp only [List.mem_cons, List.not_mem_nil, or_false, not_or] at bare
  obtain ⟨quote, apostrophe, backslash⟩ := bare
  rw [escapeByte, if_neg (control (by decide)), if_neg (control (by decide)), if_neg (control (by decide)),
    if_neg quote, if_neg apostrophe, if_neg backslash, if_pos seen]

theorem escapeByte_of_hexadecimal {b : UInt8} (unseen : b < 0x20 ∨ 0x7e < b) (bare : b ∉ [0x09, 0x0a, 0x0d]) :
    escapeByte b = ['\\', 'x', hexDigit (b.toNat / 16), hexDigit b.toNat] := by
  have hidden : ¬ (0x20 ≤ b ∧ b ≤ 0x7e) := by
    rwa [not_and_or, UInt8.not_le, UInt8.not_le]
  have visible {c : UInt8} (seen : 0x20 ≤ c ∧ c ≤ 0x7e) : b ≠ c := by
    rintro rfl
    exact hidden seen
  simp only [List.mem_cons, List.not_mem_nil, or_false, not_or] at bare
  obtain ⟨tab, feed, carriage⟩ := bare
  rw [escapeByte, if_neg tab, if_neg feed, if_neg carriage, if_neg (visible (by decide)), if_neg (visible (by decide)),
    if_neg (visible (by decide)), if_neg hidden]

theorem escapesByte_escapeByte (b : UInt8) : EscapesByte b (escapeByte b) := by
  by_cases seen : 0x20 ≤ b ∧ b ≤ 0x7e
  · by_cases bare : b ∈ [0x22, 0x27, 0x5c]
    · simp only [List.mem_cons, List.not_mem_nil, or_false] at bare
      rcases bare with rfl | rfl | rfl
      · exact .quote
      · exact .apostrophe
      · exact .backslash
    · have small := b.toNat_lt
      rw [escapeByte_of_plain seen bare]
      refine .plain seen bare ?_
      rw [Char.toNat_ofNat, if_pos (.inl (by omega))]
  · by_cases bare : b ∈ [0x09, 0x0a, 0x0d]
    · simp only [List.mem_cons, List.not_mem_nil, or_false] at bare
      rcases bare with rfl | rfl | rfl
      · exact .tab
      · exact .lineFeed
      · exact .carriageReturn
    · have unseen : b < 0x20 ∨ 0x7e < b := by
        rwa [not_and_or, UInt8.not_le, UInt8.not_le] at seen
      have small := b.toNat_lt
      rw [escapeByte_of_hexadecimal unseen bare]
      refine .hexadecimal unseen bare (getElem?_hexDigits (by omega)) ?_
      rw [getElem?_hexDigits (Nat.mod_lt _ (by decide)), hexDigit, Nat.mod_mod]
      rfl

theorem escapesByte_iff {b : UInt8} {text : List Char} : EscapesByte b text ↔ text = escapeByte b := by
  refine ⟨fun escapes => ?_, fun same => same ▸ escapesByte_escapeByte b⟩
  cases escapes with
  | plain seen bare same => rw [escapeByte_of_plain seen bare, ← same, Char.ofNat_toNat]
  | hexadecimal unseen bare first second =>
    have small := b.toNat_lt
    rw [getElem?_hexDigits (by omega), Option.some_inj] at first
    rw [getElem?_hexDigits (Nat.mod_lt _ (by decide)), Option.some_inj, hexDigit, Nat.mod_mod] at second
    rw [escapeByte_of_hexadecimal unseen bare, ← first, ← second]
    rfl
  | _ => rfl

theorem escapes_iff {bytes : List UInt8} {text : String} : Escapes bytes text.toList ↔ text = escape bytes := by
  have chars {text : List Char} : Escapes bytes text ↔ text = bytes.flatMap escapeByte := by
    constructor
    · intro escapes
      induction escapes with
      | nil => rfl
      | cons first rest ih => rw [List.flatMap_cons, escapesByte_iff.1 first, ih]
    · rintro rfl
      induction bytes with
      | nil => exact .nil
      | cons b bytes ih => exact .cons (escapesByte_escapeByte b) ih
  rw [chars, escape, ← String.toList_inj, String.toList_ofList]

end ProcessDrill.Text
