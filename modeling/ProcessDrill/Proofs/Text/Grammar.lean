import Mathlib
import ProcessDrill.Numeral
/-!
# The grammar of typed integers

`Numeral.Spells text n`: the text is a sign, or none, and digits in base sixteen behind `0x` or `0X`, in base eight
behind `0`, or in base ten, and `n` is the number that they stand for. Nothing is said of how such a text is read,
and there is no bound on its length or on the number.

Main statement: `Numeral.parse_spelled`, for any text, of any length and of any characters.
* It is read as `v` exactly if it spells a number between `-2 ^ 31` and `2 ^ 31 - 1`, and `v` is this number.
* It is refused exactly if it spells no number, or one beyond these bounds.
* It spells one number at most, so nothing wraps around.
-/

namespace ProcessDrill.Numeral

set_option autoImplicit false

/-! ## The grammar -/

/-- The character stands for this digit of a number in base `radix`. -/
def IsDigit (radix : Nat) (c : Char) (d : Nat) : Prop :=
  d < radix ∧ ("0123456789abcdef".toList[d]? = some c ∨ "0123456789ABCDEF".toList[d]? = some c)

/-- One digit or more in base `radix`, the first one counting most, and the number that they stand for. -/
def Digits (radix : Nat) (text : List Char) (n : Nat) : Prop :=
  text ≠ [] ∧ ∃ digits, List.Forall₂ (IsDigit radix) text digits ∧ n = Nat.ofDigits radix digits.reverse

inductive Unsigned : List Char → Nat → Prop
  | hexadecimal {x : Char} {text : List Char} {n : Nat} (mark : x = 'x' ∨ x = 'X') (digits : Digits 16 text n) :
      Unsigned ('0' :: x :: text) n
  | octal {text : List Char} {n : Nat} (digits : Digits 8 text n) : Unsigned ('0' :: text) n
  | decimal {text : List Char} {n : Nat} (digits : Digits 10 text n)
      (leading : text.head? = some '0' → text.length = 1) : Unsigned text n

inductive Spells : List Char → Int → Prop
  | bare {text : List Char} {n : Nat} (h : Unsigned text n) : Spells text n
  | plus {text : List Char} {n : Nat} (h : Unsigned text n) : Spells ('+' :: text) n
  | minus {text : List Char} {n : Nat} (h : Unsigned text n) : Spells ('-' :: text) (-n)

/-! ## Digits -/

variable {radix : Nat} {text : List Char} {n : Nat}

theorem digitValue?_of_isDigit16 {c : Char} {d : Nat} (h : IsDigit 16 c d) : digitValue? 16 c = some d := by
  have lower : ∀ d < 16, "0123456789abcdef".toList[d]?.all (digitValue? 16 · = some d) = true := by
    decide +kernel
  have upper : ∀ d < 16, "0123456789ABCDEF".toList[d]?.all (digitValue? 16 · = some d) = true := by
    decide +kernel
  obtain ⟨small, listed | listed⟩ := h
  · have := lower d small
    rw [listed] at this
    exact of_decide_eq_true this
  · have := upper d small
    rw [listed] at this
    exact of_decide_eq_true this

theorem lt_of_digitValue? {c : Char} {d : Nat} (h : digitValue? radix c = some d) : c.toNat < 128 := by
  obtain ⟨value, -⟩ := Option.filter_eq_some_iff.1 h
  split at value
  · next range => exact Nat.lt_of_le_of_lt range.2 (by decide)
  · split at value
    · next range => exact Nat.lt_of_le_of_lt range.2 (by decide)
    · split at value
      · next range => exact Nat.lt_of_le_of_lt range.2 (by decide)
      · cases value

theorem isDigit16_of_digitValue? {c : Char} {d : Nat} (h : digitValue? 16 c = some d) : IsDigit 16 c d := by
  have table : ∀ k < 128, ∀ d ∈ digitValue? 16 (Char.ofNat k), d < 16 ∧
      ("0123456789abcdef".toList[d]? = some (Char.ofNat k) ∨ "0123456789ABCDEF".toList[d]? = some (Char.ofNat k)) := by
    decide +kernel
  have listed := table c.toNat (lt_of_digitValue? h) d
  rw [Char.ofNat_toNat] at listed
  exact listed h

/-- A character is a digit in every base that is large enough, with the same value. -/
theorem digitValue?_eq_some_iff (small : radix ≤ 16) {c : Char} {d : Nat} :
    digitValue? radix c = some d ↔ IsDigit radix c d := by
  have cut : digitValue? radix c = some d ↔ digitValue? 16 c = some d ∧ d < radix := by
    rw [digitValue?, digitValue?, Option.filter_eq_some_iff, Option.filter_eq_some_iff, decide_eq_true_eq,
      decide_eq_true_eq]
    constructor
    · rintro ⟨value, below⟩
      exact ⟨⟨value, by omega⟩, below⟩
    · rintro ⟨⟨value, -⟩, below⟩
      exact ⟨value, below⟩
  rw [cut]
  constructor
  · rintro ⟨value, below⟩
    exact ⟨below, (isDigit16_of_digitValue? value).2⟩
  · rintro ⟨below, listed⟩
    exact ⟨digitValue?_of_isDigit16 ⟨by omega, listed⟩, below⟩

theorem mapM_eq_some_iff {α β : Type} {f : α → Option β} {list : List α} {values : List β} :
    list.mapM f = some values ↔ List.Forall₂ (fun a b => f a = some b) list values := by
  induction list generalizing values with
  | nil => simp [eq_comm]
  | cons a list ih =>
    rw [List.mapM_cons, List.forall₂_cons_left_iff]
    simp only [Option.bind_eq_bind, Option.bind_eq_some_iff, Option.pure_def, Option.some.injEq, ih]
    grind

theorem positional_eq_ofDigits (digits : List Nat) : positional radix digits = Nat.ofDigits radix digits.reverse := by
  rw [positional, Nat.ofDigits_eq_foldr, List.foldr_reverse]
  refine List.foldl_ext _ _ _ fun value d _ => ?_
  show value * radix + d = d + radix * value
  rw [Nat.mul_comm, Nat.add_comm]

/-- The digits of a text and its number, as the reader finds them. -/
theorem digits_iff (small : radix ≤ 16) :
    Digits radix text n ↔ text ≠ [] ∧ ∃ digits, text.mapM (digitValue? radix) = some digits ∧
      n = positional radix digits := by
  simp only [Digits, mapM_eq_some_iff, digitValue?_eq_some_iff small, positional_eq_ofDigits]

theorem Digits.unique {m : Nat} (small : radix ≤ 16) (h : Digits radix text n) (h' : Digits radix text m) : n = m := by
  obtain ⟨-, digits, read, rfl⟩ := (digits_iff small).1 h
  obtain ⟨-, digits', read', rfl⟩ := (digits_iff small).1 h'
  obtain rfl := Option.some_inj.1 (read.symm.trans read')
  rfl

theorem Digits.head {c : Char} {rest : List Char} (small : radix ≤ 16) (h : Digits radix (c :: rest) n) :
    digitValue? radix c ≠ none := by
  obtain ⟨-, digits, listed, -⟩ := h
  obtain ⟨d, _, first, -, -⟩ := List.forall₂_cons_left_iff.1 listed
  rw [(digitValue?_eq_some_iff small).2 first]
  exact Option.some_ne_none d

theorem magnitude?_eq_some_iff (small : radix ≤ 16) {m : Int64} :
    magnitude? radix text = some m ↔ ∃ n, Digits radix text n ∧ n ≤ 9223372036854775807 ∧ m = Int64.ofNat n := by
  simp only [digits_iff small, magnitude?]
  cases read : text.mapM (digitValue? radix) with
  | none => simp
  | some digits =>
    have length := (mapM_eq_some_iff.1 read).length_eq
    have empty : digits.isEmpty = true ↔ text = [] := by
      rw [List.isEmpty_iff, ← List.length_eq_zero_iff, ← length, List.length_eq_zero_iff]
    simp only [Option.bind_eq_bind, Option.bind_some, empty, Option.some.injEq, ↓existsAndEq, true_and]
    split
    · next none => simp [none]
    · next nonempty =>
      split
      · next fits => simp [nonempty, fits, eq_comm]
      · next large => simp [large]

/-! ## Bases and signs -/

theorem unsigned_iff : Unsigned text n ↔ Digits (splitRadix text).1 (splitRadix text).2 n := by
  constructor
  · intro h
    cases h with
    | hexadecimal mark digits =>
      rcases mark with rfl | rfl
      · exact digits
      · exact digits
    | @octal text _ digits =>
      -- an octal digit is none of the marks of base sixteen
      obtain ⟨c, rest, rfl⟩ := List.exists_cons_of_ne_nil digits.1
      have octal := digits.head (by decide)
      unfold splitRadix
      split
      · next eq =>
        cases eq
        exact absurd (by decide) octal
      · next eq =>
        cases eq
        exact absurd (by decide) octal
      · next eq =>
        cases eq
        exact digits
      · next other => exact absurd rfl (other c rest)
    | decimal digits leading =>
      have single (c : Char) (rest : List Char) : text ≠ '0' :: c :: rest := by
        rintro rfl
        exact absurd (leading rfl) (by simp)
      unfold splitRadix
      split
      · exact absurd rfl (single _ _)
      · exact absurd rfl (single _ _)
      · exact absurd rfl (single _ _)
      · exact digits
  · intro digits
    unfold splitRadix at digits
    split at digits
    · exact .hexadecimal (.inl rfl) digits
    · exact .hexadecimal (.inr rfl) digits
    · exact .octal digits
    · next other =>
      refine .decimal digits fun first => ?_
      obtain ⟨rest, rfl⟩ := List.head?_eq_some_iff.1 first
      cases rest with
      | nil => rfl
      | cons c rest => exact absurd rfl (other c rest)

theorem Unsigned.head {c : Char} {rest : List Char} (h : Unsigned (c :: rest) n) : c ≠ '+' ∧ c ≠ '-' := by
  have plus : digitValue? 10 '+' = none := by decide
  have minus : digitValue? 10 '-' = none := by decide
  cases h with
  | hexadecimal => decide
  | octal => decide
  | decimal digits =>
    have digit := digits.head (by decide)
    constructor
    · rintro rfl
      exact digit plus
    · rintro rfl
      exact digit minus

theorem spells_iff {value : Int} :
    Spells text value ↔ ∃ n, Unsigned (splitSign text).2 n ∧ value = if (splitSign text).1 then -(n : Int) else n := by
  constructor
  · intro h
    cases h with
    | @bare _ n h =>
      have unsigned : splitSign text = (false, text) := by
        unfold splitSign
        split
        · exact absurd rfl h.head.2
        · exact absurd rfl h.head.1
        · rfl
      rw [unsigned]
      exact ⟨n, h, rfl⟩
    | plus h => exact ⟨_, h, rfl⟩
    | minus h => exact ⟨_, h, rfl⟩
  · rintro ⟨n, h, rfl⟩
    unfold splitSign at h ⊢
    split at h
    · exact .minus h
    · exact .plus h
    · exact .bare h

theorem splitRadix_base (text : List Char) :
    (splitRadix text).1 = 16 ∨ (splitRadix text).1 = 8 ∨ (splitRadix text).1 = 10 := by
  unfold splitRadix
  split <;> simp

theorem splitRadix_small (text : List Char) : (splitRadix text).1 ≤ 16 := by
  have := splitRadix_base text
  omega

theorem Spells.unique {value other : Int} (h : Spells text value) (h' : Spells text other) : value = other := by
  obtain ⟨n, unsigned, rfl⟩ := spells_iff.1 h
  obtain ⟨m, unsigned', rfl⟩ := spells_iff.1 h'
  rw [(unsigned_iff.1 unsigned).unique (splitRadix_small _) (unsigned_iff.1 unsigned')]

/-! ## Reading -/

theorem narrow?_eq_some_iff {value : Int64} {v : Int32} :
    narrow? value = some v ↔ -2147483648 ≤ value.toInt ∧ value.toInt ≤ 2147483647 ∧ v.toInt = value.toInt := by
  have range : (-2147483648 ≤ value ∧ value ≤ 2147483647) ↔
      (-2147483648 ≤ value.toInt ∧ value.toInt ≤ 2147483647) := by
    rw [Int64.le_iff_toInt_le, Int64.le_iff_toInt_le]
    rfl
  rw [narrow?]
  split
  · next fits =>
    obtain ⟨low, high⟩ := range.1 fits
    have kept : value.toInt32.toInt = value.toInt := by
      rw [Int64.toInt_toInt32]
      exact Int.bmod_eq_of_le (by omega) (by omega)
    rw [Option.some.injEq, ← Int32.toInt_inj, kept]
    exact ⟨fun same => ⟨low, high, same.symm⟩, fun inside => inside.2.2.symm⟩
  · next outside =>
    rw [range] at outside
    exact ⟨nofun, fun inside => absurd ⟨inside.1, inside.2.1⟩ outside⟩

/-- A magnitude has a sign bit to spare, so it is negated without overflow. -/
theorem toInt_signed (negative : Bool) {n : Nat} (h : n ≤ 9223372036854775807) :
    (if negative then -Int64.ofNat n else Int64.ofNat n).toInt = if negative then -(n : Int) else n := by
  cases negative with
  | false => exact Int64.toInt_ofNat_of_lt (by omega)
  | true =>
    have negated : -Int64.ofNat n = Int64.ofInt (-n) := by
      rw [Int64.ofInt_neg, Int64.ofInt_eq_ofNat]
    show (-Int64.ofNat n).toInt = -(n : Int)
    rw [negated]
    exact Int64.toInt_ofInt_of_le (by omega) (by omega)

theorem parse_eq (text : List Char) : parse text =
    (magnitude? (splitRadix (splitSign text).2).1 (splitRadix (splitSign text).2).2).bind fun magnitude =>
      narrow? (if (splitSign text).1 then -magnitude else magnitude) := rfl

theorem parse_eq_some_iff {v : Int32} :
    parse text = some v ↔ ∃ value, Spells text value ∧ -2147483648 ≤ value ∧ value ≤ 2147483647 ∧ v.toInt = value := by
  rw [parse_eq, Option.bind_eq_some_iff]
  simp only [magnitude?_eq_some_iff (splitRadix_small _), ← unsigned_iff, narrow?_eq_some_iff, spells_iff]
  constructor
  · rintro ⟨_, ⟨n, unsigned, fits, rfl⟩, low, high, same⟩
    rw [toInt_signed _ fits] at low high same
    exact ⟨_, ⟨n, unsigned, rfl⟩, low, high, same⟩
  · rintro ⟨_, ⟨n, unsigned, rfl⟩, low, high, same⟩
    have size : (if (splitSign text).1 then -(n : Int) else n).natAbs = n := by
      split
      · rw [Int.natAbs_neg, Int.natAbs_natCast]
      · rw [Int.natAbs_natCast]
    have fits : n ≤ 9223372036854775807 := by omega
    refine ⟨_, ⟨n, unsigned, fits, rfl⟩, ?_⟩
    rw [toInt_signed _ fits]
    exact ⟨low, high, same⟩

/-- A text is read as a number exactly if it spells one of 32 bits with sign, and it spells one number at most. -/
theorem parse_spelled (text : List Char) :
    (∀ v : Int32, parse text = some v ↔
      ∃ n, Spells text n ∧ -2 ^ 31 ≤ n ∧ n ≤ 2 ^ 31 - 1 ∧ v.toInt = n) ∧
    (parse text = none ↔ ∀ n, Spells text n → n < -2 ^ 31 ∨ 2 ^ 31 - 1 < n) ∧
    (∀ n m, Spells text n → Spells text m → n = m) := by
  refine ⟨fun v => parse_eq_some_iff, ?_, fun n m => Spells.unique⟩
  constructor
  · intro refused n spells
    by_contra inside
    rw [not_or, Int.not_lt, Int.not_lt] at inside
    obtain ⟨low, high⟩ := inside
    have read : parse text = some (Int32.ofInt n) := by
      refine parse_eq_some_iff.2 ⟨n, spells, low, high, Int32.toInt_ofInt_of_le ?_ ?_⟩
      · exact low
      · omega
    rw [refused] at read
    cases read
  · intro outside
    refine Option.eq_none_iff_forall_ne_some.2 fun v read => ?_
    obtain ⟨n, spells, low, high, -⟩ := parse_eq_some_iff.1 read
    have := outside n spells
    omega

example : parse "-0x80000000".toList = some (-2147483648) := by decide +kernel

example : parse "0x-1".toList = none := by decide +kernel

example : parse "٣".toList = none := by decide +kernel

end ProcessDrill.Numeral
