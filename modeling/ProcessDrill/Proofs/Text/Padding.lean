import ProcessDrill.Proofs.Text.Grammar
import ProcessDrill.Proofs.Text.Lines
import ProcessDrill.Proofs.Text.Numbers
/-!
# Zeros in front

`Numeral.padding text` is how many zeros stand in front of the digits of a numeral, behind its sign and the mark of
its base. Main statements: `Numeral.length_le_of_decoded`, apart from these zeros a numeral that is read takes 13
bytes at most; `Numeral.exists_padded`, with them every number has numerals of every length from 13 on.
-/

namespace ProcessDrill

set_option autoImplicit false

/-! ## Characters of one byte -/

namespace Utf8

/-- The character has a byte for itself, and is not the one that stands in for a number without a character. -/
def OneByte (c : Char) : Prop :=
  0 < c.toNat ∧ c.toNat < 0x80

instance : DecidablePred OneByte :=
  fun c => inferInstanceAs (Decidable (0 < c.toNat ∧ c.toNat < 0x80))

theorem not_oneByte_ofNat {n : Nat} (high : 0x80 ≤ n) : ¬ OneByte (Char.ofNat n) := by
  rintro ⟨positive, small⟩
  by_cases valid : n.isValidChar
  · rw [Char.ofNat, dif_pos valid] at small
    exact absurd small (Nat.not_lt.2 high)
  · rw [Char.ofNat, dif_neg valid] at positive
    exact absurd positive (by decide)

/-- A character of two bytes could not have done with one. -/
theorem Lead.high_extend {a : UInt8} {l : Lead} (h : Lead.of? a = some l) (two : l.following = 1) {b : UInt8}
    (low : l.lowest ≤ b) : 0x80 ≤ extend l.bits b :=
  ((Lead.le_extend_lowest h).2 two).trans (extend_mono _ low)

def Piece.isOneByte : Piece → Bool
  | .scalar c => OneByte c
  | .broken => false

theorem not_all_oneByte {n : Nat} (high : 0x80 ≤ n) (more : List Piece) :
    ¬ (Piece.scalar (Char.ofNat n) :: more).all Piece.isOneByte = true := by
  rw [List.all_cons, Bool.and_eq_true]
  exact fun all => not_oneByte_ofNat high (of_decide_eq_true all.1)

theorem pieces_of_decoded {bytes : List UInt8} {text : List Char} (h : decode? bytes = some text) :
    pieces bytes = text.map .scalar := by
  have same : List.Forall₂ (· = ·) (pieces bytes) (text.map .scalar) := by
    rw [List.forall₂_map_right_iff]
    refine (Numeral.mapM_eq_some_iff.1 h).imp fun piece c found => ?_
    cases piece with
    | scalar c' => exact congrArg Piece.scalar (Option.some_inj.1 found)
    | broken => cases found
  rwa [List.forall₂_eq_eq_eq] at same

theorem length_pieces {bytes : List UInt8} :
    (pieces bytes).all Piece.isOneByte = true → (pieces bytes).length = bytes.length := by
  fun_induction pieces bytes with
  | case1 => exact fun _ => rfl
  | case2 a s ascii ih =>
    rw [List.all_cons, Bool.and_eq_true, List.length_cons, List.length_cons]
    exact fun all => congrArg (· + 1) (ih all.2)
  -- a character of two bytes, of three and of four
  | case5 a _ l lead b t range two =>
    exact fun all => absurd all (not_all_oneByte (Lead.high_extend lead two range.1) _)
  | case7 a _ l lead b range _ c u =>
    exact fun all => absurd all (not_all_oneByte (le_extend (Lead.le_extend lead range.1) c) _)
  | case9 a _ l lead b range _ c _ _ d v =>
    have more : 0x10 ≤ extend (extend l.bits b) c :=
      Nat.le_trans (by decide) (le_extend (Lead.le_extend lead range.1) c)
    exact fun all => absurd all (not_all_oneByte (le_extend more d) _)
  -- a broken piece
  | _ => exact fun all => absurd all Bool.false_ne_true

end Utf8

namespace Numeral

/-- What stands behind the sign and the mark of the base. -/
def digits (text : List Char) : List Char :=
  (splitRadix (splitSign text).2).2

def padding (text : List Char) : Nat :=
  ((digits text).takeWhile (· = '0')).length

/-- Leading zeros apart, `k` digits and one more make a number of `radix ^ k` at least. -/
theorem pow_le_ofDigits {radix k : Nat} (positive : 0 < radix) {text : List Char} {values : List Nat}
    (listed : List.Forall₂ (IsDigit radix) text values) (more : k < (text.dropWhile (· = '0')).length) :
    radix ^ k ≤ Nat.ofDigits radix values.reverse := by
  induction listed with
  | nil => cases more
  | @cons c d text values isDigit listed ih =>
    rw [Nat.ofDigits_reverse_cons]
    by_cases zero : c = '0'
    · rw [List.dropWhile_cons_of_pos (by simpa using zero)] at more
      exact Nat.le_add_right_of_le (ih more)
    · rw [List.dropWhile_cons_of_neg (by simpa using zero), List.length_cons, listed.length_eq] at more
      have counts : 0 < d := by
        refine Nat.pos_of_ne_zero ?_
        rintro rfl
        obtain ⟨-, lower | upper⟩ := isDigit
        · exact zero (Option.some_inj.1 lower).symm
        · exact zero (Option.some_inj.1 upper).symm
      calc radix ^ k ≤ radix ^ values.length := Nat.pow_le_pow_right positive (Nat.le_of_lt_succ more)
        _ ≤ radix ^ values.length * d := Nat.le_mul_of_pos_right _ counts
        _ ≤ _ := Nat.le_add_left _ _

theorem length_splitSign_le (text : List Char) : text.length ≤ (splitSign text).2.length + 1 := by
  unfold splitSign
  split
  · exact Nat.le_refl _
  · exact Nat.le_refl _
  · exact Nat.le_succ _

theorem length_splitRadix (text : List Char) :
    (splitRadix text).1 = 16 ∧ text.length = (splitRadix text).2.length + 2 ∨
      (splitRadix text).1 = 8 ∧ text.length = (splitRadix text).2.length + 1 ∨
      (splitRadix text).1 = 10 ∧ text.length = (splitRadix text).2.length := by
  unfold splitRadix
  split
  · exact .inl ⟨rfl, rfl⟩
  · exact .inl ⟨rfl, rfl⟩
  · exact .inr (.inl ⟨rfl, rfl⟩)
  · exact .inr (.inr ⟨rfl, rfl⟩)

/-- Of a number that fits 32 bits there are eight digits at most in base sixteen, ten in base ten and eleven in
base eight. -/
theorem length_le_of_parse {text : List Char} {v : Int32} (h : parse text = some v) :
    text.length ≤ padding text + 13 := by
  obtain ⟨value, spells, low, high, -⟩ := parse_eq_some_iff.1 h
  obtain ⟨n, unsigned, signed⟩ := spells_iff.1 spells
  obtain ⟨-, values, listed, rfl⟩ := unsigned_iff.1 unsigned
  have fits : Nat.ofDigits (splitRadix (splitSign text).2).1 values.reverse ≤ 2147483648 := by
    split at signed <;> omega
  have sign := length_splitSign_le text
  have whole : (digits text).length = padding text + ((digits text).dropWhile (· = '0')).length := by
    rw [padding, ← List.length_append, List.takeWhile_append_dropWhile]
  have bounded (k : Nat) (large : 2147483648 < (splitRadix (splitSign text).2).1 ^ k) :
      ((digits text).dropWhile (· = '0')).length ≤ k := by
    by_contra more
    have positive : 0 < (splitRadix (splitSign text).2).1 := by
      have := splitRadix_base (splitSign text).2
      omega
    have := pow_le_ofDigits positive listed (Nat.lt_of_not_le more)
    omega
  rcases length_splitRadix (splitSign text).2 with ⟨base, length⟩ | ⟨base, length⟩ | ⟨base, length⟩
  · have := bounded 8 (by rw [base]; decide)
    rw [← digits] at length
    omega
  · have := bounded 11 (by rw [base]; decide)
    rw [← digits] at length
    omega
  · have := bounded 10 (by rw [base]; decide)
    rw [← digits] at length
    omega

/-! ## Bytes of a numeral -/

open Utf8 (OneByte)

theorem oneByte_of_isDigit {radix d : Nat} {c : Char} (h : IsDigit radix c d) : OneByte c := by
  have lower : "0123456789abcdef".toList.all (OneByte ·) = true := by decide +kernel
  have upper : "0123456789ABCDEF".toList.all (OneByte ·) = true := by decide +kernel
  obtain ⟨-, listed | listed⟩ := h
  · exact of_decide_eq_true (List.all_eq_true.1 lower c (List.mem_of_getElem? listed))
  · exact of_decide_eq_true (List.all_eq_true.1 upper c (List.mem_of_getElem? listed))

theorem oneByte_of_digits {radix n : Nat} {text : List Char} (h : Digits radix text n) : ∀ c ∈ text, OneByte c := by
  obtain ⟨-, values, listed, -⟩ := h
  exact ((List.forall₂_and_left _ _).1 (listed.imp fun c d isDigit => ⟨oneByte_of_isDigit isDigit, isDigit⟩)).1

theorem oneByte_of_unsigned {text : List Char} {n : Nat} (h : Unsigned text n) : ∀ c ∈ text, OneByte c := by
  have zero : OneByte '0' := by decide
  cases h with
  | hexadecimal mark digits =>
    refine List.forall_mem_cons.2 ⟨zero, List.forall_mem_cons.2 ⟨?_, oneByte_of_digits digits⟩⟩
    rcases mark with rfl | rfl <;> decide
  | octal digits => exact List.forall_mem_cons.2 ⟨zero, oneByte_of_digits digits⟩
  | decimal digits => exact oneByte_of_digits digits

theorem oneByte_of_parse {text : List Char} {v : Int32} (h : parse text = some v) : ∀ c ∈ text, OneByte c := by
  obtain ⟨value, spells, -⟩ := parse_eq_some_iff.1 h
  cases spells with
  | bare unsigned => exact oneByte_of_unsigned unsigned
  | plus unsigned => exact List.forall_mem_cons.2 ⟨by decide, oneByte_of_unsigned unsigned⟩
  | minus unsigned => exact List.forall_mem_cons.2 ⟨by decide, oneByte_of_unsigned unsigned⟩

theorem length_of_decoded {bytes : List UInt8} {text : List Char} {v : Int32}
    (decoded : Utf8.decode? bytes = some text) (read : parse text = some v) : bytes.length = text.length := by
  have pieces := Utf8.pieces_of_decoded decoded
  have oneByte : (Utf8.pieces bytes).all Utf8.Piece.isOneByte = true := by
    rw [pieces, List.all_map, List.all_eq_true]
    exact fun c mem => decide_eq_true (oneByte_of_parse read c mem)
  rw [← Utf8.length_pieces oneByte, pieces, List.length_map]

theorem length_le_of_decoded {bytes : List UInt8} {text : List Char} {v : Int32}
    (decoded : Utf8.decode? bytes = some text) (read : parse text = some v) :
    bytes.length ≤ padding text + 13 := by
  rw [length_of_decoded decoded read]
  exact length_le_of_parse read

/-! ## Numerals of any length -/

/-- A number in base eight, of `length` digits behind the mark. -/
def octal (length n : Nat) : List Char :=
  '0' :: (Nat.digitsAppend 8 length n).reverse.map Nat.digitChar

theorem length_octal {length n : Nat} (fits : n < 8 ^ length) : (octal length n).length = length + 1 := by
  rw [octal, List.length_cons, List.length_map, List.length_reverse,
    Nat.length_digitsAppend (by decide) length fits]

theorem isDigit_octal (length n : Nat) : ∀ c ∈ octal length n, c.isDigit = true := by
  have table : ∀ d < 8, (Nat.digitChar d).isDigit = true := by decide
  refine List.forall_mem_cons.2 ⟨by decide, List.forall_mem_map.2 fun d mem => ?_⟩
  exact table d (Nat.lt_of_mem_digitsAppend (by decide) length d (List.mem_reverse.1 mem))

theorem unsigned_octal {length n : Nat} (positive : 0 < length) (fits : n < 8 ^ length) :
    Unsigned (octal length n) n := by
  have table : ∀ d < 8, IsDigit 8 (Nat.digitChar d) d := by
    unfold IsDigit
    decide
  have size := Nat.length_digitsAppend (b := 8) (by decide) length fits
  refine .octal ⟨?_, (Nat.digitsAppend 8 length n).reverse, ?_, ?_⟩
  · rw [Ne, ← List.length_eq_zero_iff, List.length_map, List.length_reverse, size]
    omega
  · rw [List.forall₂_map_left_iff, List.forall₂_same]
    intro d mem
    exact table d (Nat.lt_of_mem_digitsAppend (by decide) length d (List.mem_reverse.1 mem))
  · rw [List.reverse_reverse, Nat.digitsAppend, Nat.ofDigits_append_replicate_zero, Nat.ofDigits_digits]

theorem exists_padded (n : Int32) {length : Nat} (long : 13 ≤ length) :
    ∃ text, text.length = length ∧ parse text = some n ∧ ∀ c ∈ text, c = '-' ∨ c.isDigit = true := by
  have low := Int32.le_toInt n
  have high := Int32.toInt_lt n
  have room (k : Nat) (h : 11 ≤ k) : n.toInt.natAbs < 8 ^ k := by
    calc n.toInt.natAbs < 8 ^ 11 := by omega
      _ ≤ 8 ^ k := Nat.pow_le_pow_right (by decide) h
  by_cases negative : n.toInt < 0
  · have fits := room (length - 2) (by omega)
    refine ⟨'-' :: octal (length - 2) n.toInt.natAbs, ?_, ?_, ?_⟩
    · rw [List.length_cons, length_octal fits]
      omega
    · exact parse_eq_some_iff.2
        ⟨_, .minus (unsigned_octal (by omega) fits), by omega, by omega, by omega⟩
    · exact List.forall_mem_cons.2 ⟨.inl rfl, fun c mem => .inr (isDigit_octal _ _ c mem)⟩
  · have fits := room (length - 1) (by omega)
    refine ⟨octal (length - 1) n.toInt.natAbs, ?_, ?_, fun c mem => .inr (isDigit_octal _ _ c mem)⟩
    · rw [length_octal fits]
      omega
    · exact parse_eq_some_iff.2
        ⟨_, .bare (unsigned_octal (by omega) fits), by omega, by omega, by omega⟩

end Numeral

end ProcessDrill
