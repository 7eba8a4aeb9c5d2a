import Mathlib
import ProcessDrill.Proofs.Console.Reading
import ProcessDrill.Drill
/-!
# Numbers as text

`Text.IsDecimal n bytes`: the bytes are the digits of `n`, without zeros in front. Such is the name of a file that is
drawn (`isDecimal_fileName`). Main statements: `Numeral.parse_signed`, a number that is shown and typed again is the
same number, as no decimal is taken for an octal; `Pid.typed?_text_iff`, the process numbers that can be told from
their text.
-/

namespace ProcessDrill

set_option autoImplicit false

/-! ## Characters of one byte -/

namespace Utf8

theorem utf8EncodeChar_of_ascii {c : Char} (h : c.toNat < 0x80) :
    String.utf8EncodeChar c = [UInt8.ofNat c.toNat] := by
  have low : c.val.toNat ≤ 0x7f := Nat.le_of_lt_succ h
  simp only [String.utf8EncodeChar, if_pos low]
  rfl

theorem toNat_ofNat_of_ascii {c : Char} (h : c.toNat < 0x80) : (UInt8.ofNat c.toNat).toNat = c.toNat :=
  UInt8.toNat_ofNat_of_lt' (Nat.lt_trans h (by decide))

theorem flatMap_encode_of_ascii {text : List Char} (h : ∀ c ∈ text, c.toNat < 0x80) :
    text.flatMap String.utf8EncodeChar = text.map fun c => UInt8.ofNat c.toNat := by
  induction text with
  | nil => rfl
  | cons c text ih =>
    rw [List.forall_mem_cons] at h
    rw [List.flatMap_cons, utf8EncodeChar_of_ascii h.1, ih h.2]
    rfl

theorem pieces_of_ascii {text : List Char} (h : ∀ c ∈ text, c.toNat < 0x80) :
    pieces (text.map fun c => UInt8.ofNat c.toNat) = text.map .scalar := by
  induction text with
  | nil => rfl
  | cons c text ih =>
    rw [List.forall_mem_cons] at h
    have value := toNat_ofNat_of_ascii h.1
    have ascii : UInt8.ofNat c.toNat < 0x80 := by
      rw [UInt8.lt_iff_toNat_lt, value]
      exact h.1
    rw [List.map_cons, pieces, if_pos ascii, ih h.2, value, Char.ofNat_toNat]
    rfl

theorem decode?_encode_of_ascii {s : String} (h : ∀ c ∈ s.toList, c.toNat < 0x80) :
    decode? (encode s) = some s.toList := by
  rw [decode?, encode, flatMap_encode_of_ascii h, pieces_of_ascii h]
  generalize s.toList = text
  induction text with
  | nil => rfl
  | cons c text ih =>
    rw [List.map_cons, List.mapM_cons, ih]
    rfl

end Utf8

/-! ## Digits -/

theorem bounds_of_isDigit {c : Char} (h : c.isDigit = true) : 0x30 ≤ c.toNat ∧ c.toNat ≤ 0x39 := by
  simp only [Char.isDigit, Bool.and_eq_true, decide_eq_true_eq] at h
  exact h

theorem isDigit_of_mem_toDigits {n : Nat} {c : Char} (h : c ∈ Nat.toDigits 10 n) : c.isDigit = true :=
  Nat.isDigit_of_mem_toDigits (by decide) (by decide) h

/-- Only zero begins with a zero. -/
theorem eq_zero_of_head?_toDigits {n : Nat} (h : (Nat.toDigits 10 n).head? = some '0') : n = 0 := by
  induction n using Nat.strongRecOn with
  | _ n ih =>
    rw [Nat.toDigits_eq_if (by decide)] at h
    split at h
    · next small =>
      have all : ∀ d < 10, Nat.digitChar d = '0' → d = 0 := by decide
      exact all n small (Option.some_inj.1 h)
    · next large =>
      -- all digits but the last are those of a tenth of the number, which is none of zero
      obtain ⟨c, rest, digits⟩ := List.exists_cons_of_ne_nil (@Nat.toDigits_ne_nil (n / 10) 10)
      rw [digits] at h
      have := ih (n / 10) (by omega) (digits ▸ h)
      omega

namespace Text

/-- The digits of a number, without zeros in front but for zero itself. -/
structure IsDecimal (n : Nat) (bytes : List UInt8) : Prop where
  nonempty : bytes ≠ []
  isDigit : ∀ b ∈ bytes, 0x30 ≤ b.toNat ∧ b.toNat ≤ 0x39
  value : bytes.foldl (fun value b => 10 * value + (b.toNat - 0x30)) 0 = n
  leading : bytes.head? = some 0x30 → bytes = [0x30]

theorem encode_decimal (n : Nat) :
    Utf8.encode (decimal n) = (Nat.toDigits 10 n).map fun c => UInt8.ofNat c.toNat := by
  rw [Utf8.encode, toList_decimal]
  refine Utf8.flatMap_encode_of_ascii fun c mem => ?_
  have := bounds_of_isDigit (isDigit_of_mem_toDigits mem)
  omega

theorem isDecimal_encode (n : Nat) : IsDecimal n (Utf8.encode (decimal n)) := by
  have value : ∀ c ∈ Nat.toDigits 10 n, (UInt8.ofNat c.toNat).toNat = c.toNat := by
    intro c mem
    have := bounds_of_isDigit (isDigit_of_mem_toDigits mem)
    exact Utf8.toNat_ofNat_of_ascii (by omega)
  rw [encode_decimal]
  refine ⟨?_, ?_, ?_, ?_⟩
  · rw [ne_eq, List.map_eq_nil_iff]
    exact Nat.toDigits_ne_nil
  · intro b mem
    obtain ⟨c, inside, rfl⟩ := List.mem_map.1 mem
    rw [value c inside]
    exact bounds_of_isDigit (isDigit_of_mem_toDigits inside)
  · have digits := @Nat.ofDigitChars_ten_toDigits n
    rw [Nat.ofDigitChars_eq_foldl] at digits
    rw [List.foldl_map]
    refine Eq.trans ?_ digits
    refine List.foldl_ext _ _ _ fun total c mem => ?_
    rw [value c mem]
    rfl
  · intro first
    rw [List.head?_map, Option.map_eq_some_iff] at first
    obtain ⟨c, head, same⟩ := first
    have zero : c = '0' := by
      have := congrArg UInt8.toNat same
      rw [value c (List.mem_of_mem_head? head)] at this
      exact Char.toNat_inj.1 this
    rw [zero] at head
    rw [eq_zero_of_head?_toDigits head, Nat.toDigits_zero]
    rfl

theorem length_encode_decimal_le {n k : Nat} (positive : 0 < k) (h : n < 10 ^ k) :
    (Utf8.encode (decimal n)).length ≤ k := by
  rw [encode_decimal, List.length_map]
  exact (Nat.length_toDigits_le_iff (by decide) positive).2 h

theorem isInk_of_digit {b : UInt8} (h : 0x30 ≤ b.toNat ∧ b.toNat ≤ 0x39) : isInk b = true := by
  have other (c : UInt8) (low : c.toNat < 0x30) : (b == c) = false := by
    rw [beq_eq_false_iff_ne]
    rintro rfl
    omega
  simp only [isInk, isBlank, other _ (by decide : (0x20 : UInt8).toNat < 0x30),
    other _ (by decide : (0x09 : UInt8).toNat < 0x30), other _ (by decide : (0x0a : UInt8).toNat < 0x30),
    other _ (by decide : (0x0c : UInt8).toNat < 0x30), other _ (by decide : (0x0d : UInt8).toNat < 0x30)]
  rfl

end Text

/-! ## Names of files -/

namespace Drill

theorem isDecimal_fileName (value : UInt32) : Text.IsDecimal value.toNat (fileName value) :=
  Text.isDecimal_encode value.toNat

theorem length_fileName_le (value : UInt32) : (fileName value).length ≤ 10 :=
  Text.length_encode_decimal_le (by decide) (Nat.lt_trans value.toNat_lt (by decide))

end Drill

/-! ## Typing a number that was shown -/

namespace Numeral

theorem digitValue?_of_isDigit {c : Char} (h : c.isDigit = true) : digitValue? 10 c = some (c.toNat - '0'.toNat) := by
  obtain ⟨low, high⟩ := bounds_of_isDigit h
  have range : '0' ≤ c ∧ c ≤ '9' := ⟨low, high⟩
  have small : c.toNat - '0'.toNat < 10 := by
    show c.toNat - 48 < 10
    omega
  rw [digitValue?]
  simp only [if_pos range, Option.filter_some, decide_eq_true small, if_true]

theorem mapM_digitValue? {text : List Char} (h : ∀ c ∈ text, c.isDigit = true) :
    text.mapM (digitValue? 10) = some (text.map fun c => c.toNat - '0'.toNat) := by
  induction text with
  | nil => rfl
  | cons c text ih =>
    rw [List.forall_mem_cons] at h
    rw [List.mapM_cons, digitValue?_of_isDigit h.1, ih h.2]
    rfl

theorem positional_digits (text : List Char) :
    positional 10 (text.map fun c => c.toNat - '0'.toNat) = Nat.ofDigitChars 10 text 0 := by
  rw [positional, List.foldl_map, Nat.ofDigitChars_eq_foldl]
  congr 1
  funext value c
  rw [Nat.mul_comm]

theorem magnitude?_toDigits {n : Nat} (h : n ≤ 9223372036854775807) :
    magnitude? 10 (Nat.toDigits 10 n) = some (Int64.ofNat n) := by
  have digits := mapM_digitValue? fun c mem => isDigit_of_mem_toDigits (n := n) mem
  have nonempty : ((Nat.toDigits 10 n).map fun c => c.toNat - '0'.toNat).isEmpty = false := by
    simp [Nat.toDigits_ne_nil]
  rw [magnitude?, digits]
  simp only [Option.bind_eq_bind, Option.bind_some, nonempty, positional_digits, Nat.ofDigitChars_ten_toDigits,
    if_pos h, Bool.false_eq_true, if_false]

theorem splitSign_toDigits (n : Nat) : splitSign (Nat.toDigits 10 n) = (false, Nat.toDigits 10 n) := by
  have digit (c : Char) (first : (Nat.toDigits 10 n).head? = some c) : c.isDigit = true :=
    isDigit_of_mem_toDigits (List.mem_of_mem_head? first)
  unfold splitSign
  split
  · next rest eq => exact absurd (digit '-' (by rw [eq]; rfl)) (by decide)
  · next rest eq => exact absurd (digit '+' (by rw [eq]; rfl)) (by decide)
  · rfl

/-- No decimal is taken for a number in base eight or sixteen: only zero begins with a zero, and it ends there. -/
theorem splitRadix_toDigits (n : Nat) : splitRadix (Nat.toDigits 10 n) = (10, Nat.toDigits 10 n) := by
  have zero (c : Char) (rest : List Char) : Nat.toDigits 10 n ≠ '0' :: c :: rest := by
    intro eq
    have : n = 0 := eq_zero_of_head?_toDigits (by rw [eq]; rfl)
    rw [this, Nat.toDigits_zero] at eq
    cases eq
  unfold splitRadix
  split
  · next eq => exact absurd eq (zero _ _)
  · next eq => exact absurd eq (zero _ _)
  · next eq => exact absurd eq (zero _ _)
  · rfl

theorem narrow?_ofInt {n : Int} (low : -2147483648 ≤ n) (high : n ≤ 2147483647) :
    narrow? (Int64.ofInt n) = some (Int32.ofInt n) := by
  have value : (Int64.ofInt n).toInt = n := Int64.toInt_ofInt_of_le (by omega) (by omega)
  have range : -2147483648 ≤ Int64.ofInt n ∧ Int64.ofInt n ≤ 2147483647 := by
    rw [Int64.le_iff_toInt_le, Int64.le_iff_toInt_le, value]
    exact ⟨low, high⟩
  rw [narrow?, if_pos range, Int64.toInt32_ofInt]

theorem parse_decimal {n : Nat} (h : n ≤ 2147483647) :
    parse (Text.decimal n).toList = some (Int32.ofInt n) := by
  rw [Text.toList_decimal, parse, splitSign_toDigits]
  simp only [splitRadix_toDigits, magnitude?_toDigits (Nat.le_trans h (by decide))]
  exact narrow?_ofInt (n := n) (by omega) (by omega)

theorem parse_minus_decimal {n : Nat} (h : n ≤ 2147483648) :
    parse ("-" ++ Text.decimal n).toList = some (Int32.ofInt (-n)) := by
  have minus : ("-" ++ Text.decimal n).toList = '-' :: Nat.toDigits 10 n := by
    rw [String.toList_append, Text.toList_decimal]
    rfl
  rw [minus, parse, splitSign]
  simp only [splitRadix_toDigits, magnitude?_toDigits (Nat.le_trans h (by decide))]
  have negated : -Int64.ofNat n = Int64.ofInt (-n) := by
    rw [Int64.ofInt_neg, Int64.ofInt_eq_ofNat]
  show narrow? (-Int64.ofNat n) = _
  rw [negated]
  exact narrow?_ofInt (by omega) (by omega)

/-- A number that is shown and typed again is the same number. -/
theorem parse_signed (n : Int32) : parse (Text.signed n.toInt).toList = some n := by
  have low := Int32.le_toInt n
  have high := Int32.toInt_lt n
  cases value : n.toInt with
  | ofNat k =>
    rw [value, Int.ofNat_eq_natCast] at high
    have parsed := parse_decimal (n := k) (by omega)
    rw [Text.signed, parsed, ← Int32.ofInt_toInt n, value]
    rfl
  | negSucc k =>
    rw [value] at low
    have parsed := parse_minus_decimal (n := k + 1) (by omega)
    rw [Text.signed, parsed, ← Int32.ofInt_toInt n, value]
    rfl

end Numeral

/-! ## Tokens of numbers -/

namespace Text

theorem ascii_of_sign_or_digit {text : List Char} (h : ∀ c ∈ text, c = '-' ∨ c.isDigit = true) :
    ∀ c ∈ text, c.toNat < 0x80 := by
  intro c mem
  rcases h c mem with rfl | digit
  · decide
  · have := bounds_of_isDigit digit
    omega

theorem isInk_of_sign_or_digit {text : List Char} (h : ∀ c ∈ text, c = '-' ∨ c.isDigit = true) :
    ∀ b ∈ text.map fun c => UInt8.ofNat c.toNat, isInk b = true := by
  refine List.forall_mem_map.2 fun c mem => ?_
  rcases h c mem with rfl | digit
  · decide
  · refine isInk_of_digit ?_
    rw [Utf8.toNat_ofNat_of_ascii (ascii_of_sign_or_digit h c mem)]
    exact bounds_of_isDigit digit

theorem sign_or_digit (n : Int) : ∀ c ∈ (signed n).toList, c = '-' ∨ c.isDigit = true := by
  have digits (k : Nat) : ∀ c ∈ (decimal k).toList, c = '-' ∨ c.isDigit = true := by
    intro c mem
    rw [toList_decimal] at mem
    exact .inr (isDigit_of_mem_toDigits mem)
  cases n with
  | ofNat k => exact digits k
  | negSucc k =>
    have minus : "-".toList = ['-'] := rfl
    rw [signed, String.toList_append, minus]
    exact List.forall_mem_append.2 ⟨List.forall_mem_singleton.2 (.inl rfl), digits (k + 1)⟩

theorem ascii_signed (n : Int) : ∀ c ∈ (signed n).toList, c.toNat < 0x80 :=
  ascii_of_sign_or_digit (sign_or_digit n)

theorem encode_signed_ne_nil (n : Int) : Utf8.encode (signed n) ≠ [] := by
  cases n with
  | ofNat k => exact (isDecimal_encode k).nonempty
  | negSucc k =>
    rw [signed, Utf8.encode_append]
    exact List.append_ne_nil_of_right_ne_nil _ (isDecimal_encode (k + 1)).nonempty

theorem isInk_encode_signed (n : Int) : ∀ b ∈ Utf8.encode (signed n), isInk b = true := by
  rw [Utf8.encode, Utf8.flatMap_encode_of_ascii (ascii_signed n)]
  exact isInk_of_sign_or_digit (sign_or_digit n)

theorem length_encode_signed_le (n : Int32) : (Utf8.encode (signed n.toInt)).length ≤ 11 := by
  have low := Int32.le_toInt n
  have high := Int32.toInt_lt n
  cases value : n.toInt with
  | ofNat k =>
    rw [value, Int.ofNat_eq_natCast] at high
    exact length_encode_decimal_le (by decide) (by omega)
  | negSucc k =>
    rw [value] at low
    have digits : (Utf8.encode (decimal (k + 1))).length ≤ 10 := length_encode_decimal_le (by decide) (by omega)
    have sign : (Utf8.encode "-").length = 1 := rfl
    rw [signed, Utf8.encode_append, List.length_append, sign]
    omega

end Text

theorem Token.integer?_encode_signed (n : Int32) :
    Token.integer? (Utf8.encode (Text.signed n.toInt)) = some n := by
  have short : (Utf8.encode (Text.signed n.toInt)).length ≤ Console.maxIntToken :=
    Nat.le_trans (Text.length_encode_signed_le n) (by decide)
  rw [Token.integer?, if_pos short, Utf8.decode?_encode_of_ascii (Text.ascii_signed _), Option.bind_some,
    Numeral.parse_signed]

/-! ## Process numbers -/

namespace Pid

theorem toInt32_ofInt32 (n : Int32) : (ofInt32 n).toInt32 = n := by
  rw [ofInt32, toInt32, Int64.toInt64_toUInt64, Int32.toInt32_toInt64]

theorem text_ofInt32 (n : Int32) : (ofInt32 n).text = Text.signed n.toInt := by
  rw [text, toInt32_ofInt32]

/-- The process number that is typed with this text. -/
def typed? (text : String) : Option Pid :=
  (Numeral.parse text.toList).map ofInt32

theorem typed?_text (pid : Pid) : typed? pid.text = some (ofInt32 pid.toInt32) := by
  rw [typed?, text, Numeral.parse_signed]
  rfl

theorem toInt_toInt64 (raw : UInt64) : raw.toInt64.toInt = (raw.toNat : Int).bmod (2 ^ 64) := by
  have value := @Int64.toInt_ofNat' raw.toNat
  rwa [← UInt64.toInt64_ofNat', UInt64.ofNat_toNat] at value

theorem ofInt32_toInt32_iff (pid : Pid) :
    ofInt32 pid.toInt32 = pid ↔ pid.raw.toInt64.toInt.bmod (2 ^ 32) = pid.raw.toInt64.toInt := by
  obtain ⟨raw⟩ := pid
  rw [← Int64.toInt_toInt32, ← Int32.toInt_toInt64, Int64.toInt_inj, ofInt32, toInt32]
  constructor
  · intro same
    have raw_eq := congrArg UInt64.toInt64 (Pid.mk.inj same)
    rwa [Int64.toInt64_toUInt64] at raw_eq
  · intro same
    rw [same, UInt64.toUInt64_toInt64]

/-- A process number can be told from its text exactly if it is a number of 32 bits with its sign extended. -/
theorem typed?_text_iff (pid : Pid) :
    typed? pid.text = some pid ↔ pid.raw.toNat < 2147483648 ∨ 18446744071562067968 ≤ pid.raw.toNat := by
  have small := pid.raw.toNat_lt
  rw [typed?_text, Option.some_inj, ofInt32_toInt32_iff, toInt_toInt64, Int.bmod_def, Int.bmod_def]
  omega

theorem typed?_text_ofInt32 (n : Int32) : typed? (ofInt32 n).text = some (ofInt32 n) := by
  rw [typed?_text, toInt32_ofInt32]

theorem ofInt32_toInt32 {pid : Pid} (small : pid.raw.toNat ≤ 2147483647) : ofInt32 pid.toInt32 = pid := by
  have typed := (typed?_text_iff pid).2 (.inl (Nat.lt_succ_of_le small))
  rw [typed?_text] at typed
  exact Option.some_inj.1 typed

end Pid

end ProcessDrill
