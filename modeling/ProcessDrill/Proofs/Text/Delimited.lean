import Mathlib
import ProcessDrill.Proofs.Text.Numbers
import ProcessDrill.Text.Escaped
/-!
# Texts told apart

A number or a name that stands in a text, with what cannot be a part of it behind, can be read back from the text.
Main statements: `signed_append_inj` and `escape_append_inj`, two such texts are the same only if their numbers, or
their names, are; `unescape?_escape`, a reader of names comes to the end of the name and no further.
-/

namespace ProcessDrill.Text

set_option autoImplicit false

/-! ## Numbers -/

theorem decimal_injective : Function.Injective decimal := by
  intro n m same
  rw [← ofDigitChars_decimal n, same, ofDigitChars_decimal]

theorem signed_injective : Function.Injective signed := by
  have unsigned (n m : Nat) : decimal n ≠ "-" ++ decimal m := by
    intro same
    have minus : '-' ∈ (decimal n).toList := by
      rw [same, String.toList_append]
      exact List.mem_append_left _ (List.mem_singleton_self _)
    rw [toList_decimal] at minus
    exact absurd (isDigit_of_mem_toDigits minus) (by decide)
  intro n m same
  match n, m with
  | .ofNat n, .ofNat m => exact congrArg Int.ofNat (decimal_injective same)
  | .ofNat n, .negSucc m => exact absurd same (unsigned n (m + 1))
  | .negSucc n, .ofNat m => exact absurd same.symm (unsigned m (n + 1))
  | .negSucc n, .negSucc m =>
    have digits := decimal_injective (String.append_right_inj "-" |>.1 same)
    exact congrArg Int.negSucc (Nat.succ.inj digits)

/-- What stands before the first character of a kind can be told. -/
theorem append_inj_of_mark {p : Char → Bool} {before before' after after' : List Char} {c c' : Char}
    (inside : ∀ d ∈ before, p d = true) (inside' : ∀ d ∈ before', p d = true) (mark : p c = false)
    (mark' : p c' = false) (same : before ++ c :: after = before' ++ c' :: after') :
    before = before' ∧ c :: after = c' :: after' := by
  have front := congrArg (List.takeWhile p) same
  rw [List.takeWhile_append_of_pos inside, List.takeWhile_append_of_pos inside',
    List.takeWhile_cons_of_neg (by simp [mark]), List.takeWhile_cons_of_neg (by simp [mark']), List.append_nil,
    List.append_nil] at front
  subst front
  exact ⟨rfl, List.append_cancel_left same⟩

theorem signed_append_inj {n m : Int} {c c' : Char} {after after' : List Char} (mark : c ≠ '-' ∧ c.isDigit = false)
    (mark' : c' ≠ '-' ∧ c'.isDigit = false)
    (same : (signed n).toList ++ c :: after = (signed m).toList ++ c' :: after') :
    n = m ∧ c :: after = c' :: after' := by
  have inside (k : Int) : ∀ d ∈ (signed k).toList, (d == '-' || d.isDigit) = true := by
    intro d mem
    rcases sign_or_digit k d mem with rfl | digit
    · rfl
    · rw [digit, Bool.or_true]
  obtain ⟨texts, rest⟩ := append_inj_of_mark (p := fun d => d == '-' || d.isDigit) (inside n) (inside m)
    (by simp [mark]) (by simp [mark']) same
  exact ⟨signed_injective (String.toList_inj.1 texts), rest⟩

/-! ## Escaped bytes -/

def hexValue (c : Char) : Nat :=
  if c.isDigit then c.toNat - '0'.toNat else c.toNat - 'a'.toNat + 10

/-- The byte at the front of an escaped text, and what is left of the text. -/
def unescapeByte? : List Char → Option (UInt8 × List Char)
  | '\\' :: 't' :: rest => some (0x09, rest)
  | '\\' :: 'n' :: rest => some (0x0a, rest)
  | '\\' :: 'r' :: rest => some (0x0d, rest)
  | '\\' :: 'x' :: high :: low :: rest => some (.ofNat (16 * hexValue high + hexValue low), rest)
  | '\\' :: c :: rest => some (.ofNat c.toNat, rest)
  | c :: rest => some (.ofNat c.toNat, rest)
  | [] => none

theorem hexValue_hexDigit (n : Nat) : hexValue (hexDigit n) = n % 16 := by
  have all : ∀ d < 16, hexValue (Nat.digitChar d) = d := by decide
  exact all _ (Nat.mod_lt n (by decide))

theorem unescapeByte?_plain {c : Char} (plain : c ≠ '\\') (rest : List Char) :
    unescapeByte? (c :: rest) = some (.ofNat c.toNat, rest) := by
  unfold unescapeByte?
  split
  all_goals simp_all

theorem unescapeByte?_escapeByte (b : UInt8) (rest : List Char) :
    unescapeByte? (escapeByte b ++ rest) = some (b, rest) := by
  unfold escapeByte
  split_ifs with tab feed carriage quote apostrophe backslash printable
  · rw [tab]; rfl
  · rw [feed]; rfl
  · rw [carriage]; rfl
  · rw [quote]; rfl
  · rw [apostrophe]; rfl
  · rw [backslash]; rfl
  · have small := b.toNat_lt
    have value : (Char.ofNat b.toNat).toNat = b.toNat := by
      rw [Char.toNat_ofNat, if_pos (.inl (by omega))]
    have plain : Char.ofNat b.toNat ≠ '\\' := by
      intro same
      rw [same] at value
      exact backslash (UInt8.toNat_inj.1 value.symm)
    rw [List.singleton_append, unescapeByte?_plain plain, value, UInt8.ofNat_toNat]
  · have small := b.toNat_lt
    have digits : 16 * (b.toNat / 16 % 16) + b.toNat % 16 = b.toNat := by omega
    show some (UInt8.ofNat (16 * hexValue (hexDigit (b.toNat / 16)) + hexValue (hexDigit b.toNat)), rest) = _
    rw [hexValue_hexDigit, hexValue_hexDigit, digits, UInt8.ofNat_toNat]

/-- A quote cannot be a part of an escaped name, so it ends the name. -/
theorem escapeByte_append_ne (b : UInt8) (rest after : List Char) : escapeByte b ++ rest ≠ '\x22' :: after := by
  intro same
  have read := congrArg unescapeByte? same
  rw [unescapeByte?_escapeByte, unescapeByte?_plain (by decide)] at read
  obtain ⟨rfl, -⟩ := Prod.mk.inj (Option.some_inj.1 read)
  cases same

theorem escape_append_inj {name name' : List UInt8} {after after' : List Char}
    (same : (escape name).toList ++ '\x22' :: after = (escape name').toList ++ '\x22' :: after') :
    name = name' ∧ after = after' := by
  rw [escape, escape, String.toList_ofList, String.toList_ofList] at same
  induction name generalizing name' with
  | nil =>
    cases name' with
    | nil => exact ⟨rfl, List.tail_eq_of_cons_eq same⟩
    | cons b name' =>
      rw [List.flatMap_nil, List.nil_append, List.flatMap_cons, List.append_assoc] at same
      exact absurd same.symm (escapeByte_append_ne b _ _)
  | cons b name ih =>
    cases name' with
    | nil =>
      rw [List.flatMap_nil, List.nil_append, List.flatMap_cons, List.append_assoc] at same
      exact absurd same (escapeByte_append_ne b _ _)
    | cons b' name' =>
      rw [List.flatMap_cons, List.flatMap_cons, List.append_assoc, List.append_assoc] at same
      have read := congrArg unescapeByte? same
      rw [unescapeByte?_escapeByte, unescapeByte?_escapeByte] at read
      obtain ⟨rfl, rest⟩ := Prod.mk.inj (Option.some_inj.1 read)
      obtain ⟨rfl, after_eq⟩ := ih rest
      exact ⟨rfl, after_eq⟩

/-! ## A reader of escaped names -/

theorem length_unescapeByte? {text rest : List Char} {b : UInt8} (h : unescapeByte? text = some (b, rest)) :
    rest.length < text.length := by
  unfold unescapeByte? at h
  split at h
  all_goals cases h
  all_goals
    simp only [List.length_cons]
    omega

/-- The bytes of an escaped text up to the quote behind it, and what stands behind the quote. -/
def unescape? (text : List Char) : Option (List UInt8 × List Char) :=
  if text.head? = some '\x22' then some ([], text.tail)
  else
    match _ : unescapeByte? text with
    | none => none
    | some (b, rest) => (unescape? rest).map fun (name, after) => (b :: name, after)
termination_by text.length
decreasing_by exact length_unescapeByte? ‹_›

theorem head?_escapeByte_append_ne (b : UInt8) (rest : List Char) :
    (escapeByte b ++ rest).head? ≠ some '\x22' := by
  intro quote
  obtain ⟨after, same⟩ := List.head?_eq_some_iff.1 quote
  exact escapeByte_append_ne b rest after same

theorem unescape?_escape (name : List UInt8) (after : List Char) :
    unescape? ((escape name).toList ++ '\x22' :: after) = some (name, after) := by
  rw [escape, String.toList_ofList]
  induction name with
  | nil => rw [List.flatMap_nil, List.nil_append, unescape?, List.head?_cons, if_pos rfl, List.tail_cons]
  | cons b name ih =>
    rw [List.flatMap_cons, List.append_assoc, unescape?, if_neg (head?_escapeByte_append_ne b _)]
    split
    · next none =>
      rw [unescapeByte?_escapeByte] at none
      cases none
    · next read =>
      rw [unescapeByte?_escapeByte] at read
      cases read
      rw [ih]
      rfl

end ProcessDrill.Text
