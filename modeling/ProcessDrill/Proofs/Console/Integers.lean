import ProcessDrill.Proofs.Console.Next
import ProcessDrill.Proofs.Machine.Scripts
import ProcessDrill.Proofs.Text.Padding
/-!
# Integers

A token serves as an integer if all of it is the text of one, and if no byte of it had to be left out. The numerals
that are lost by the limit on a token's length are those with 28 zeros or more in front of their digits, and there are
such of every number.

Main statement: `readInt_capped`.
* On a machine that delivers, where a token stands next, the session is given `n` exactly if the token has 40 bytes or
  fewer and the whole of it spells `n`; the token is used up then, whatever it was, and any operation begins with the
  one behind it.
* So the limit makes a difference exactly to the longer tokens that spell an integer, and these have 28 zeros or more
  in front of their digits.
* On any machine a session that comes to its end has used up the blanks before a token, the token and the blank behind
  it, with the same result, or all that was left of an input without one.
* There are tokens of every length beyond the limit that spell any given integer.
-/

namespace ProcessDrill

set_option autoImplicit false

namespace Token

/-- The integer that the whole of a token spells, however long it is. -/
def spelled? (ink : List UInt8) : Option Int32 :=
  (Utf8.decode? ink).bind Numeral.parse

/-- How many zeros stand in front of the digits of a token. -/
def padding (ink : List UInt8) : Nat :=
  ((Utf8.decode? ink).map Numeral.padding).getD 0

theorem integer?_eq_some_iff {ink : List UInt8} {n : Int32} :
    integer? ink = some n ↔ ink.length ≤ Console.maxIntToken ∧ spelled? ink = some n := by
  rw [integer?, ← spelled?]
  split
  · next fits => exact ⟨fun read => ⟨fits, read⟩, And.right⟩
  · next long => exact iff_of_false (Option.some_ne_none n ·.symm) fun fits => long fits.1

/-- A token that spells an integer is short but for the zeros in it. -/
theorem length_le_of_spelled {ink : List UInt8} {n : Int32} (h : spelled? ink = some n) :
    ink.length ≤ padding ink + 13 := by
  obtain ⟨text, decoded, read⟩ := Option.bind_eq_some_iff.1 h
  rw [padding, decoded]
  exact Numeral.length_le_of_decoded decoded read

/-- Every integer is spelled by tokens of every length from 13 on. -/
theorem exists_spelled (n : Int32) {length : Nat} (long : 13 ≤ length) :
    ∃ ink, ink.length = length ∧ Text.tokens ink = [ink] ∧ spelled? ink = some n := by
  obtain ⟨text, rfl, read, simple⟩ := Numeral.exists_padded n long
  have ascii := Text.ascii_of_sign_or_digit simple
  refine ⟨text.map fun c => UInt8.ofNat c.toNat, List.length_map .., ?_, ?_⟩
  · refine Text.tokens_ink (Text.isInk_of_sign_or_digit simple) fun nothing => ?_
    rw [List.map_eq_nil_iff.1 nothing] at long
    cases long
  · have decoded : Utf8.decode? (text.map fun c => UInt8.ofNat c.toNat) = some text := by
      have := Utf8.decode?_encode_of_ascii (s := String.ofList text)
      rw [String.toList_ofList, Utf8.encode, String.toList_ofList, Utf8.flatMap_encode_of_ascii ascii] at this
      exact this ascii
    rw [spelled?, decoded]
    exact read

theorem asInt_given_eq_ok_iff {ink : List UInt8} {n : Int32} :
    asInt (given Console.maxIntToken (some ink)) = .ok n ↔
      ink.length ≤ Console.maxIntToken ∧ spelled? ink = some n := by
  rw [asInt_given, ← integer?_eq_some_iff]
  cases integer? ink with
  | none => exact ⟨nofun, nofun⟩
  | some m => simp

/-- The limit makes no difference to a token that is within it, or that spells no integer anyway. -/
theorem asInt_given_whole_iff {ink : List UInt8} :
    (∀ n, asInt (given Console.maxIntToken (some ink)) = .ok n ↔ spelled? ink = some n) ↔
      ink.length ≤ Console.maxIntToken ∨ spelled? ink = none := by
  simp only [asInt_given_eq_ok_iff]
  constructor
  · intro all
    by_cases spelled : spelled? ink = none
    · exact .inr spelled
    · obtain ⟨n, spelled⟩ := Option.ne_none_iff_exists'.1 spelled
      exact .inl ((all n).2 spelled).1
  · rintro (fits | nothing) n
    · exact ⟨And.right, fun spelled => ⟨fits, spelled⟩⟩
    · exact ⟨And.right, fun spelled => absurd (nothing.symm.trans spelled) (Option.some_ne_none n).symm⟩

theorem asInt_given_of_padding {ink : List UInt8} (few : padding ink + 13 ≤ Console.maxIntToken) :
    ∀ n, asInt (given Console.maxIntToken (some ink)) = .ok n ↔ spelled? ink = some n := by
  rw [asInt_given_whole_iff]
  by_cases spelled : spelled? ink = none
  · exact .inr spelled
  · obtain ⟨n, spelled⟩ := Option.ne_none_iff_exists'.1 spelled
    exact .inl ((length_le_of_spelled spelled).trans few)

end Token

namespace Console

variable {σ : Type}

/-- A session that reads an integer gives the number that the next token spells, if that token has no more than 40
bytes. -/
theorem readInt_capped (host : Host σ) (c : Console σ) :
    let events := Session.record (readInt host.recorded) c
    (∀ (input : σ → List UInt8) (P : σ → Prop), host.Delivers input P → c.Fed input P →
      ∀ ink later, Text.tokens (c.ahead input) = ink :: later →
        ∃ result d, readInt host c = .ok result d ∧ d.Fed input P ∧ Text.tokens (d.ahead input) = later ∧
          (∀ operation : Operation, ∃ e, operation.perform host d = .ok (operation.verdict later.head?) e) ∧
          (∀ n, result = .ok n ↔ ink.length ≤ 40 ∧ Token.spelled? ink = some n) ∧
          ((∀ n, result = .ok n ↔ Token.spelled? ink = some n) ↔
            ink.length ≤ 40 ∨ Token.spelled? ink = none) ∧
          (Token.padding ink ≤ 27 → ∀ n, result = .ok n ↔ Token.spelled? ink = some n)) ∧
    (∀ result d, readInt host c = .ok result d →
      ∃ used token final, c.pending ++ delivered events = used ++ d.pending ∧
        Text.Taken used token final ∧ (final = true → d.pending = [] ∧ d.atEnd = true) ∧
        ∀ n, result = .ok n ↔ ∃ ink, token = some ink ∧ ink.length ≤ 40 ∧ Token.spelled? ink = some n) ∧
    ∀ (n : Int32) (length : Nat), 40 < length →
      ∃ ink, ink.length = length ∧ Text.tokens ink = [ink] ∧ Token.spelled? ink = some n := by
  have record : Session.record (readInt host.recorded) c =
      Session.record (readToken host.recorded maxIntToken) c := by
    rw [readInt_eq, Session.record_bind_pure]
  dsimp only
  rw [record, readInt_eq]
  refine ⟨?_, ?_, fun n length long => Token.exists_spelled n (by omega)⟩
  · intro input P delivers fed ink later next
    obtain ⟨d, read, fed', rest, after⟩ := readToken_next delivers maxIntToken fed next
    refine ⟨Token.asInt (Token.given maxIntToken (some ink)), d, ?_, fed', rest, after, ?_⟩
    · rw [Session.bind_apply, read]
      rfl
    · exact ⟨fun n => Token.asInt_given_eq_ok_iff, Token.asInt_given_whole_iff,
        fun few => Token.asInt_given_of_padding (Nat.add_le_add_right few 13)⟩
  · intro result d read
    obtain ⟨used, token, final, eq, taken, last, rfl⟩ := readToken_taken read
    refine ⟨used, token, final, eq, taken, last, fun n => ?_⟩
    cases token with
    | none => exact ⟨nofun, nofun⟩
    | some ink =>
      refine Token.asInt_given_eq_ok_iff.trans ⟨fun read => ⟨ink, rfl, read⟩, ?_⟩
      rintro ⟨_, same, read⟩
      cases same
      exact read

/-- Seven, typed with 39 zeros before it and then with 40. -/
def sevens : Console Machine where
  machine := { reads := [.bytes (List.replicate 39 48 ++ [55, 10]), .bytes (List.replicate 40 48 ++ [55, 10])] }

theorem first_seven_read : ∃ d, readInt Machine.direct sevens = .ok (.ok 7) d := by
  have feeding : Delivery.Feeding sevens.machine.reads := by simp [Delivery.Feeding, sevens]
  have fed : sevens.Fed (fun m => Delivery.input m.reads) _ := Machine.fed_of_feeding feeding
  have next : Text.tokens (sevens.ahead fun m => Delivery.input m.reads) =
      [List.replicate 39 48 ++ [55], List.replicate 40 48 ++ [55]] := by cbv
  obtain ⟨result, d, read, -, -, -, given, -⟩ :=
    (readInt_capped Machine.direct sevens).1 _ _ (Machine.direct_delivers _) fed _ _ next
  obtain rfl : result = .ok 7 := (given 7).2 ⟨by decide, by decide +kernel⟩
  exact ⟨d, read⟩

/-- The other one spells the same number, and is refused. -/
theorem second_seven_refused :
    Token.spelled? (List.replicate 40 48 ++ [55]) = some 7 ∧
      (series Machine.direct [.int, .int] sevens).1 =
        [.ok (.ok (.int 7)), .ok (.error (.notInteger (String.ofList (List.replicate 40 '0') ++ "...")))] := by
  constructor
  · decide +kernel
  · cbv

end Console

end ProcessDrill
