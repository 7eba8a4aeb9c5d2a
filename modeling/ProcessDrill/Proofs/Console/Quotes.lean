import ProcessDrill.Proofs.Console.Next
import ProcessDrill.Proofs.Machine.Scripts
import ProcessDrill.Proofs.Text.Lossy
/-!
# Quoted tokens

A token that is no integer is quoted in the error, as far as it was kept. `Token.Quotes ink text` says how.
* A token of 40 bytes or fewer is quoted as it is if it is UTF-8, and else with U+FFFD for each of its broken parts.
* Of a longer one that is UTF-8, the characters that 40 bytes hold are quoted, and one U+FFFD if the bytes cut through
  the next one; of any other, 40 bytes are quoted with U+FFFD for each broken part of them. Dots follow.

Main statement: `readInt_quotes`.
* On a machine that delivers, where a token stands next that is no integer, the session is given an error that quotes
  it, and the token is used up.
* On any machine, a session that comes to an error has taken a token that is no integer, which is quoted in the error,
  or there was none.
* What is quoted of a token has no blank, and the line that tells of it no line feed.
* What is quoted in front of the dots is the same for all tokens with the same first 40 bytes.
-/

namespace ProcessDrill

set_option autoImplicit false

namespace Token

/-- What is quoted of a token, by whether it is longer than 40 bytes and whether it is UTF-8. -/
structure Quotes (ink : List UInt8) (text : String) : Prop where
  whole : ink.length ≤ 40 → ∀ s, ink = Utf8.encode s → text = s
  broken : ink.length ≤ 40 → (∀ s, ink ≠ Utf8.encode s) → Utf8.Shows ink text.toList
  cut : 40 < ink.length → ∀ s, ink = Utf8.encode s → ∃ front, Utf8.Fits 40 s.toList front ∧
    (Utf8.Boundary s.toList 40 → text = String.ofList front ++ "...") ∧
    (¬ Utf8.Boundary s.toList 40 → text = String.ofList front ++ "\uFFFD" ++ "...")
  cut_broken : 40 < ink.length → (∀ s, ink ≠ Utf8.encode s) →
    ∃ front, Utf8.Shows (ink.take 40) front ∧ text = String.ofList front ++ "..."

variable {ink : List UInt8} {text : String}

/-! ## The text of a token -/

def quoted (ink : List UInt8) : String :=
  (kept Console.maxIntToken ink).shown

/-- The text without the dots, which is that of the first 40 bytes. -/
def quotedFront (ink : List UInt8) : String :=
  String.ofList (Utf8.decodeLossy (ink.take 40))

def dots (ink : List UInt8) : String :=
  if 40 < ink.length then "..." else ""

theorem quoted_eq (ink : List UInt8) : quoted ink = quotedFront ink ++ dots ink := by
  have left_out : (ink.take 40).length < ink.length ↔ 40 < ink.length := by
    rw [List.length_take]
    omega
  show quotedFront ink ++ (if (ink.take 40).length < ink.length then "..." else "") = _
  simp only [left_out]
  rfl

theorem quoted_of_short (short : ink.length ≤ 40) : quoted ink = String.ofList (Utf8.decodeLossy ink) := by
  rw [quoted_eq, quotedFront, dots, List.take_of_length_le short, if_neg (Nat.not_lt.2 short), String.append_empty]

theorem quoted_of_long (long : 40 < ink.length) :
    quoted ink = String.ofList (Utf8.decodeLossy (ink.take 40)) ++ "..." := by
  rw [quoted_eq, quotedFront, dots, if_pos long]

theorem quoted_of_fits {s : String} {front : List Char} (long : 40 < (Utf8.encode s).length)
    (fits : Utf8.Fits 40 s.toList front) :
    (Utf8.Boundary s.toList 40 → quoted (Utf8.encode s) = String.ofList front ++ "...") ∧
      (¬ Utf8.Boundary s.toList 40 → quoted (Utf8.encode s) = String.ofList front ++ "\uFFFD" ++ "...") := by
  have shown := Utf8.shows_iff.1 (fits.shows_take long.le)
  rw [fits.boundary_iff, quoted_of_long long, Utf8.encode, ← shown]
  constructor
  · intro whole
    rw [if_pos whole, List.append_nil]
  · intro inside
    rw [if_neg inside, String.ofList_append]

theorem quotes_quoted (ink : List UInt8) : Quotes ink (quoted ink) where
  whole short s same := by
    subst same
    rw [quoted_of_short short, ← Utf8.shows_iff.1 (Utf8.shows_encode s), String.ofList_toList]
  broken short _ := by
    rw [quoted_of_short short, String.toList_ofList]
    exact Utf8.shows_decodeLossy ink
  cut long s same := by
    subst same
    obtain ⟨front, fits⟩ := Utf8.exists_fits 40 s.toList
    exact ⟨front, fits, quoted_of_fits long fits⟩
  cut_broken long _ := ⟨_, Utf8.shows_decodeLossy _, quoted_of_long long⟩

theorem quotes_iff : Quotes ink text ↔ text = quoted ink := by
  refine ⟨fun quotes => ?_, fun same => same ▸ quotes_quoted ink⟩
  by_cases short : ink.length ≤ 40
  · by_cases utf8 : ∃ s, ink = Utf8.encode s
    · obtain ⟨s, same⟩ := utf8
      rw [quotes.whole short s same, (quotes_quoted ink).whole short s same]
    · have shown := quotes.broken short (not_exists.1 utf8)
      rw [quoted_of_short short, ← Utf8.shows_iff.1 shown, String.ofList_toList]
  · have long := Nat.not_le.1 short
    by_cases utf8 : ∃ s, ink = Utf8.encode s
    · obtain ⟨s, rfl⟩ := utf8
      obtain ⟨front, fits, boundary, inside⟩ := quotes.cut long s rfl
      obtain ⟨boundary', inside'⟩ := quoted_of_fits long fits
      by_cases ends : Utf8.Boundary s.toList 40
      · rw [boundary ends, boundary' ends]
      · rw [inside ends, inside' ends]
    · obtain ⟨front, shown, rfl⟩ := quotes.cut_broken long (not_exists.1 utf8)
      rw [quoted_of_long long, Utf8.shows_iff.1 shown]

/-- Bytes beyond the limit make no difference to what is quoted in front of the dots. -/
theorem Quotes.front_eq {ink' : List UInt8} {text' : String} (h : Quotes ink text) (h' : Quotes ink' text')
    (same : ink.take 40 = ink'.take 40) : ∃ front, text = front ++ dots ink ∧ text' = front ++ dots ink' := by
  rw [quotes_iff, quoted_eq] at h h'
  refine ⟨quotedFront ink, h, ?_⟩
  rw [h', quotedFront, quotedFront, same]

/-! ## Blanks -/

/-- The characters that separate tokens. -/
def blanks : List Char :=
  [' ', '\t', '\n', '\x0c', '\r']

theorem Quotes.no_blank (h : Quotes ink text) (inside : ∀ b ∈ ink, Text.isInk b = true) :
    ∀ c ∈ text.toList, c ∉ blanks := by
  intro c mem blank
  obtain ⟨b, ascii, number, separates⟩ : ∃ b : UInt8, b.toNat < 0x80 ∧ c.toNat = b.toNat ∧ Text.isInk b = false := by
    rcases List.mem_cons.1 blank with rfl | blank
    · exact ⟨0x20, by decide, rfl, rfl⟩
    rcases List.mem_cons.1 blank with rfl | blank
    · exact ⟨0x09, by decide, rfl, rfl⟩
    rcases List.mem_cons.1 blank with rfl | blank
    · exact ⟨0x0a, by decide, rfl, rfl⟩
    rcases List.mem_pair.1 blank with rfl | rfl
    · exact ⟨0x0c, by decide, rfl, rfl⟩
    · exact ⟨0x0d, by decide, rfl, rfl⟩
  rw [quotes_iff.1 h, quoted_eq, String.toList_append, List.mem_append] at mem
  rcases mem with front | behind
  · rw [quotedFront, String.toList_ofList] at front
    have there := (Utf8.shows_decodeLossy _).mem_of_ascii ascii number front
    rw [inside b (List.mem_of_mem_take there)] at separates
    cases separates
  · have dot : c = '.' := by
      rw [dots] at behind
      split at behind
      · simpa using behind
      · cases behind
    subst dot
    exact absurd blank (by decide)

/-- The error is told on one line. -/
theorem Quotes.one_line (h : Quotes ink text) (inside : ∀ b ∈ ink, Text.isInk b = true) :
    lineFeed ∉ Utf8.encode ("error: " ++ (InputError.notInteger text).message) := by
  have line : Text.OneLine text := fun mem => h.no_blank inside '\n' mem (by decide)
  have whole : Text.OneLine ("error: " ++ (InputError.notInteger text).message) := by
    rw [InputError.message, Text.oneLine_append, Text.oneLine_append, Text.oneLine_append]
    exact ⟨by decide, ⟨by decide, line⟩, by decide⟩
  exact mt (Utf8.mem_encode_iff _).1 whole

theorem asInt_of_not_integer (none : integer? ink = none) :
    asInt (given Console.maxIntToken (some ink)) = .error (.notInteger (quoted ink)) := by
  rw [asInt_given, none]
  rfl

end Token

namespace Console

variable {σ : Type}

/-- A session that reads an integer where there is none gives an error that quotes the token as `Quotes` says. -/
theorem readInt_quotes (host : Host σ) (c : Console σ) :
    let events := Session.record (readInt host.recorded) c
    (∀ (input : σ → List UInt8) (P : σ → Prop), host.Delivers input P → c.Fed input P →
      ∀ ink later, Text.tokens (c.ahead input) = ink :: later → Token.integer? ink = none →
        ∃ text d, readInt host c = .ok (.error (.notInteger text)) d ∧ d.Fed input P ∧
          Text.tokens (d.ahead input) = later ∧ Token.Quotes ink text) ∧
    (∀ e d, readInt host c = .ok (.error e) d →
      ∃ used token final, c.pending ++ delivered events = used ++ d.pending ∧ Text.Taken used token final ∧
        (token = none ∧ e = .closed ∨ ∃ ink text, token = some ink ∧ Token.integer? ink = none ∧
          e = .notInteger text ∧ Token.Quotes ink text)) ∧
    (∀ ink text, (∀ b ∈ ink, Text.isInk b = true) → Token.Quotes ink text →
      (∀ c ∈ text.toList, c ∉ [' ', '\t', '\n', '\x0c', '\r']) ∧
        lineFeed ∉ Utf8.encode ("error: " ++ (InputError.notInteger text).message)) ∧
    ∀ ink ink' text text', Token.Quotes ink text → Token.Quotes ink' text' → ink.take 40 = ink'.take 40 →
      ∃ front, text = front ++ Token.dots ink ∧ text' = front ++ Token.dots ink' := by
  have record : Session.record (readInt host.recorded) c =
      Session.record (readToken host.recorded maxIntToken) c := by
    rw [readInt_eq, Session.record_bind_pure]
  dsimp only
  rw [record, readInt_eq]
  refine ⟨?_, ?_, ?_, fun _ _ _ _ quotes quotes' same => quotes.front_eq quotes' same⟩
  · intro input P delivers fed ink later next none
    obtain ⟨d, read, fed', rest, -⟩ := readToken_next delivers maxIntToken fed next
    refine ⟨Token.quoted ink, d, ?_, fed', rest, Token.quotes_quoted ink⟩
    rw [Session.bind_apply, read, ← Token.asInt_of_not_integer none]
    rfl
  · intro e d read
    obtain ⟨used, token, final, eq, taken, -, result⟩ := readToken_taken read
    refine ⟨used, token, final, eq, taken, ?_⟩
    cases token with
    | none =>
      cases result
      exact .inl ⟨rfl, rfl⟩
    | some ink =>
      cases integer : Token.integer? ink with
      | none =>
        rw [Token.asInt_of_not_integer integer] at result
        cases result
        exact .inr ⟨ink, _, rfl, integer, rfl, Token.quotes_quoted ink⟩
      | some n =>
        rw [Token.asInt_given, integer] at result
        cases result
  · intro ink text inside quotes
    exact ⟨quotes.no_blank inside, quotes.one_line inside⟩

/-- A letter with an accent, behind 39 letters without one. -/
theorem accent_cut :
    let ink : List UInt8 := List.replicate 39 97 ++ [0xc3, 0xa9]
    let c : Console Machine := { machine := { reads := [.bytes (ink ++ [10])] } }
    ∃ d, readInt Machine.direct c =
      .ok (.error (.notInteger (String.ofList (List.replicate 39 'a') ++ "\uFFFD" ++ "..."))) d := by
  intro ink c
  have feeding : Delivery.Feeding c.machine.reads := by simp [Delivery.Feeding, c, ink]
  have fed : c.Fed (fun m => Delivery.input m.reads) _ := Machine.fed_of_feeding feeding
  have next : Text.tokens (c.ahead fun m => Delivery.input m.reads) = [ink] := by cbv
  obtain ⟨text, d, read, -, -, quotes⟩ :=
    (readInt_quotes Machine.direct c).1 _ _ (Machine.direct_delivers _) fed _ _ next (by decide +kernel)
  have quoted : Token.quoted ink = String.ofList (List.replicate 39 'a') ++ "\uFFFD" ++ "..." := by cbv
  rw [Token.quotes_iff.1 quotes, quoted] at read
  exact ⟨d, read⟩

end Console

end ProcessDrill
