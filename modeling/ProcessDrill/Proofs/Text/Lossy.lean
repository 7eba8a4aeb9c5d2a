import ProcessDrill.Proofs.Text.Leads
/-!
# Broken text

What bytes are shown as, said without a reader.

* `Broken part rest`: no character stands at the front of `part ++ rest`, and `part` is the longest beginning of a
  character there, or a single byte if not even that begins one.
* `Shows bytes text`: the bytes fall into the characters of the text and broken parts, with U+FFFD for each part.
* `Fits n text front`: `front` are the characters at the front of the text that `n` bytes hold as a whole.

Main statements: `shows_iff`, the lossy reader shows bytes as `Shows` says; `Fits.shows_take`, what is shown of a text
that is cut off.
-/

namespace ProcessDrill.Utf8

set_option autoImplicit false

/-! ## Broken parts -/

structure Broken (part rest : List UInt8) : Prop where
  nonempty : part ≠ []
  foreign : ∀ c, ¬ String.utf8EncodeChar c <+: part ++ rest
  begins : part.length = 1 ∨ ∃ c, part <+: String.utf8EncodeChar c
  longest : ∀ longer c, longer <+: part ++ rest → longer <+: String.utf8EncodeChar c → longer.length ≤ part.length

theorem Broken.unique {part part' rest rest' : List UInt8} (h : Broken part rest) (h' : Broken part' rest')
    (same : part ++ rest = part' ++ rest') : part = part' ∧ rest = rest' := by
  have le {part part' rest rest' : List UInt8} (h : Broken part rest) (h' : Broken part' rest')
      (same : part ++ rest = part' ++ rest') : part'.length ≤ part.length := by
    rcases h'.begins with one | ⟨c, begins⟩
    · rw [one]
      exact List.length_pos_iff.2 h.nonempty
    · exact h.longest part' c (same ▸ List.prefix_append _ _) begins
  exact List.append_inj same (le_antisymm (le h' h same.symm) (le h h' same))

/-- A byte that no character begins with. -/
theorem broken_of_none {a : UInt8} (high : ¬ a < 0x80) (none : Lead.of? a = none) (rest : List UInt8) :
    Broken [a] rest := by
  have foreign (c : Char) (tail : List UInt8) : ¬ a :: tail <+: String.utf8EncodeChar c := by
    rintro ⟨more, bytes⟩
    obtain ⟨l, spells⟩ := spells_of_head high bytes.symm
    rw [spells.lead] at none
    cases none
  refine ⟨List.cons_ne_nil _ _, fun c whole => ?_, .inl rfl, fun longer c within begins => ?_⟩
  · obtain ⟨b, tail, bytes⟩ := utf8EncodeChar_eq_cons c
    rw [bytes] at whole
    obtain ⟨rfl, -⟩ := List.cons_prefix_cons.1 whole
    exact foreign c tail (bytes ▸ List.prefix_rfl)
  · rcases longer with _ | ⟨b, longer⟩
    · exact Nat.zero_le _
    · obtain ⟨rfl, -⟩ := List.cons_prefix_cons.1 within
      exact absurd begins (foreign c longer)

/-- A character that was begun, up to a byte that it cannot go on with. -/
theorem broken_of_lead {a : UInt8} {l : Lead} (lead : Lead.of? a = some l) {tail rest : List UInt8}
    (admits : l.Admits tail) (short : tail.length < l.following)
    (ends : ∀ b, rest.head? = some b → ¬ l.Admits (tail ++ [b])) : Broken (a :: tail) rest := by
  have spells_of_eq {c : Char} {more : List UInt8} (bytes : String.utf8EncodeChar c = a :: more) :
      Lead.Spells c a l more := by
    obtain ⟨l', spells⟩ := spells_of_head (Lead.not_ascii lead) bytes
    obtain rfl := Option.some_inj.1 (lead.symm.trans spells.lead)
    exact spells
  -- what a character begins with is admitted, and the byte behind the part is not
  have longest (longer : List UInt8) (c : Char) (within : longer <+: a :: tail ++ rest)
      (begins : longer <+: String.utf8EncodeChar c) : longer.length ≤ (a :: tail).length := by
    by_contra long
    obtain ⟨behind, rfl⟩ := List.prefix_of_prefix_length_le (List.prefix_append _ _) within (by omega)
    obtain ⟨more, bytes⟩ := begins
    rcases behind with _ | ⟨b, behind⟩
    · rw [List.append_nil] at long
      exact long le_rfl
    · obtain ⟨later, rfl⟩ := (List.prefix_append_right_inj _).1 within
      refine ends b rfl ((spells_of_eq bytes.symm).admits.of_prefix ⟨behind ++ more, ?_⟩)
      simp
  refine ⟨List.cons_ne_nil _ _, fun c whole => ?_, .inr ?_, longest⟩
  · have within := longest _ c whole List.prefix_rfl
    obtain ⟨b, more, bytes⟩ := utf8EncodeChar_eq_cons c
    rw [bytes] at whole within
    obtain ⟨rfl, -⟩ := List.cons_prefix_cons.1 whole
    have complete := (spells_of_eq bytes).whole
    rw [List.length_cons, List.length_cons] at within
    omega
  · obtain ⟨more, complete, whole⟩ := admits.exists_append lead
    exact ⟨_, more, (complete.spells lead whole).bytes.symm⟩

/-- A beginning of a character that is not all of it. -/
theorem broken_take {c : Char} {n : Nat} (some : 0 < n) (short : n < (String.utf8EncodeChar c).length) :
    Broken ((String.utf8EncodeChar c).take n) [] := by
  have length : ((String.utf8EncodeChar c).take n).length = n := List.length_take_of_le short.le
  refine ⟨List.length_pos_iff.1 (by rwa [length]), fun d whole => ?_, .inr ⟨c, List.take_prefix n _⟩, ?_⟩
  · rw [List.append_nil] at whole
    obtain ⟨rest, same⟩ := whole.trans (List.take_prefix n _)
    obtain ⟨rfl, -⟩ := utf8EncodeChar_append_inj (same.trans (List.append_nil _).symm)
    have := whole.length_le
    omega
  · intro longer d within _
    rw [List.append_nil] at within
    exact within.length_le

/-! ## The reader -/

/-- The first piece of any bytes. -/
theorem pieces_front (bytes : List UInt8) (nonempty : bytes ≠ []) :
    (∃ c rest, bytes = String.utf8EncodeChar c ++ rest ∧ pieces bytes = .scalar c :: pieces rest) ∨
      ∃ part rest, bytes = part ++ rest ∧ Broken part rest ∧ pieces bytes = .broken :: pieces rest := by
  have spelled {a : UInt8} {l : Lead} (lead : Lead.of? a = some l) {tail : List UInt8} (admits : l.Admits tail)
      (whole : tail.length = l.following) (rest : List UInt8) :
      a :: (tail ++ rest) = String.utf8EncodeChar (Char.ofNat (l.value tail)) ++ rest := by
    rw [(admits.spells lead whole).bytes]
    rfl
  fun_cases pieces bytes with
  | case1 => exact absurd rfl nonempty
  | case2 a rest ascii =>
    have small : a.toNat < 0x80 := ascii
    have number : (Char.ofNat a.toNat).toNat = a.toNat := by
      rw [Char.toNat_ofNat, if_pos (.inl (by omega))]
    refine .inl ⟨Char.ofNat a.toNat, rest, ?_, rfl⟩
    rw [utf8EncodeChar_of_ascii (by rwa [number]), number, UInt8.ofNat_toNat]
    rfl
  | case3 a rest high none => exact .inr ⟨[a], rest, rfl, broken_of_none high none rest, rfl⟩
  | case4 a high l lead =>
    have following := Lead.following_range lead
    exact .inr ⟨[a], [], rfl, broken_of_lead lead trivial (by show 0 < _; omega) nofun, rfl⟩
  | case5 a high l lead b rest range one =>
    exact .inl ⟨_, rest, spelled lead (.singleton lead range) one.symm rest, rfl⟩
  | case6 a high l lead b range one =>
    have following := Lead.following_range lead
    have admits := Lead.Admits.singleton lead range
    exact .inr ⟨[a, b], [], rfl, broken_of_lead lead admits (by show 1 < _; omega) nofun, rfl⟩
  | case7 a high l lead b range one c rest continued two =>
    have admits := (Lead.Admits.singleton lead range).concat continued (by show 1 < _; omega)
    exact .inl ⟨_, rest, spelled lead admits two.symm rest, rfl⟩
  | case8 a high l lead b range one c continued two =>
    have following := Lead.following_range lead
    have admits := (Lead.Admits.singleton lead range).concat continued (by show 1 < _; omega)
    exact .inr ⟨[a, b, c], [], rfl, broken_of_lead lead admits (by show 2 < _; omega) nofun, rfl⟩
  | case9 a high l lead b range one c continued two d rest continued' =>
    have following := Lead.following_range lead
    have admits := (Lead.Admits.singleton lead range).concat continued (by show 1 < _; omega)
    have complete := admits.concat continued' (by show 2 < _; omega)
    exact .inl ⟨_, rest, spelled lead complete (by show 3 = _; omega) rest, rfl⟩
  | case10 a high l lead b range one c continued two d rest ends =>
    have following := Lead.following_range lead
    have admits := (Lead.Admits.singleton lead range).concat continued (by show 1 < _; omega)
    refine .inr ⟨[a, b, c], d :: rest, rfl, broken_of_lead lead admits (by show 2 < _; omega) ?_, rfl⟩
    rintro _ ⟨⟩ further
    exact ends (further.isContinuation [c])
  | case11 a high l lead b range one c rest ends =>
    have following := Lead.following_range lead
    have admits := Lead.Admits.singleton lead range
    refine .inr ⟨[a, b], c :: rest, rfl, broken_of_lead lead admits (by show 1 < _; omega) ?_, rfl⟩
    rintro _ ⟨⟩ further
    exact ends (further.isContinuation [])
  | case12 a high l lead b rest ends =>
    have following := Lead.following_range lead
    refine .inr ⟨[a], b :: rest, rfl, broken_of_lead lead trivial (by show 0 < _; omega) ?_, rfl⟩
    rintro _ ⟨⟩ further
    exact ends further.1

theorem pieces_char (c : Char) (rest : List UInt8) :
    pieces (String.utf8EncodeChar c ++ rest) = .scalar c :: pieces rest := by
  obtain ⟨a, tail, bytes⟩ := utf8EncodeChar_eq_cons c
  have nonempty : String.utf8EncodeChar c ++ rest ≠ [] := by simp [bytes]
  rcases pieces_front _ nonempty with ⟨c', rest', same, read⟩ | ⟨part, rest', same, broken, -⟩
  · obtain ⟨rfl, rfl⟩ := utf8EncodeChar_append_inj same
    exact read
  · exact absurd ⟨rest, same⟩ (broken.foreign c)

theorem pieces_broken {part rest : List UInt8} (h : Broken part rest) :
    pieces (part ++ rest) = .broken :: pieces rest := by
  have nonempty : part ++ rest ≠ [] := by simp [h.nonempty]
  rcases pieces_front _ nonempty with ⟨c, rest', same, -⟩ | ⟨part', rest', same, broken, read⟩
  · exact absurd ⟨rest', same.symm⟩ (h.foreign c)
  · obtain ⟨rfl, rfl⟩ := h.unique broken same
    exact read

/-! ## Shown bytes -/

inductive Shows : List UInt8 → List Char → Prop
  | nil : Shows [] []
  | char (c : Char) {rest : List UInt8} {text : List Char} (h : Shows rest text) :
      Shows (String.utf8EncodeChar c ++ rest) (c :: text)
  | broken {part rest : List UInt8} {text : List Char} (here : Broken part rest) (h : Shows rest text) :
      Shows (part ++ rest) ('\uFFFD' :: text)

theorem shows_decodeLossy (bytes : List UInt8) : Shows bytes (decodeLossy bytes) := by
  induction h : bytes.length using Nat.strongRecOn generalizing bytes with
  | _ length ih =>
    by_cases nonempty : bytes = []
    · subst nonempty
      exact .nil
    rcases pieces_front bytes nonempty with ⟨c, rest, rfl, read⟩ | ⟨part, rest, rfl, broken, read⟩
    · have positive := c.utf8Size_pos
      rw [List.length_append, String.length_utf8EncodeChar] at h
      rw [decodeLossy, read]
      exact .char c (ih _ (by omega) rest rfl)
    · have positive := List.length_pos_iff.2 broken.nonempty
      rw [List.length_append] at h
      rw [decodeLossy, read]
      exact .broken broken (ih _ (by omega) rest rfl)

theorem shows_iff {bytes : List UInt8} {text : List Char} : Shows bytes text ↔ text = decodeLossy bytes := by
  refine ⟨fun shows => ?_, fun read => read ▸ shows_decodeLossy bytes⟩
  induction shows with
  | nil => rfl
  | char c _ ih =>
    rw [decodeLossy, pieces_char, ih]
    rfl
  | broken here _ ih =>
    rw [decodeLossy, pieces_broken here, ih]
    rfl

namespace Shows

theorem append_chars {bytes : List UInt8} {text : List Char} (h : Shows bytes text) (front : List Char) :
    Shows (front.flatMap String.utf8EncodeChar ++ bytes) (front ++ text) := by
  induction front with
  | nil => exact h
  | cons c front ih =>
    rw [List.flatMap_cons, List.append_assoc]
    exact .char c ih

/-- ASCII that is shown was there. -/
theorem mem_of_ascii {bytes : List UInt8} {text : List Char} (h : Shows bytes text) {b : UInt8}
    (ascii : b.toNat < 0x80) {c : Char} (number : c.toNat = b.toNat) (mem : c ∈ text) : b ∈ bytes := by
  induction h with
  | nil => cases mem
  | char _ _ ih =>
    rcases List.mem_cons.1 mem with rfl | later
    · exact List.mem_append_left _ ((mem_utf8EncodeChar_iff ascii _).2 number)
    · exact List.mem_append_right _ (ih later)
  | broken _ _ ih =>
    rcases List.mem_cons.1 mem with rfl | later
    · have high : 0xfffd = b.toNat := number
      omega
    · exact List.mem_append_right _ (ih later)

end Shows

theorem shows_encode (s : String) : Shows (encode s) s.toList := by
  have all := Shows.nil.append_chars s.toList
  rwa [List.append_nil, List.append_nil] at all

theorem encode_injective : Function.Injective encode := by
  intro s t same
  have shown := shows_iff.1 (shows_encode s)
  rw [same, ← shows_iff.1 (shows_encode t)] at shown
  exact String.toList_inj.1 shown

/-! ## Texts that are cut off -/

/-- How many bytes a text takes. -/
def size (text : List Char) : Nat :=
  (text.flatMap String.utf8EncodeChar).length

@[simp]
theorem size_append (before after : List Char) : size (before ++ after) = size before + size after := by
  rw [size, List.flatMap_append, List.length_append, size, size]

theorem size_cons (c : Char) (text : List Char) : size (c :: text) = (String.utf8EncodeChar c).length + size text := by
  rw [size, List.flatMap_cons, List.length_append, size]

theorem size_singleton (c : Char) : size [c] = (String.utf8EncodeChar c).length := by
  rw [size, List.flatMap_singleton]

structure Fits (n : Nat) (text front : List Char) : Prop where
  begins : front <+: text
  room : size front ≤ n
  longest : ∀ longer, longer <+: text → size longer ≤ n → longer <+: front

/-- Behind `n` bytes of a text there is no character that is cut in two. -/
def Boundary (text : List Char) (n : Nat) : Prop :=
  ∃ front, front <+: text ∧ size front = n

theorem exists_fits (n : Nat) (text : List Char) : ∃ front, Fits n text front := by
  induction text generalizing n with
  | nil => exact ⟨[], List.prefix_rfl, Nat.zero_le n, fun longer within _ => within⟩
  | cons c text ih =>
    by_cases fits : (String.utf8EncodeChar c).length ≤ n
    · obtain ⟨front, begins, room, longest⟩ := ih (n - (String.utf8EncodeChar c).length)
      refine ⟨c :: front, List.cons_prefix_cons.2 ⟨rfl, begins⟩, ?_, ?_⟩
      · rw [size_cons]
        omega
      · rintro (_ | ⟨d, longer⟩) within small
        · exact List.nil_prefix
        · obtain ⟨rfl, behind⟩ := List.cons_prefix_cons.1 within
          rw [size_cons] at small
          exact List.cons_prefix_cons.2 ⟨rfl, longest longer behind (by omega)⟩
    · refine ⟨[], List.nil_prefix, Nat.zero_le n, ?_⟩
      rintro (_ | ⟨d, longer⟩) within small
      · exact List.prefix_rfl
      · obtain ⟨rfl, -⟩ := List.cons_prefix_cons.1 within
        rw [size_cons] at small
        omega

namespace Fits

variable {n : Nat} {text front : List Char}

theorem boundary_iff (h : Fits n text front) : Boundary text n ↔ size front = n := by
  refine ⟨?_, fun same => ⟨front, h.begins, same⟩⟩
  rintro ⟨front', begins', rfl⟩
  obtain ⟨rest, rfl⟩ := h.longest front' begins' le_rfl
  have room := h.room
  rw [size_append] at room ⊢
  omega

/-- The character behind those that fit does not. -/
theorem next_too_long {c : Char} {rest : List Char} (h : Fits n (front ++ c :: rest) front) :
    n < size front + (String.utf8EncodeChar c).length := by
  by_contra fits
  have room : size (front ++ [c]) ≤ n := by
    rw [size_append, size_singleton]
    omega
  have within := (h.longest (front ++ [c]) ⟨rest, by simp⟩ room).length_le
  rw [List.length_append, List.length_singleton] at within
  omega

/-- The characters that fit, and one U+FFFD if there is a cut through the next one. -/
theorem shows_take (h : Fits n text front) (long : n ≤ size text) :
    Shows ((text.flatMap String.utf8EncodeChar).take n) (front ++ if size front = n then [] else ['\uFFFD']) := by
  obtain ⟨rest, rfl⟩ := h.begins
  rw [List.flatMap_append]
  split
  · next whole =>
    have shown := Shows.nil.append_chars front
    rwa [List.append_nil, ← List.take_left' whole] at shown
  · next inside =>
    have room := h.room
    rcases rest with _ | ⟨c, rest⟩
    · rw [List.append_nil] at long
      omega
    have next := h.next_too_long
    have cut : ((front.flatMap String.utf8EncodeChar) ++ (c :: rest).flatMap String.utf8EncodeChar).take n =
        front.flatMap String.utf8EncodeChar ++ (String.utf8EncodeChar c).take (n - size front) := by
      have within : n - size front ≤ (String.utf8EncodeChar c).length := by omega
      rw [List.take_append, List.take_of_length_le room, List.flatMap_cons, ← size,
        List.take_append_of_le_length within]
    have broken := broken_take (c := c) (n := n - size front) (by omega) (by omega)
    have shown := (Shows.broken broken .nil).append_chars front
    rwa [List.append_nil, ← cut] at shown

end Fits

end ProcessDrill.Utf8
