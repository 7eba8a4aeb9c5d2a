import ProcessDrill.Proofs.Text.Tokens
import ProcessDrill.Text.Decimal
import ProcessDrill.Text.Escaped
import ProcessDrill.Text.Utf8
/-!
# Texts of one line

`Text.OneLine s`: there is no line feed in `s`. Numbers and escaped bytes are such texts, and so is whatever
bytes without a line feed are decoded to, well formed or not. Main statement: `Utf8.mem_encode_iff`, the bytes
of a text have a line feed exactly if the text has one.
-/

namespace ProcessDrill

set_option autoImplicit false

def lineFeed : UInt8 := 0x0a

/-! ## Encoding -/

namespace Utf8

theorem ne_ofNat_of_ascii {b : UInt8} (ascii : b.toNat < 0x80) {n : Nat} (high : 0x80 ≤ n) (small : n < 0x100) :
    b ≠ UInt8.ofNat n := by
  rintro rfl
  rw [UInt8.toNat_ofNat_of_lt' small] at ascii
  omega

/-- A byte below 80 is in the character that has its number, and in no other. -/
theorem mem_utf8EncodeChar_iff {b : UInt8} (ascii : b.toNat < 0x80) (c : Char) :
    b ∈ String.utf8EncodeChar c ↔ c.toNat = b.toNat := by
  have value : c.val.toNat = c.toNat := rfl
  have other {n : Nat} (high : 0x80 ≤ n) (small : n < 0x100) := ne_ofNat_of_ascii ascii high small
  simp only [String.utf8EncodeChar]
  split
  · have small : c.val.toNat < 0x100 := by omega
    rw [List.mem_singleton, ← UInt8.toNat_inj, UInt8.toNat_ofNat_of_lt' small]
    exact eq_comm
  · -- all bytes of a longer character have their first bit set
    refine iff_of_false ?_ (by omega)
    split
    · simp (disch := omega) only [List.mem_cons, other, List.not_mem_nil, or_self, not_false_eq_true]
    · split <;>
        simp (disch := omega) only [List.mem_cons, other, List.not_mem_nil, or_self, not_false_eq_true]

theorem mem_encode_iff (s : String) : lineFeed ∈ encode s ↔ '\n' ∈ s.toList := by
  have one (c : Char) : lineFeed ∈ String.utf8EncodeChar c ↔ c = '\n' :=
    (mem_utf8EncodeChar_iff (by decide) c).trans (Char.toNat_inj (d := '\n'))
  simp only [encode, List.mem_flatMap, one, exists_eq_right]

end Utf8

/-! ## Decoding -/

namespace Utf8

theorem eq_of_ofNat_eq_lineFeed {n : Nat} (h : Char.ofNat n = '\n') : n = 10 := by
  by_cases valid : n.isValidChar
  · rw [Char.ofNat, dif_pos valid] at h
    exact congrArg Char.toNat h
  · rw [Char.ofNat, dif_neg valid] at h
    cases h

theorem le_extend {value : Nat} (h : 0x10 ≤ value) (b : UInt8) : 0x80 ≤ extend value b := by
  unfold extend
  omega

theorem extend_mono (value : Nat) {b c : UInt8} (h : b ≤ c) : extend value b ≤ extend value c :=
  Nat.add_le_add_left (Nat.sub_le_sub_right (UInt8.le_iff_toNat_le.1 h) _) _

/-- The first two bytes of a character make this much at least, and more than one byte could if there is no third. -/
theorem Lead.le_extend_lowest {a : UInt8} {l : Lead} (h : Lead.of? a = some l) :
    0x10 ≤ extend l.bits l.lowest ∧ (l.following = 1 → 0x80 ≤ extend l.bits l.lowest) := by
  have table : ∀ n < 256, ∀ l ∈ Lead.of? (UInt8.ofNat n),
      0x10 ≤ extend l.bits l.lowest ∧ (l.following = 1 → 0x80 ≤ extend l.bits l.lowest) := by
    decide +kernel
  rw [← UInt8.ofNat_toNat (x := a)] at h
  exact table a.toNat a.toNat_lt l h

/-- The first two bytes already make more than a line feed, so no character of several bytes is one. -/
theorem Lead.le_extend {a : UInt8} {l : Lead} (h : Lead.of? a = some l) {b : UInt8} (low : l.lowest ≤ b) :
    0x10 ≤ extend l.bits b :=
  (Lead.le_extend_lowest h).1.trans (extend_mono _ low)

theorem mem_of_mem_pieces {bytes : List UInt8} : .scalar '\n' ∈ pieces bytes → lineFeed ∈ bytes := by
  fun_induction pieces bytes with
  | case1 => simp
  | case2 a s ascii ih =>
    rw [List.mem_cons]
    rintro (same | later)
    · have value := eq_of_ofNat_eq_lineFeed (Piece.scalar.inj same).symm
      have : a = lineFeed := UInt8.toNat_inj.1 value
      exact this ▸ List.mem_cons_self
    · exact List.mem_cons_of_mem a (ih later)
  | _ => grind [eq_of_ofNat_eq_lineFeed, Lead.le_extend, le_extend]

theorem mem_of_mem_decodeLossy {bytes : List UInt8} (h : '\n' ∈ decodeLossy bytes) : lineFeed ∈ bytes := by
  obtain ⟨piece, mem, shown⟩ := List.mem_map.1 h
  cases piece with
  | scalar c =>
    obtain rfl : c = '\n' := shown
    exact mem_of_mem_pieces mem
  | broken => exact absurd shown (by decide)

end Utf8

/-! ## Texts without a line feed -/

namespace Text

def OneLine (s : String) : Prop :=
  '\n' ∉ s.toList

instance (s : String) : Decidable (OneLine s) :=
  inferInstanceAs (Decidable ('\n' ∉ s.toList))

@[simp]
theorem oneLine_append (s t : String) : OneLine (s ++ t) ↔ OneLine s ∧ OneLine t := by
  simp [OneLine, not_or]

theorem oneLine_decimal (n : Nat) : OneLine (decimal n) := by
  intro mem
  rw [toList_decimal] at mem
  have := Nat.isDigit_of_mem_toDigits (by decide) (by decide) mem
  exact absurd this (by decide)

theorem oneLine_signed (n : Int) : OneLine (signed n) := by
  cases n with
  | ofNat n => exact oneLine_decimal n
  | negSucc n => exact (oneLine_append _ _).2 ⟨by decide, oneLine_decimal (n + 1)⟩

theorem not_mem_escapeByte (b : UInt8) : '\n' ∉ escapeByte b := by
  have digit (n : Nat) : '\n' ≠ hexDigit n := by
    have all : ∀ d < 16, '\n' ≠ Nat.digitChar d := by decide
    exact all _ (Nat.mod_lt n (by decide))
  unfold escapeByte
  split_ifs with tab feed carriage quote apostrophe backslash printable
  · decide
  · decide
  · decide
  · decide
  · decide
  · decide
  · rw [List.mem_singleton]
    intro same
    have value := Utf8.eq_of_ofNat_eq_lineFeed same.symm
    exact feed (UInt8.toNat_inj.1 value)
  · simp [digit]

theorem oneLine_escape (bytes : List UInt8) : OneLine (escape bytes) := by
  intro mem
  rw [escape, String.toList_ofList] at mem
  obtain ⟨b, -, mem⟩ := List.mem_flatMap.1 mem
  exact not_mem_escapeByte b mem

theorem oneLine_ofList_decodeLossy {bytes : List UInt8} (h : lineFeed ∉ bytes) :
    OneLine (String.ofList (Utf8.decodeLossy bytes)) := by
  rw [OneLine, String.toList_ofList]
  exact mt Utf8.mem_of_mem_decodeLossy h

theorem lineFeed_not_mem_of_ink {ink : List UInt8} (h : ∀ b ∈ ink, isInk b = true) : lineFeed ∉ ink := by
  intro mem
  exact absurd (h _ mem) (by decide)

end Text

end ProcessDrill
