import Mathlib
import ProcessDrill.Proofs.Text.Numbers
import ProcessDrill.Text.Plain
/-!
# Printable texts

`Text.Printable s`: the text has ASCII characters only that can be seen, and spaces. Numbers and escaped bytes are such
texts. Main statements: `Printable.encode` and `Printable.map_encode`, each of their characters is one byte.
-/

namespace ProcessDrill

set_option autoImplicit false

namespace Text

def isPrintable (c : Char) : Bool :=
  isGraphicCode c.toNat

theorem isPrintable_iff {c : Char} : isPrintable c = true ↔ 0x20 ≤ c.toNat ∧ c.toNat < 0x7f := by
  rw [isPrintable, isGraphicCode, Bool.and_eq_true, decide_eq_true_eq, decide_eq_true_eq]

def Printable (s : String) : Prop :=
  s.toList.all isPrintable = true

instance (s : String) : Decidable (Printable s) :=
  inferInstanceAs (Decidable (_ = true))

variable {s t : String}

@[simp]
theorem printable_append : Printable (s ++ t) ↔ Printable s ∧ Printable t := by
  rw [Printable, String.toList_append, List.all_append, Bool.and_eq_true]
  rfl

theorem Printable.range (h : Printable s) : ∀ c ∈ s.toList, 0x20 ≤ c.toNat ∧ c.toNat < 0x7f := by
  intro c mem
  exact isPrintable_iff.1 (List.all_eq_true.1 h c mem)

theorem Printable.ascii (h : Printable s) : ∀ c ∈ s.toList, c.toNat < 0x80 := by
  intro c mem
  have := h.range c mem
  omega

theorem Printable.encode (h : Printable s) : ∀ b ∈ Utf8.encode s, 0x20 ≤ b ∧ b ≤ 0x7e := by
  rw [Utf8.encode, Utf8.flatMap_encode_of_ascii h.ascii]
  refine List.forall_mem_map.2 fun c mem => ?_
  obtain ⟨low, high⟩ := h.range c mem
  rw [UInt8.le_iff_toNat_le, UInt8.le_iff_toNat_le, Utf8.toNat_ofNat_of_ascii (h.ascii c mem)]
  exact ⟨low, Nat.le_of_lt_succ high⟩

/-- The characters of a printable text, read off its bytes. -/
theorem Printable.map_encode (h : Printable s) : (Utf8.encode s).map (fun b => Char.ofNat b.toNat) = s.toList := by
  rw [Utf8.encode, Utf8.flatMap_encode_of_ascii h.ascii, List.map_map]
  refine (List.map_congr_left fun c mem => ?_).trans (List.map_id _)
  show Char.ofNat (UInt8.ofNat c.toNat).toNat = c
  rw [Utf8.toNat_ofNat_of_ascii (h.ascii c mem), Char.ofNat_toNat]

theorem printable_signed (n : Int) : Printable (signed n) := by
  refine List.all_eq_true.2 fun c mem => isPrintable_iff.2 ?_
  rcases sign_or_digit n c mem with rfl | digit
  · decide
  · have := bounds_of_isDigit digit
    omega

theorem isPrintable_hexDigit (n : Nat) : isPrintable (hexDigit n) = true := by
  have all : ∀ d < 16, isPrintable (Nat.digitChar d) = true := by decide
  exact all _ (Nat.mod_lt n (by decide))

theorem all_isPrintable_escapeByte (b : UInt8) : (escapeByte b).all isPrintable = true := by
  unfold escapeByte
  split_ifs with tab feed carriage quote apostrophe backslash printable
  · rfl
  · rfl
  · rfl
  · rfl
  · rfl
  · rfl
  · have low : 0x20 ≤ b.toNat := printable.1
    have high : b.toNat ≤ 0x7e := printable.2
    rw [List.all_cons, List.all_nil, Bool.and_true, isPrintable_iff, Char.toNat_ofNat, if_pos (.inl (by omega))]
    omega
  · simp only [List.all_cons, isPrintable_hexDigit]
    rfl

theorem printable_escape (bytes : List UInt8) : Printable (escape bytes) := by
  rw [Printable, escape, String.toList_ofList, List.all_flatMap]
  exact List.all_eq_true.2 fun b _ => all_isPrintable_escapeByte b

end Text

end ProcessDrill
