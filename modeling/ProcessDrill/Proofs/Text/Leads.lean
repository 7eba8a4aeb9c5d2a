import Mathlib
import ProcessDrill.Proofs.Text.Lines
import ProcessDrill.Proofs.Text.Numbers
/-!
# Characters of several bytes

* `Lead.Admits l tail`: the bytes may stand behind a first byte that promises `l`, as far as they go.
* `Lead.Spells c a l tail`: the character `c` is written as the byte `a`, which promises `l`, and all of `tail`.

Main statements: `Lead.exists_spells`, every character beyond ASCII is written so; `Lead.Admits.spells`, whatever is
admitted and complete is a character; `utf8EncodeChar_append_inj`, it can be told where a character ends.
-/

namespace ProcessDrill.Utf8

set_option autoImplicit false

/-! ## Numbers of bytes -/

theorem utf8EncodeChar_eq (c : Char) : String.utf8EncodeChar c =
    if c.toNat ≤ 0x7f then [.ofNat c.toNat]
    else if c.toNat ≤ 0x7ff then [.ofNat (c.toNat / 64 % 32 + 0xc0), .ofNat (c.toNat % 64 + 0x80)]
    else if c.toNat ≤ 0xffff then
      [.ofNat (c.toNat / 4096 % 16 + 0xe0), .ofNat (c.toNat / 64 % 64 + 0x80), .ofNat (c.toNat % 64 + 0x80)]
    else
      [.ofNat (c.toNat / 262144 % 8 + 0xf0), .ofNat (c.toNat / 4096 % 64 + 0x80), .ofNat (c.toNat / 64 % 64 + 0x80),
        .ofNat (c.toNat % 64 + 0x80)] :=
  rfl

theorem utf8EncodeChar_eq_cons (c : Char) : ∃ a tail, String.utf8EncodeChar c = a :: tail :=
  List.exists_cons_of_ne_nil (List.length_pos_iff.1 (String.length_utf8EncodeChar c ▸ c.utf8Size_pos))

theorem ofNat_eq {n : Nat} {b : UInt8} (h : n = b.toNat) : UInt8.ofNat n = b := by
  rw [h, UInt8.ofNat_toNat]

theorem isContinuation_iff {b : UInt8} : isContinuation b = true ↔ 0x80 ≤ b ∧ b ≤ 0xbf := by
  rw [isContinuation, Bool.and_eq_true, decide_eq_true_eq, decide_eq_true_eq]

theorem bounds_of_isContinuation {b : UInt8} (h : isContinuation b = true) : 0x80 ≤ b.toNat ∧ b.toNat ≤ 0xbf :=
  isContinuation_iff.1 h

/-- A range that depends on the first byte, as numbers. -/
theorem range_iff {p q : Prop} [Decidable p] [Decidable q] {low low' high high' b : UInt8} :
    ((if p then low else low') ≤ b ∧ b ≤ if q then high else high') ↔
      (p ∧ low.toNat ≤ b.toNat ∨ ¬ p ∧ low'.toNat ≤ b.toNat) ∧
        (q ∧ b.toNat ≤ high.toNat ∨ ¬ q ∧ b.toNat ≤ high'.toNat) := by
  by_cases first : p <;> by_cases last : q <;> simp [first, last, UInt8.le_iff_toNat_le]

section

variable {n : Nat} (small : n < 64)
include small

theorem toNat_continuation : (UInt8.ofNat (n + 0x80)).toNat = n + 0x80 :=
  UInt8.toNat_ofNat_of_lt' (Nat.lt_trans (Nat.add_lt_add_right small 0x80) (by decide))

theorem isContinuation_ofNat : isContinuation (UInt8.ofNat (n + 0x80)) = true := by
  rw [isContinuation_iff, UInt8.le_iff_toNat_le, UInt8.le_iff_toNat_le, toNat_continuation small]
  exact ⟨Nat.le_add_left 0x80 n, Nat.add_le_add_right (Nat.le_of_lt_succ small) 0x80⟩

theorem extend_ofNat (value : Nat) : extend value (UInt8.ofNat (n + 0x80)) = value * 64 + n := by
  have known := toNat_continuation small
  have eq : extend value (UInt8.ofNat (n + 0x80)) = value * 64 + ((UInt8.ofNat (n + 0x80)).toNat - 0x80) := rfl
  omega

end

namespace Lead

variable {a : UInt8} {l : Lead}

/-! ## First bytes -/

theorem of?_two {n : Nat} (low : 0xc2 ≤ n) (high : n < 0xe0) :
    of? (UInt8.ofNat n) = some ⟨1, 0x80, 0xbf, n - 0xc0⟩ := by
  have table : ∀ d < 0x20, 2 ≤ d → of? (UInt8.ofNat (d + 0xc0)) = some ⟨1, 0x80, 0xbf, d⟩ := by
    decide +kernel
  have row := table (n - 0xc0) (by omega) (by omega)
  rwa [Nat.sub_add_cancel (by omega)] at row

theorem of?_three {n : Nat} (low : 0xe0 ≤ n) (high : n < 0xf0) :
    of? (UInt8.ofNat n) = some ⟨2, if n = 0xe0 then 0xa0 else 0x80, if n = 0xed then 0x9f else 0xbf, n - 0xe0⟩ := by
  have table : ∀ d < 16, of? (UInt8.ofNat (d + 0xe0)) =
      some ⟨2, if d + 0xe0 = 0xe0 then 0xa0 else 0x80, if d + 0xe0 = 0xed then 0x9f else 0xbf, d⟩ := by
    decide +kernel
  have row := table (n - 0xe0) (by omega)
  rwa [Nat.sub_add_cancel low] at row

theorem of?_four {n : Nat} (low : 0xf0 ≤ n) (high : n ≤ 0xf4) :
    of? (UInt8.ofNat n) = some ⟨3, if n = 0xf0 then 0x90 else 0x80, if n = 0xf4 then 0x8f else 0xbf, n - 0xf0⟩ := by
  have table : ∀ d ≤ 4, of? (UInt8.ofNat (d + 0xf0)) =
      some ⟨3, if d + 0xf0 = 0xf0 then 0x90 else 0x80, if d + 0xf0 = 0xf4 then 0x8f else 0xbf, d⟩ := by
    decide +kernel
  have row := table (n - 0xf0) (by omega)
  rwa [Nat.sub_add_cancel low] at row

/-- There is one kind of first bytes for each number of bytes that may follow. -/
theorem of?_cases (h : of? a = some l) :
    (0xc2 ≤ a.toNat ∧ a.toNat < 0xe0 ∧ l = ⟨1, 0x80, 0xbf, a.toNat - 0xc0⟩) ∨
    (0xe0 ≤ a.toNat ∧ a.toNat < 0xf0 ∧
      l = ⟨2, if a.toNat = 0xe0 then 0xa0 else 0x80, if a.toNat = 0xed then 0x9f else 0xbf, a.toNat - 0xe0⟩) ∨
    (0xf0 ≤ a.toNat ∧ a.toNat ≤ 0xf4 ∧
      l = ⟨3, if a.toNat = 0xf0 then 0x90 else 0x80, if a.toNat = 0xf4 then 0x8f else 0xbf, a.toNat - 0xf0⟩) := by
  have outside : ∀ n < 256, n < 0xc2 ∨ 0xf4 < n → of? (UInt8.ofNat n) = none := by decide +kernel
  have self : of? (UInt8.ofNat a.toNat) = some l := by rwa [UInt8.ofNat_toNat]
  by_cases foreign : a.toNat < 0xc2 ∨ 0xf4 < a.toNat
  · rw [outside _ a.toNat_lt foreign] at self
    cases self
  by_cases two : a.toNat < 0xe0
  · rw [of?_two (by omega) two] at self
    exact .inl ⟨by omega, two, (Option.some_inj.1 self).symm⟩
  by_cases three : a.toNat < 0xf0
  · rw [of?_three (by omega) three] at self
    exact .inr (.inl ⟨by omega, three, (Option.some_inj.1 self).symm⟩)
  · rw [of?_four (by omega) (by omega)] at self
    exact .inr (.inr ⟨by omega, by omega, (Option.some_inj.1 self).symm⟩)

theorem following_range (h : of? a = some l) : l.following = 1 ∨ l.following = 2 ∨ l.following = 3 := by
  rcases of?_cases h with ⟨-, -, rfl⟩ | ⟨-, -, rfl⟩ | ⟨-, -, rfl⟩
  · exact .inl rfl
  · exact .inr (.inl rfl)
  · exact .inr (.inr rfl)

theorem lowest_le_highest (h : of? a = some l) : l.lowest ≤ l.highest := by
  have table : ∀ n < 256, ∀ l ∈ of? (UInt8.ofNat n), l.lowest ≤ l.highest := by decide +kernel
  rw [← UInt8.ofNat_toNat (x := a)] at h
  exact table a.toNat a.toNat_lt l h

theorem not_ascii (h : of? a = some l) : ¬ a < 0x80 := by
  have low : 0x80 ≤ a.toNat := by
    rcases of?_cases h with ⟨low, -⟩ | ⟨low, -⟩ | ⟨low, -⟩
    all_goals omega
  exact UInt8.not_lt.2 low

/-! ## Bytes behind the first one -/

def Admits (l : Lead) : List UInt8 → Prop
  | [] => True
  | b :: more => (l.lowest ≤ b ∧ b ≤ l.highest) ∧ (∀ c ∈ more, isContinuation c = true) ∧ more.length < l.following

/-- The number that the bytes make with the bits of the first one. -/
def value (l : Lead) (tail : List UInt8) : Nat :=
  tail.foldl extend l.bits

namespace Admits

theorem singleton {b : UInt8} (lead : of? a = some l) (range : l.lowest ≤ b ∧ b ≤ l.highest) : l.Admits [b] := by
  have following := following_range lead
  refine ⟨range, nofun, ?_⟩
  show 0 < l.following
  omega

theorem append {b : UInt8} {tail more : List UInt8} (h : l.Admits (b :: tail))
    (continued : ∀ c ∈ more, Utf8.isContinuation c = true) (short : tail.length + more.length < l.following) :
    l.Admits (b :: (tail ++ more)) :=
  ⟨h.1, List.forall_mem_append.2 ⟨h.2.1, continued⟩, by rwa [List.length_append]⟩

theorem concat {b c : UInt8} {tail : List UInt8} (h : l.Admits (b :: tail)) (continued : Utf8.isContinuation c = true)
    (short : tail.length + 1 < l.following) : l.Admits (b :: (tail ++ [c])) :=
  h.append (List.forall_mem_singleton.2 continued) short

theorem isContinuation {b c : UInt8} (tail : List UInt8) (h : l.Admits (b :: (tail ++ [c]))) :
    Utf8.isContinuation c = true :=
  h.2.1 c (List.mem_append_right _ (List.mem_singleton_self c))

theorem of_prefix {tail more : List UInt8} (h : l.Admits more) (front : tail <+: more) : l.Admits tail := by
  obtain ⟨rest, rfl⟩ := front
  cases tail with
  | nil => trivial
  | cons b tail =>
    obtain ⟨range, continued, short⟩ := h
    refine ⟨range, fun c mem => continued c (List.mem_append_left _ mem), ?_⟩
    rw [List.append_eq, List.length_append] at short
    omega

/-- Bytes that are admitted can be completed. -/
theorem exists_append {tail : List UInt8} (lead : of? a = some l) (h : l.Admits tail) :
    ∃ more, l.Admits (tail ++ more) ∧ (tail ++ more).length = l.following := by
  have following := following_range lead
  have continued (n : Nat) : ∀ c ∈ List.replicate n (0x80 : UInt8), Utf8.isContinuation c = true := by
    intro c mem
    rw [List.eq_of_mem_replicate mem]
    rfl
  have behind {b : UInt8} {tail : List UInt8} (h : l.Admits (b :: tail)) :
      ∃ more, l.Admits (b :: tail ++ more) ∧ (b :: tail ++ more).length = l.following := by
    have short := h.2.2
    refine ⟨List.replicate (l.following - 1 - tail.length) 0x80, h.append (continued _) ?_, ?_⟩
    · rw [List.length_replicate]
      omega
    · rw [List.length_append, List.length_cons, List.length_replicate]
      omega
  cases tail with
  | nil =>
    obtain ⟨more, complete⟩ := behind (singleton lead ⟨UInt8.le_refl _, lowest_le_highest lead⟩)
    exact ⟨l.lowest :: more, complete⟩
  | cons b tail => exact behind h

end Admits

/-! ## Characters -/

structure Spells (c : Char) (a : UInt8) (l : Lead) (tail : List UInt8) : Prop where
  lead : of? a = some l
  admits : l.Admits tail
  whole : tail.length = l.following
  value : l.value tail = c.toNat
  bytes : String.utf8EncodeChar c = a :: tail

theorem Spells.of_bytes {c : Char} {b : UInt8} {more : List UInt8} (lead : of? a = some l)
    (bytes : String.utf8EncodeChar c = a :: b :: more) (range : l.lowest ≤ b ∧ b ≤ l.highest)
    (continued : ∀ d ∈ more, isContinuation d = true) (whole : more.length + 1 = l.following)
    (value : l.value (b :: more) = c.toNat) : Spells c a l (b :: more) :=
  ⟨lead, ⟨range, continued, Nat.lt_of_succ_le whole.le⟩, whole, value, bytes⟩

theorem exists_spells {c : Char} (high : 0x80 ≤ c.toNat) : ∃ a l tail, Spells c a l tail := by
  have valid : c.toNat < 0xd800 ∨ 0xdfff < c.toNat ∧ c.toNat < 0x110000 := c.valid
  have bytes := utf8EncodeChar_eq c
  obtain ⟨v, number⟩ : ∃ v, c.toNat = v := ⟨_, rfl⟩
  rw [number] at high valid bytes
  rw [if_neg (by omega)] at bytes
  have small (k : Nat) : k % 64 < 64 := Nat.mod_lt k (by decide)
  have continued (k : Nat) : isContinuation (.ofNat (k % 64 + 0x80)) = true := isContinuation_ofNat (small k)
  by_cases two : v ≤ 0x7ff
  · rw [if_pos two] at bytes
    refine ⟨_, _, _, .of_bytes (of?_two (by omega) (by omega)) bytes (isContinuation_iff.1 (continued v)) nofun rfl ?_⟩
    rw [number, Lead.value, List.foldl_cons, List.foldl_nil, extend_ofNat (small _)]
    dsimp only
    omega
  rw [if_neg two] at bytes
  by_cases three : v ≤ 0xffff
  · rw [if_pos three] at bytes
    have range : (v / 4096 % 16 + 0xe0 = 0xe0 ∧ 0xa0 ≤ v / 64 % 64 + 0x80 ∨
          ¬ v / 4096 % 16 + 0xe0 = 0xe0 ∧ 0x80 ≤ v / 64 % 64 + 0x80) ∧
        (v / 4096 % 16 + 0xe0 = 0xed ∧ v / 64 % 64 + 0x80 ≤ 0x9f ∨
          ¬ v / 4096 % 16 + 0xe0 = 0xed ∧ v / 64 % 64 + 0x80 ≤ 0xbf) := by omega
    rw [← toNat_continuation (small (v / 64))] at range
    refine ⟨_, _, _, .of_bytes (of?_three (by omega) (by omega)) bytes (range_iff.2 range) ?_ rfl ?_⟩
    · exact List.forall_mem_singleton.2 (continued v)
    · rw [number, Lead.value, List.foldl_cons, List.foldl_cons, List.foldl_nil, extend_ofNat (small _),
        extend_ofNat (small _)]
      dsimp only
      omega
  · rw [if_neg three] at bytes
    have range : (v / 262144 % 8 + 0xf0 = 0xf0 ∧ 0x90 ≤ v / 4096 % 64 + 0x80 ∨
          ¬ v / 262144 % 8 + 0xf0 = 0xf0 ∧ 0x80 ≤ v / 4096 % 64 + 0x80) ∧
        (v / 262144 % 8 + 0xf0 = 0xf4 ∧ v / 4096 % 64 + 0x80 ≤ 0x8f ∨
          ¬ v / 262144 % 8 + 0xf0 = 0xf4 ∧ v / 4096 % 64 + 0x80 ≤ 0xbf) := by omega
    rw [← toNat_continuation (small (v / 4096))] at range
    refine ⟨_, _, _, .of_bytes (of?_four (by omega) (by omega)) bytes (range_iff.2 range) ?_ rfl ?_⟩
    · exact List.forall_mem_cons.2 ⟨continued _, List.forall_mem_singleton.2 (continued v)⟩
    · rw [number, Lead.value, List.foldl_cons, List.foldl_cons, List.foldl_cons, List.foldl_nil, extend_ofNat (small _),
        extend_ofNat (small _), extend_ofNat (small _)]
      dsimp only
      omega

theorem Admits.spells_of_value {tail : List UInt8} (admits : l.Admits tail) (lead : of? a = some l)
    (whole : tail.length = l.following) {v : Nat} (value : l.value tail = v)
    (valid : v < 0xd800 ∨ 0xdfff < v ∧ v < 0x110000)
    (bytes : ∀ c : Char, c.toNat = v → String.utf8EncodeChar c = a :: tail) :
    Spells (Char.ofNat (l.value tail)) a l tail := by
  have number : (Char.ofNat v).toNat = v := by
    rw [Char.toNat_ofNat, if_pos valid]
  subst value
  exact ⟨lead, admits, whole, number.symm, bytes _ number⟩

/-- Bytes that are admitted, and as many as were promised, are a character. -/
theorem Admits.spells {tail : List UInt8} (admits : l.Admits tail) (lead : of? a = some l)
    (whole : tail.length = l.following) : Spells (Char.ofNat (l.value tail)) a l tail := by
  rcases of?_cases lead with ⟨low, high, rfl⟩ | ⟨low, high, rfl⟩ | ⟨low, high, rfl⟩
  · obtain ⟨b, rfl⟩ := List.length_eq_one_iff.1 whole
    obtain ⟨lowest, highest⟩ : 0x80 ≤ b.toNat ∧ b.toNat ≤ 0xbf := admits.1
    have value : Lead.value ⟨1, 0x80, 0xbf, a.toNat - 0xc0⟩ [b] = (a.toNat - 0xc0) * 64 + (b.toNat - 0x80) := rfl
    refine admits.spells_of_value lead whole value (by omega) fun c number => ?_
    rw [utf8EncodeChar_eq, number, if_neg (by omega), if_pos (by omega), ofNat_eq (b := a) (by omega),
      ofNat_eq (b := b) (by omega)]
  · obtain ⟨b, c, rfl⟩ := List.length_eq_two.1 whole
    obtain ⟨lowest, highest⟩ : (a.toNat = 0xe0 ∧ 0xa0 ≤ b.toNat ∨ ¬ a.toNat = 0xe0 ∧ 0x80 ≤ b.toNat) ∧
        (a.toNat = 0xed ∧ b.toNat ≤ 0x9f ∨ ¬ a.toNat = 0xed ∧ b.toNat ≤ 0xbf) := range_iff.1 admits.1
    obtain ⟨lowest', highest'⟩ := bounds_of_isContinuation (admits.2.1 c (List.mem_singleton_self c))
    have value (low high : UInt8) : Lead.value ⟨2, low, high, a.toNat - 0xe0⟩ [b, c] =
        ((a.toNat - 0xe0) * 64 + (b.toNat - 0x80)) * 64 + (c.toNat - 0x80) := rfl
    refine admits.spells_of_value lead whole (value _ _) (by omega) fun d number => ?_
    rw [utf8EncodeChar_eq, number, if_neg (by omega), if_neg (by omega), if_pos (by omega),
      ofNat_eq (b := a) (by omega), ofNat_eq (b := b) (by omega), ofNat_eq (b := c) (by omega)]
  · obtain ⟨b, c, d, rfl⟩ := List.length_eq_three.1 whole
    obtain ⟨lowest, highest⟩ : (a.toNat = 0xf0 ∧ 0x90 ≤ b.toNat ∨ ¬ a.toNat = 0xf0 ∧ 0x80 ≤ b.toNat) ∧
        (a.toNat = 0xf4 ∧ b.toNat ≤ 0x8f ∨ ¬ a.toNat = 0xf4 ∧ b.toNat ≤ 0xbf) := range_iff.1 admits.1
    obtain ⟨c_continued, d_continued⟩ := List.forall_mem_cons.1 admits.2.1
    obtain ⟨lowest', highest'⟩ := bounds_of_isContinuation c_continued
    obtain ⟨lowest'', highest''⟩ := bounds_of_isContinuation (d_continued d (List.mem_singleton_self d))
    have value (low high : UInt8) : Lead.value ⟨3, low, high, a.toNat - 0xf0⟩ [b, c, d] =
        (((a.toNat - 0xf0) * 64 + (b.toNat - 0x80)) * 64 + (c.toNat - 0x80)) * 64 + (d.toNat - 0x80) := rfl
    refine admits.spells_of_value lead whole (value _ _) (by omega) fun e number => ?_
    rw [utf8EncodeChar_eq, number, if_neg (by omega), if_neg (by omega), if_neg (by omega),
      ofNat_eq (b := a) (by omega), ofNat_eq (b := b) (by omega), ofNat_eq (b := c) (by omega),
      ofNat_eq (b := d) (by omega)]

end Lead

/-! ## The bytes of one character -/

theorem eq_of_ascii_head {c : Char} {a : UInt8} {tail : List UInt8} (ascii : a < 0x80)
    (bytes : String.utf8EncodeChar c = a :: tail) : tail = [] ∧ c.toNat = a.toNat := by
  have number : c.toNat = a.toNat := (mem_utf8EncodeChar_iff ascii c).1 (bytes ▸ List.mem_cons_self)
  have small : c.toNat < 0x80 := number ▸ ascii
  rw [utf8EncodeChar_of_ascii small] at bytes
  exact ⟨(List.cons.inj bytes).2.symm, number⟩

theorem spells_of_head {c : Char} {a : UInt8} {tail : List UInt8} (high : ¬ a < 0x80)
    (bytes : String.utf8EncodeChar c = a :: tail) : ∃ l, Lead.Spells c a l tail := by
  by_cases ascii : c.toNat < 0x80
  · rw [utf8EncodeChar_of_ascii ascii] at bytes
    obtain ⟨rfl, -⟩ := List.cons.inj bytes
    rw [UInt8.lt_iff_toNat_lt, toNat_ofNat_of_ascii ascii] at high
    exact absurd ascii high
  · obtain ⟨a', l, tail', spells⟩ := Lead.exists_spells (Nat.not_lt.1 ascii)
    obtain ⟨rfl, rfl⟩ := List.cons.inj (spells.bytes.symm.trans bytes)
    exact ⟨l, spells⟩

theorem utf8EncodeChar_append_inj {c c' : Char} {rest rest' : List UInt8}
    (same : String.utf8EncodeChar c ++ rest = String.utf8EncodeChar c' ++ rest') : c = c' ∧ rest = rest' := by
  obtain ⟨a, tail, bytes⟩ := utf8EncodeChar_eq_cons c
  obtain ⟨a', tail', bytes'⟩ := utf8EncodeChar_eq_cons c'
  rw [bytes, bytes'] at same
  obtain ⟨rfl, behind⟩ := List.cons.inj same
  by_cases ascii : a < 0x80
  · obtain ⟨rfl, number⟩ := eq_of_ascii_head ascii bytes
    obtain ⟨rfl, number'⟩ := eq_of_ascii_head ascii bytes'
    exact ⟨Char.toNat_inj.1 (number.trans number'.symm), behind⟩
  · obtain ⟨l, spells⟩ := spells_of_head ascii bytes
    obtain ⟨l', spells'⟩ := spells_of_head ascii bytes'
    obtain rfl := Option.some_inj.1 (spells.lead.symm.trans spells'.lead)
    obtain ⟨rfl, rests⟩ := List.append_inj behind (spells.whole.trans spells'.whole.symm)
    exact ⟨Char.toNat_inj.1 (spells.value.symm.trans spells'.value), rests⟩

end ProcessDrill.Utf8
