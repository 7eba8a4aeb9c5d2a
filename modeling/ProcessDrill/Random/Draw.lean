/-!
# Bounded draws

`Random.draw?` takes random 32-bit words until one falls into the zone in which every value below
the bound has equally many words, and scales that word down to the bound.
-/

namespace ProcessDrill.Random

set_option autoImplicit false

def leadingZeros (n : UInt32) : UInt32 :=
  UInt32.ofNat (if n = 0 then 32 else 31 - n.toNat.log2)

/-- The largest low half of a product that is accepted: one less than the largest multiple of the
bound by a power of two that fits 32 bits. -/
def zone (bound : UInt32) : UInt32 :=
  (bound <<< leadingZeros bound) - 1

/-- The value drawn below `bound` and the words that are left; none if the words run out before one
is accepted. -/
def draw? (bound : UInt32) : List UInt32 → Option (UInt32 × List UInt32)
  | [] => none
  | word :: rest =>
    let product := word.toUInt64 * bound.toUInt64
    if product.toUInt32 ≤ zone bound then some ((product >>> 32).toUInt32, rest)
    else draw? bound rest

/-- These words, and zeros behind them for as many draws. A zero is always accepted, so no draw uses
two of them. -/
def thenZeros (words : List UInt32) (draws : Nat) : List UInt32 :=
  words ++ List.replicate draws 0

theorem toNat_highHalf (word bound : UInt32) :
    ((word.toUInt64 * bound.toUInt64) >>> 32).toUInt32.toNat =
      word.toNat * bound.toNat / 4294967296 := by
  have word_lt : word.toNat < 4294967296 := word.toNat_lt
  have bound_lt : bound.toNat < 4294967296 := bound.toNat_lt
  have product_lt : word.toNat * bound.toNat < 4294967296 * 4294967296 :=
    Nat.mul_lt_mul'' word_lt bound_lt
  have product : (word.toUInt64 * bound.toUInt64).toNat = word.toNat * bound.toNat := by
    rw [UInt64.toNat_mul, UInt32.toNat_toUInt64, UInt32.toNat_toUInt64]
    exact Nat.mod_eq_of_lt product_lt
  have half_lt : word.toNat * bound.toNat / 4294967296 < 4294967296 :=
    Nat.div_lt_of_lt_mul product_lt
  rw [UInt64.toNat_toUInt32, UInt64.toNat_shiftRight, product]
  exact (congrArg (· % 4294967296) (Nat.shiftRight_eq_div_pow _ 32)).trans
    (Nat.mod_eq_of_lt half_lt)

theorem draw?_lt {bound value : UInt32} {words rest : List UInt32} (nonzero : bound ≠ 0)
    (h : draw? bound words = some (value, rest)) : value < bound := by
  induction words with
  | nil => cases h
  | cons word words ih =>
    rw [draw?] at h
    split at h
    · cases h
      have positive : 0 < bound.toNat := by
        refine Nat.pos_of_ne_zero fun zero => nonzero ?_
        exact UInt32.toNat_inj.1 zero
      have word_lt : word.toNat < 4294967296 := word.toNat_lt
      rw [UInt32.lt_iff_toNat_lt, toNat_highHalf]
      exact Nat.div_lt_of_lt_mul (Nat.mul_lt_mul_of_pos_right word_lt positive)
    · exact ih h

end ProcessDrill.Random
