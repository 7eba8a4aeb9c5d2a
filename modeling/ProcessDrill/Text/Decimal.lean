/-!
# Decimal text

`Text.decimal` writes a natural number in base ten without leading zeros, `Text.signed` an integer
with a minus sign in front when it is negative. Both texts hold ASCII characters only.
-/

namespace ProcessDrill.Text

set_option autoImplicit false

def decimal (n : Nat) : String :=
  String.ofList (Nat.toDigits 10 n)

/-- An integer in decimal, with a leading `-` exactly when it is negative. -/
def signed : Int → String
  | .ofNat n => decimal n
  | .negSucc n => "-" ++ decimal (n + 1)

@[simp]
theorem toList_decimal (n : Nat) : (decimal n).toList = Nat.toDigits 10 n :=
  String.toList_ofList

theorem ofDigitChars_decimal (n : Nat) : Nat.ofDigitChars 10 (decimal n).toList 0 = n := by
  rw [toList_decimal, Nat.ofDigitChars_ten_toDigits]

end ProcessDrill.Text
