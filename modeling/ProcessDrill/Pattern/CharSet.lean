/-!
# Sets of characters

A set of characters is a list of closed ranges of code points; ranges may overlap and come in any
order. The operations are those of sets, with complements taken among the characters.
`CharSet.normal` puts the ranges in order and joins those that touch.
-/

namespace ProcessDrill.Pattern

set_option autoImplicit false

abbrev CharSet : Type :=
  List (Nat × Nat)

namespace CharSet

def single (c : Char) : CharSet :=
  [(c.toNat, c.toNat)]

def every : CharSet :=
  [(0, 0xd7ff), (0xe000, 0x10ffff)]

def contains (s : CharSet) (c : Char) : Bool :=
  s.any fun (lowest, highest) => lowest ≤ c.toNat && c.toNat ≤ highest

def union (s t : CharSet) : CharSet :=
  s ++ t

def overlap (a b : Nat × Nat) : CharSet :=
  if max a.1 b.1 ≤ min a.2 b.2 then [(max a.1 b.1, min a.2 b.2)] else []

def inter (s t : CharSet) : CharSet :=
  s.flatMap fun a => t.flatMap (overlap a)

def outside (a : Nat × Nat) : CharSet :=
  (if a.1 = 0 then [] else [(0, a.1 - 1)]) ++ [(a.2 + 1, 0x10ffff)]

def compl (s : CharSet) : CharSet :=
  s.foldl (fun t a => inter t (outside a)) every

def difference (s t : CharSet) : CharSet :=
  inter s (compl t)

def symmetricDifference (s t : CharSet) : CharSet :=
  difference (union s t) (inter s t)

/-- Joins a range to those after it, of which none begins earlier. -/
def joinRange (a : Nat × Nat) : CharSet → CharSet
  | [] => [a]
  | b :: rest => if b.1 ≤ a.2 + 1 then joinRange (a.1, max a.2 b.2) rest else a :: b :: rest

/-- The set with its ranges in order, none of which touch. -/
def normal (s : CharSet) : CharSet :=
  (s.mergeSort fun a b => a.1 ≤ b.1).foldr joinRange []

def only? (s : CharSet) : Option Char :=
  match s with
  | [(lowest, highest)] => if lowest = highest then some (Char.ofNat lowest) else none
  | _ => none

def isAscii (s : CharSet) : Bool :=
  List.all s fun a => a.2 < 0x80

def foldCase (s : CharSet) : CharSet :=
  let lower := inter s [(0x61, 0x7a)]
  let upper := inter s [(0x41, 0x5a)]
  s ++ lower.map (fun a => (a.1 - 0x20, a.2 - 0x20)) ++
    upper.map (fun a => (a.1 + 0x20, a.2 + 0x20))

/-! ## Named sets -/

def digit : CharSet := [(0x30, 0x39)]

def lower : CharSet := [(0x61, 0x7a)]

def upper : CharSet := [(0x41, 0x5a)]

def space : CharSet := [(0x09, 0x0d), (0x20, 0x20)]

def word : CharSet := digit ++ lower ++ upper ++ [(0x5f, 0x5f)]

def named? (name : String) : Option CharSet :=
  match name with
  | "alnum" => some (digit ++ lower ++ upper)
  | "alpha" => some (lower ++ upper)
  | "ascii" => some [(0, 0x7f)]
  | "blank" => some [(0x09, 0x09), (0x20, 0x20)]
  | "cntrl" => some [(0, 0x1f), (0x7f, 0x7f)]
  | "digit" => some digit
  | "graph" => some [(0x21, 0x7e)]
  | "lower" => some lower
  | "print" => some [(0x20, 0x7e)]
  | "punct" => some [(0x21, 0x2f), (0x3a, 0x40), (0x5b, 0x60), (0x7b, 0x7e)]
  | "space" => some space
  | "upper" => some upper
  | "word" => some word
  | "xdigit" => some (digit ++ [(0x41, 0x46), (0x61, 0x66)])
  | _ => none

end CharSet

end ProcessDrill.Pattern
