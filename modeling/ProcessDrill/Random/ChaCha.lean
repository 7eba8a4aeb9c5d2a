/-!
# Random words from a seed

The key stream of the ChaCha block function with twelve rounds. The key is stretched from a 64-bit
seed by a linear congruential generator whose output is permuted word by word. Main definition:
`ChaCha.words seed blocks`, the words of the first blocks in order.
-/

namespace ProcessDrill.Random.ChaCha

set_option autoImplicit false

/-! ## The key of a seed -/

def rotateLeft (w n : UInt32) : UInt32 :=
  (w <<< n) ||| (w >>> (32 - n))

def rotateRight (w n : UInt32) : UInt32 :=
  (w >>> n) ||| (w <<< ((32 - n) % 32))

def advance (state : UInt64) : UInt64 :=
  state * 6364136223846793005 + 11634580027462260723

/-- The key word that a state gives: its high bits folded, then turned right by its top five. -/
def keyWord (state : UInt64) : UInt32 :=
  rotateRight (((state >>> 18) ^^^ state) >>> 27).toUInt32 (state >>> 59).toUInt32

def keyWords : Nat → UInt64 → List UInt32
  | 0, _ => []
  | n + 1, state => keyWord (advance state) :: keyWords n (advance state)

/-! ## The block function -/

abbrev State := Vector UInt32 16

def quarterRound (s : State) (a b c d : Fin 16) : State :=
  let s := s.set a (s[a] + s[b])
  let s := s.set d (rotateLeft (s[d] ^^^ s[a]) 16)
  let s := s.set c (s[c] + s[d])
  let s := s.set b (rotateLeft (s[b] ^^^ s[c]) 12)
  let s := s.set a (s[a] + s[b])
  let s := s.set d (rotateLeft (s[d] ^^^ s[a]) 8)
  let s := s.set c (s[c] + s[d])
  s.set b (rotateLeft (s[b] ^^^ s[c]) 7)

def doubleRound (s : State) : State :=
  let s := quarterRound s 0 4 8 12
  let s := quarterRound s 1 5 9 13
  let s := quarterRound s 2 6 10 14
  let s := quarterRound s 3 7 11 15
  let s := quarterRound s 0 5 10 15
  let s := quarterRound s 1 6 11 12
  let s := quarterRound s 2 7 8 13
  quarterRound s 3 4 9 14

def constants : List UInt32 :=
  [0x61707865, 0x3320646e, 0x79622d32, 0x6b206574]

def start (key : List UInt32) (number : UInt64) : State :=
  Vector.ofFn fun i =>
    (constants ++ key ++ [number.toUInt32, (number >>> 32).toUInt32, 0, 0]).getD i 0

/-- The words of one block: twelve rounds, added to the state before them. -/
def block (key : List UInt32) (number : UInt64) : List UInt32 :=
  let s := start key number
  let t := Nat.repeat doubleRound 6 s
  (s.zipWith (· + ·) t).toList

def words (seed : UInt64) (blocks : Nat) : List UInt32 :=
  let key := keyWords 8 seed
  (List.range blocks).flatMap fun number => block key (UInt64.ofNat number)

example : (words 0 1).take 3 = [3442241407, 3140108210, 2384947579] := by decide +kernel

end ProcessDrill.Random.ChaCha
