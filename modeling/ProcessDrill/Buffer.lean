/-!
# Byte buffers

What is left of a buffer after something was put over its front, and slices that are refused when
they reach beyond their bytes.
-/

namespace ProcessDrill.Buffer

set_option autoImplicit false

def zeros (size : Nat) : List UInt8 :=
  List.replicate size 0

/-- A buffer with `bytes` put over its front; what does not fit is dropped. -/
def overlay (bytes buffer : List UInt8) : List UInt8 :=
  bytes.take buffer.length ++ buffer.drop bytes.length

def sliceFrom? (bytes : List UInt8) (n : Nat) : Option (List UInt8) :=
  if n ≤ bytes.length then some (bytes.drop n) else none

def sliceTo? (bytes : List UInt8) (n : Nat) : Option (List UInt8) :=
  if n ≤ bytes.length then some (bytes.take n) else none

@[simp]
theorem length_zeros (size : Nat) : (zeros size).length = size :=
  List.length_replicate

@[simp]
theorem length_overlay (bytes buffer : List UInt8) :
    (overlay bytes buffer).length = buffer.length := by
  simp [overlay]
  omega

theorem length_sliceFrom? {bytes rest : List UInt8} {n : Nat} (h : sliceFrom? bytes n = some rest) :
    rest.length = bytes.length - n := by
  unfold sliceFrom? at h
  split at h
  · cases h
    simp
  · cases h

theorem sliceFrom?_min (bytes : List UInt8) (n : Nat) :
    sliceFrom? bytes (min n bytes.length) = some (bytes.drop n) := by
  rw [sliceFrom?, if_pos (Nat.min_le_right _ _)]
  congr 1
  rcases Nat.le_total n bytes.length with h | h
  · rw [Nat.min_eq_left h]
  · rw [Nat.min_eq_right h, List.drop_length, List.drop_eq_nil_of_le h]

theorem sliceTo?_min (bytes : List UInt8) (n : Nat) :
    sliceTo? bytes (min n bytes.length) = some (bytes.take n) := by
  rw [sliceTo?, if_pos (Nat.min_le_right _ _), ← List.take_take, List.take_length]

end ProcessDrill.Buffer
