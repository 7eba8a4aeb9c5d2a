import ProcessDrill.Failure
/-!
# Configuration of a drill

The size of the buffer for program names and the two bounds of random arguments. Main statement:
`Config.check_eq_ok_iff`, a configuration is accepted exactly when it is `Config.Valid`.
-/

namespace ProcessDrill

set_option autoImplicit false

structure Config where
  nameCapacity : Nat := 20
  fileNameBound : UInt32 := 99
  pidBound : UInt32 := 256
  deriving DecidableEq, Repr

namespace Config

/-- The longest path that the kernel takes in, terminator included. -/
def maxNameCapacity : Nat := 256

/-- There is room for a name of one byte, no more than the kernel takes in, and something to draw
from. -/
structure Valid (config : Config) : Prop where
  two_le_nameCapacity : 2 ≤ config.nameCapacity
  nameCapacity_le : config.nameCapacity ≤ maxNameCapacity
  fileNameBound_ne : config.fileNameBound ≠ 0
  pidBound_ne : config.pidBound ≠ 0

def fault? (config : Config) : Option String :=
  if config.nameCapacity < 2 ∨ maxNameCapacity < config.nameCapacity then
    some ("name capacity " ++ Text.decimal config.nameCapacity ++ " outside 2..=" ++
      Text.decimal maxNameCapacity)
  else if config.fileNameBound = 0 then some "file name bound must be at least 1"
  else if config.pidBound = 0 then some "pid bound must be at least 1"
  else none

def check (config : Config) : Except Failure Unit :=
  match config.fault? with
  | some reason => .error (.config reason)
  | none => .ok ()

theorem fault?_eq_none_iff (config : Config) : config.fault? = none ↔ config.Valid := by
  constructor
  · intro h
    unfold fault? at h
    split at h
    · simp at h
    · split at h
      · simp at h
      · split at h
        · simp at h
        · exact ⟨by omega, by omega, by assumption, by assumption⟩
  · intro ⟨h₁, h₂, h₃, h₄⟩
    have h : ¬ (config.nameCapacity < 2 ∨ maxNameCapacity < config.nameCapacity) := by omega
    rw [fault?, if_neg h, if_neg h₃, if_neg h₄]

theorem check_eq_ok_iff (config : Config) : config.check = .ok () ↔ config.Valid := by
  rw [← fault?_eq_none_iff]
  unfold check
  cases config.fault? <;> simp

instance (config : Config) : Decidable config.Valid :=
  decidable_of_iff _ (fault?_eq_none_iff config)

end Config

end ProcessDrill
