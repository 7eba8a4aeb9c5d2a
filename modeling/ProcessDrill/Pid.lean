import ProcessDrill.Text.Decimal
/-!
# Process numbers

A process number is a 64-bit word. It is typed and shown as a signed 32-bit integer, which is how
the kernel stores it.
-/

namespace ProcessDrill

set_option autoImplicit false

structure Pid where
  raw : UInt64
  deriving DecidableEq, Repr

namespace Pid

/-- A number as typed. A negative one keeps its bit pattern, extended to 64 bits. -/
def ofInt32 (n : Int32) : Pid :=
  ⟨n.toInt64.toUInt64⟩

def toInt32 (pid : Pid) : Int32 :=
  pid.raw.toInt64.toInt32

def text (pid : Pid) : String :=
  Text.signed pid.toInt32.toInt

end Pid

structure Joined where
  status : Int32
  normal : Bool
  deriving DecidableEq, Repr

end ProcessDrill
