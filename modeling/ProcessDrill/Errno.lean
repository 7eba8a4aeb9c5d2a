/-!
# Error numbers

The errors a system call can name, and how a raw 64-bit return is read: a negative one names an
error, any other is a value. Numbers that name no error of the list count as an invalid argument.
-/

namespace ProcessDrill

set_option autoImplicit false

inductive Errno where
  | eperm | enoent | esrch | eintr | eio | e2big | enoexec | ebadf
  | echild | eagain | enomem | eacces | efault | einval | enametoolong | enosys
  deriving DecidableEq, Repr

namespace Errno

def all : List Errno :=
  [eperm, enoent, esrch, eintr, eio, e2big, enoexec, ebadf,
   echild, eagain, enomem, eacces, efault, einval, enametoolong, enosys]

def number : Errno → Int64
  | eperm => 1
  | enoent => 2
  | esrch => 3
  | eintr => 4
  | eio => 5
  | e2big => 7
  | enoexec => 8
  | ebadf => 9
  | echild => 10
  | eagain => 11
  | enomem => 12
  | eacces => 13
  | efault => 14
  | einval => 22
  | enametoolong => 36
  | enosys => 38

def name : Errno → String
  | eperm => "EPERM"
  | enoent => "ENOENT"
  | esrch => "ESRCH"
  | eintr => "EINTR"
  | eio => "EIO"
  | e2big => "E2BIG"
  | enoexec => "ENOEXEC"
  | ebadf => "EBADF"
  | echild => "ECHILD"
  | eagain => "EAGAIN"
  | enomem => "ENOMEM"
  | eacces => "EACCES"
  | efault => "EFAULT"
  | einval => "EINVAL"
  | enametoolong => "ENAMETOOLONG"
  | enosys => "ENOSYS"

/-- The error with this number, or `einval` if no error has it. -/
def ofNumber (n : Int64) : Errno :=
  (all.find? (·.number == n)).getD einval

def ofName? (name : String) : Option Errno :=
  all.find? (·.name == name)

theorem mem_all (e : Errno) : e ∈ all := by
  cases e <;> decide

theorem ofNumber_number (e : Errno) : ofNumber e.number = e := by
  cases e <;> decide

/-- A raw return: an error if it is negative, else a value. -/
def ofReturn (ret : Int64) : Except Errno UInt64 :=
  if ret < 0 then .error (ofNumber (-ret)) else .ok ret.toUInt64

theorem ofReturn_of_neg {ret : Int64} (h : ret < 0) : ofReturn ret = .error (ofNumber (-ret)) :=
  if_pos h

theorem ofReturn_of_nonneg {ret : Int64} (h : 0 ≤ ret) : ofReturn ret = .ok ret.toUInt64 :=
  if_neg (Int64.not_lt.2 h)

theorem ofReturn_ofNat {n : Nat} (small : 2 * n < UInt64.size) :
    (ofReturn (Int64.ofNat n)).map UInt64.toNat = .ok n := by
  have kept : n < UInt64.size := by omega
  have nonneg : 0 ≤ Int64.ofNat n := by
    rw [UInt64.size] at small
    rw [Int64.le_iff_toInt_le, Int64.toInt_ofNat_of_lt (by omega)]
    exact Int.natCast_nonneg n
  rw [ofReturn_of_nonneg nonneg, Int64.toUInt64_ofNat']
  exact congrArg Except.ok (UInt64.toNat_ofNat_of_lt kept)

end Errno

end ProcessDrill
