/-! The error numbers that a failed call gives to its caller, with their conventional names. -/

namespace ProcessLife

inductive Errno where
  /-- There is no such process. -/
  | esrch
  /-- A device failed. -/
  | eio
  /-- The process is no child of the caller. -/
  | echild
  /-- A limit is reached; the call may succeed later. -/
  | eagain
  /-- Memory is short. -/
  | enomem
  /-- The address is not one of the caller's. -/
  | efault
  /-- An argument is not supported. -/
  | einval
  /-- Every identifier is taken. -/
  | enospc
  /-- The call is not provided. -/
  | enosys
deriving DecidableEq

namespace Errno

def name : Errno → String
  | esrch => "ESRCH"
  | eio => "EIO"
  | echild => "ECHILD"
  | eagain => "EAGAIN"
  | enomem => "ENOMEM"
  | efault => "EFAULT"
  | einval => "EINVAL"
  | enospc => "ENOSPC"
  | enosys => "ENOSYS"

def code : Errno → Int64
  | esrch => 3
  | eio => 5
  | echild => 10
  | eagain => 11
  | enomem => 12
  | efault => 14
  | einval => 22
  | enospc => 28
  | enosys => 38

/-- What a system call returns in place of an answer: the code with its sign turned. -/
def returnValue (e : Errno) : Int64 :=
  -e.code

theorem returnValue_neg (e : Errno) : e.returnValue < 0 := by
  cases e <;> decide

end Errno
end ProcessLife
