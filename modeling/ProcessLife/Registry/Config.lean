import ProcessLife.Pid

/-! The limits within which processes are registered, and what becomes of children whose parent
exits before them. -/

namespace ProcessLife

structure Registry.Config where
  /-- The least identifier that a fork gives. -/
  firstPid : Pid := 2
  /-- The greatest identifier that a fork gives. -/
  lastPid : Pid := 2147483647
  /-- With so many processes registered, no fork succeeds. -/
  capacity : Nat := 32768
  /-- The process that takes over the children of others, as long as it is alive. Without it they
  are left to themselves. -/
  reaper : Option Pid := none
deriving DecidableEq

end ProcessLife
