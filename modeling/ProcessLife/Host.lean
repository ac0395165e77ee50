import ProcessLife.Operation
import ProcessLife.UserPtr
import Std.Data.ExtTreeMap.Lemmas

/-! What the kernel needs of the machine below it: address spaces, trap frames, tasks, and the
memory of user processes. The host keeps an account of what was asked of it, and can be armed to
fail at the next use of one facility. -/

namespace ProcessLife

/-- The registers of a user process on its way into the kernel. -/
structure TrapFrame where
  args : Vector UInt64 6
  result : UInt64
deriving DecidableEq

namespace TrapFrame

def zero : TrapFrame :=
  ⟨.replicate 6 0, 0⟩

/-- The frame with the given arguments; those that are missing are zero. -/
def ofArgs (args : List UInt64) : Except Fault TrapFrame :=
  if args.length ≤ 6 then .ok ⟨.ofFn fun i => args.getD i 0, 0⟩ else .error .tooManyArguments

end TrapFrame

/-- An address space, known by the process that it was made for or copied from. -/
structure AddressSpace where
  owner : Pid
deriving DecidableEq

structure Task where
  pid : Pid
  frame : TrapFrame
  space : AddressSpace
deriving DecidableEq

/-- What the host does that can fail at any time. -/
inductive Facility where
  | copySpace
  | copyFrame
  | startTask
  | releaseSpace
deriving DecidableEq

structure Host where
  /-- The facility that fails at its next use. -/
  armed : Option Facility := none
  tasks : Array Task := #[]
  /-- The processes whose address space was given back. -/
  released : Array Pid := #[]
  /-- The words stored for user processes. -/
  memory : Std.ExtTreeMap UInt64 Int32 := ∅
deriving DecidableEq

namespace Host

open Operation

variable {ε : Type}

/-- The addresses below this one belong to no user process. -/
def leastUserAddress : UInt64 := 0x1000

/-- Makes a facility fail at its next use. Only one can be armed at a time. -/
def arm (facility : Facility) (h : Host) : Host :=
  { h with armed := some facility }

/-- Fails with `e` if the facility is armed, which uses the arming up. -/
def failIfArmed (facility : Facility) (e : Errno) : Operation Host ε Unit := do
  if (← current).armed = some facility then
    modify ({ · with armed := none })
    fail e

def copySpace (pid : Pid) : Operation Host ε AddressSpace := do
  failIfArmed .copySpace .enomem
  return ⟨pid⟩

def copyFrame (frame : TrapFrame) (result : UInt64) : Operation Host ε TrapFrame := do
  failIfArmed .copyFrame .enomem
  return { frame with result }

def startTask (task : Task) : Operation Host ε Unit := do
  failIfArmed .startTask .eagain
  modify fun h => { h with tasks := h.tasks.push task }

def releaseSpace (pid : Pid) : Operation Host ε Unit := do
  failIfArmed .releaseSpace .eio
  modify fun h => { h with released := h.released.push pid }

def store (p : UserPtr) (word : Int32) : Operation Host ε Unit := do
  if p.isNull ∨ p.address < leastUserAddress then fail .efault
  else modify fun h => { h with memory := h.memory.insert p.address word }

/-- The word last stored at an address. -/
def word? (h : Host) (address : UInt64) : Option Int32 :=
  h.memory[address]?

def taskOf? (h : Host) (pid : Pid) : Option Task :=
  h.tasks.find? (·.pid = pid)

end Host
end ProcessLife
