import ProcessLife.Kernel.Call
import ProcessLife.Registry.Service

/-! The kernel as a service: what is asked of its registry directly, the start of the first
process, system calls in the name of a process, and the arming of a failure. -/

namespace ProcessLife.Kernel

/-- What is asked of a kernel. A call by number comes with the argument registers. -/
inductive Request where
  | registry (request : Registry.Request)
  | launch (frame : TrapFrame) (space : AddressSpace)
  | call (caller : Pid) (call : Syscall)
  | trap (caller : Pid) (number : UInt64) (args : Vector UInt64 6)
  | arm (facility : Facility)
deriving DecidableEq

inductive Answer where
  | registry (answer : Registry.Answer)
  | launched (pid : Pid)
  | value (n : Int64)
  | armed
deriving DecidableEq

def announce : Request → List Event
  | .call _ c => c.announce
  | .trap _ number args => announceTrap number args
  | _ => []

def serve : Request → Operation Kernel Event Answer
  | .registry request => return .registry (← onRegistry (Registry.serve request))
  | .launch frame space => return .launched (← launch frame space)
  | .call caller c => return .value (← call caller c)
  | .trap caller number args => return .value (← trap caller number args)
  | .arm facility => do
    onHost (Operation.modify (Host.arm facility))
    return .armed

def service : Service Kernel Request Event Answer where
  signal k := k.registry.childExit
  announce := announce
  attempt := serve

end ProcessLife.Kernel
