import ProcessLife.Kernel.Basic
import ProcessLife.Syscall.Number

/-! System calls on the kernel. Each call is traced when it comes in and when it returns; a call
that ends its task, or that breaks a rule, does not return. A call that sleeps came in once: what
is told on the way in is kept apart from the attempt, which is made again at each waking. -/

namespace ProcessLife

namespace Syscall

/-- What a call tells when it comes in. Waiting with a place for resource usage is passed on to
plain waiting. -/
def announce (call : Syscall) : List Kernel.Event :=
  match call with
  | wait4 child status options rusage =>
    [.callEntered call] ++ (if rusage = 0 then [] else [.rusageNotFilled rusage]) ++
      [.callEntered (waitpid child status options)]
  | _ => [.callEntered call]

def conclude (call : Syscall) (result : Except Errno Int64) : List Kernel.Event :=
  match call with
  | wait4 child status options _ =>
    [.callReturned (waitpid child status options) result, .callReturned call result]
  | _ => [.callReturned call result]

end Syscall

namespace Kernel

open Operation

def ofPid (pid : Pid) : Int64 :=
  pid.toUInt64.toInt64

/-- What a call does, without its trace. -/
def perform (caller : Pid) : Syscall → Operation Kernel Event Int64
  | .getpid => return ofPid caller
  | .getppid => return ofPid (((← current).registry.parentOf caller).getD noParent)
  | .fork => return ofPid (← fork caller)
  | .clone flags stack => return ofPid (← clone caller flags stack)
  | .exit code | .exitGroup code => exit caller code
  | .waitpid child status options => return ofPid (← waitFor caller child status options)
  | .wait4 child status options _ => return ofPid (← waitFor caller child status options)

def call (caller : Pid) (c : Syscall) : Operation Kernel Event Int64 := do
  let result ← attempt (perform caller c)
  tell (c.conclude result)
  settle result

def announceTrap (number : UInt64) (args : Vector UInt64 6) : List Event :=
  match Syscall.nameOf? number with
  | none => []
  | some name =>
    .trapEntered name :: ((Syscall.decode? number args).map Syscall.announce).getD []

def returnValue : Except Errno Int64 → Int64
  | .ok value => value
  | .error e => e.returnValue

/-- A call by number. It never fails: errors are negative values. -/
def trap (caller : Pid) (number : UInt64) (args : Vector UInt64 6) :
    Operation Kernel Event Int64 := do
  match Syscall.nameOf? number with
  | none =>
    emit (.unknownNumber number)
    return Errno.enosys.returnValue
  | some name =>
    match Syscall.decode? number args with
    | none =>
      emit (.notProvided name)
      emit (.trapReturned name Errno.enosys.returnValue)
      return Errno.enosys.returnValue
    | some c =>
      let value := returnValue (← attempt (call caller c))
      emit (.trapReturned name value)
      return value

end Kernel
end ProcessLife
