import ProcessLife.Errno
import ProcessLife.Registry.Event
import ProcessLife.Syscall.Basic
import ProcessLife.Syscall.FlagSet

/-! What the kernel tells about system calls, and about the tasks it starts. -/

namespace ProcessLife.Kernel

inductive Event where
  | registry (e : Registry.Event)
  | initStarted (pid : Pid)
  | initNotStarted (cause : Errno)
  | forked (parent child : Pid)
  /-- The registered child got no task. -/
  | childNotStarted (child : Pid) (cause : Errno)
  | exiting (pid : Pid) (code : Int32)
  /-- Flags that do not even fit into half a register. -/
  | wideCloneFlags (flags : UInt64)
  | exitSignal (signal : UInt32)
  | cloneFlags (flags : UInt32)
  | cloneStack
  | waitOptions (options : UInt32)
  /-- The child is gone from the registry, but its status could not be stored. -/
  | statusNotStored (parent child : Pid)
  | rusageNotFilled (address : UInt64)
  | callEntered (call : Syscall)
  | callReturned (call : Syscall) (result : Except Errno Int64)
  | unknownNumber (number : UInt64)
  | trapEntered (name : String)
  | notProvided (name : String)
  | trapReturned (name : String) (value : Int64)

def resultText : Except Errno Int64 → String
  | .ok value => s!"Ok({value})"
  | .error e => s!"Err({e.name})"

namespace Event

def line : Event → LogLine
  | registry e => e.line
  | initStarted pid => ⟨.info, s!"[task manager] init process {pid} started"⟩
  | initNotStarted cause =>
    ⟨.warn, s!"[task manager] failed to start init process: {cause.name}"⟩
  | forked parent child => ⟨.info, s!"[fork] process {parent} forked child {child}"⟩
  | childNotStarted child cause =>
    ⟨.warn, s!"[fork] failed to start task of process {child}: {cause.name}"⟩
  | exiting pid code => ⟨.info, s!"[exit] process {pid} exiting with code {code}"⟩
  | wideCloneFlags flags => ⟨.warn, s!"[clone] unsupported flags {hex flags.toNat}"⟩
  | exitSignal signal => ⟨.warn, s!"[clone] unsupported exit signal {signal}"⟩
  | cloneFlags flags =>
    ⟨.warn, s!"[clone] unsupported flags CloneFlags({cloneFlagNames.describe flags})"⟩
  | cloneStack => ⟨.warn, "[clone] a new stack is not supported for fork"⟩
  | waitOptions options =>
    ⟨.warn, s!"[wait] unsupported wait options: WaitOptions({waitOptionNames.describe options})"⟩
  | statusNotStored parent child =>
    ⟨.warn, s!"[wait] process {parent} reaped child {child} but could not store its status"⟩
  | rusageNotFilled address => ⟨.debug, s!"[wait] rusage at {hex address.toNat} is not filled in"⟩
  | callEntered call => ⟨.debug, s!"[syscall] <= {call.text}"⟩
  | callReturned call result => ⟨.debug, s!"[syscall] => {call.text} = {resultText result}"⟩
  | unknownNumber number => ⟨.warn, s!"[syscall] invalid syscall number {number}, ENOSYS"⟩
  | trapEntered name => ⟨.debug, s!"[syscall] <{name}> begin"⟩
  | notProvided name => ⟨.warn, s!"Unimplemented syscall: {name}, ENOSYS"⟩
  | trapReturned name value => ⟨.debug, s!"[syscall] <{name}> return {value}"⟩

end Event
end ProcessLife.Kernel
