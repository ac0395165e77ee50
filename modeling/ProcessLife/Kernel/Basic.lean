import ProcessLife.Host
import ProcessLife.Kernel.Event
import ProcessLife.Registry.Basic

/-! The kernel: a registry of processes on a host. A process is registered before its task is
started, and taken back if the task cannot be started, so that a process and its task come into
being together or not at all. An exit tells the registry before the host. -/

namespace ProcessLife

structure Kernel.Config where
  initPid : Pid := 1
  limits : Registry.Config := {}
deriving DecidableEq

structure Kernel where
  registry : Registry
  host : Host
  config : Kernel.Config
deriving DecidableEq

namespace Kernel

open Operation

def new (config : Config) : Except Fault Kernel := do
  let registry ← Registry.new config.limits
  return { registry, host := {}, config }

def onRegistry {α : Type} (x : Operation Registry Registry.Event α) : Operation Kernel Event α :=
  x.zoom Kernel.registry (fun registry k => { k with registry }) .registry

def onHost {α : Type} (x : Operation Host Event α) : Operation Kernel Event α :=
  x.zoom Kernel.host (fun host k => { k with host }) id

/-- Starts the first process, the one without a parent. If the host cannot start its task, the
process is not registered either. -/
def launch (frame : TrapFrame) (space : AddressSpace) : Operation Kernel Event Pid := do
  let pid := (← current).config.initPid
  onRegistry (Registry.addRoot pid)
  match ← attempt (onHost (Host.startTask { pid, frame, space })) with
  | .ok () =>
    emit (.initStarted pid)
    return pid
  | .error e =>
    emit (.initNotStarted e)
    onRegistry (Registry.rollBack pid)
    fail e

/-- Starts the first process with a frame of zeros and an address space of its own. -/
def boot : Operation Kernel Event Pid := do
  launch .zero ⟨(← current).config.initPid⟩

/-- Makes a child of `caller`. What the child needs of the host is copied before it is
registered. -/
def fork (caller : Pid) : Operation Kernel Event Pid := do
  let space ← onHost (Host.copySpace caller)
  let frame ← onHost (Host.copyFrame .zero 0)
  let child ← onRegistry (Registry.fork caller)
  match ← attempt (onHost (Host.startTask { pid := child, frame, space })) with
  | .ok () =>
    emit (.forked caller child)
    return child
  | .error e =>
    emit (.childNotStarted child e)
    onRegistry (Registry.rollBack child)
    fail e

/-- The exit signal is the low byte of the flags. -/
def exitSignalMask : UInt32 := 0xff

/-- The signal that tells a parent of the exit of its child. -/
def childSignal : UInt32 := 17

/-- A fork by way of the more general call. Of all flags only the exit signal is accepted, and it
has to be the usual one or none; nor may the child have a stack of its own. -/
def clone (caller : Pid) (flags stack : UInt64) : Operation Kernel Event Pid := do
  let signal := flags.toUInt32 &&& exitSignalMask
  let rest := flags.toUInt32 &&& ~~~exitSignalMask
  if flags >>> 32 ≠ 0 then
    emit (.wideCloneFlags flags)
    fail .einval
  else if signal ≠ 0 ∧ signal ≠ childSignal then
    emit (.exitSignal signal)
    fail .einval
  else if rest ≠ 0 then
    emit (.cloneFlags rest)
    fail .einval
  else if stack ≠ 0 then
    emit .cloneStack
    fail .einval
  else fork caller

/-- Ends the calling task. There is no answer: the task is gone, unless its memory could not be
given back. -/
def exit {α : Type} (caller : Pid) (code : Int32) : Operation Kernel Event α := do
  emit (.exiting caller code)
  onRegistry (Registry.exit caller code)
  match ← attempt (onHost (Host.releaseSpace caller)) with
  | .ok () => stop (.exited code)
  | .error e => stop (.broken (.spaceNotReleased caller e))

/-- Waits for one child, which is named by a positive number, and stores its status if the caller
wants it. A status that cannot be stored is lost: the child is out of the registry by then. -/
def waitFor (caller : Pid) (child : Int32) (status : UserPtr) (options : UInt32) :
    Operation Kernel Event Pid := do
  if options ≠ 0 then
    emit (.waitOptions options)
    fail .einval
  else if child ≤ 0 then fail .esrch
  else
    let pid := child.toUInt32
    let found ← onRegistry (Registry.wait caller pid)
    if status.isNull then return pid
    else
      match ← attempt (onHost (Host.store status found.raw)) with
      | .ok () => return pid
      | .error e =>
        emit (.statusNotStored caller pid)
        fail e

end Kernel
end ProcessLife
