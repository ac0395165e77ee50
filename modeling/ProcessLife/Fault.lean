import ProcessLife.Errno
import ProcessLife.Pid

/-! Faults: rules that callers promise to keep, and what is said when one is broken. A fault is not
an answer to the caller. The operation stops where it stands, and what it has changed stays
changed. -/

namespace ProcessLife

inductive Fault where
  /-- The range of identifiers is empty or holds the identifier of no process. -/
  | invalidRange (first last : Pid)
  /-- The identifier of no process was to be registered. -/
  | reservedPid
  | alreadyRegistered (pid : Pid)
  /-- A process that is not registered was to get another parent. -/
  | reparentingUnknown (pid : Pid)
  | stillHasChildren (pid : Pid)
  | alreadyExited (pid : Pid)
  /-- Only a live process without children can be taken back. -/
  | notPending (pid : Pid)
  /-- The address space of an exiting process could not be given back. -/
  | spaceNotReleased (pid : Pid) (cause : Errno)
  /-- More arguments than a trap frame has registers for. -/
  | tooManyArguments
deriving DecidableEq

/-- The report on a broken rule; a frame with too many arguments has none of its own. -/
def Fault.message : Fault → String
  | invalidRange first last => s!"[process] invalid pid range {first}..={last}"
  | reservedPid => s!"[process] pid {noParent} is reserved"
  | alreadyRegistered pid => s!"[process] process with id {pid} already exists"
  | reparentingUnknown pid => s!"[process] reparenting unknown process {pid}"
  | stillHasChildren pid => s!"[process] process {pid} removed while it still has children"
  | alreadyExited pid => s!"[process] process {pid} is already exited"
  | notPending pid => s!"[process] process {pid} is not a pending fork"
  | spaceNotReleased pid cause =>
    s!"[exit] failed to tear down address space of process {pid}: {cause.name}"
  | tooManyArguments => ""

/-- Where two steps in a row break no rule, neither of them does. -/
theorem exists_of_bind_eq_ok {φ α β : Type} {x : Except φ α} {next : α → Except φ β} {b : β}
    (h : (x >>= next) = .ok b) : ∃ a, x = .ok a ∧ next a = .ok b := by
  cases x with
  | error => cases h
  | ok a => exact ⟨a, rfl, h⟩

end ProcessLife
