import ProcessLife.ExitStatus
import ProcessLife.Log
import ProcessLife.Pid

/-! What is told about the lives of processes. -/

namespace ProcessLife.Registry

inductive Event where
  | rootRegistered (pid : Pid)
  | forkFromUnknown (parent : Pid)
  | forked (parent child : Pid)
  | forkRolledBack (child : Pid)
  | untrackedExit (pid : Pid)
  | exited (pid : Pid) (status : ExitStatus)
  /-- A child of an exiting process gets a new parent. -/
  | handedOver (child reaper : Pid)
  /-- A zombie goes with the parent that never waited for it. -/
  | reclaimedWithParent (child : Pid)
  | orphaned (child : Pid)
  /-- An orphan goes at its own exit. -/
  | reclaimedOnExit (pid : Pid)
  /-- A parent fetched the status of its child. -/
  | reaped (parent child : Pid) (status : ExitStatus)
deriving DecidableEq

def Event.line : Event → LogLine
  | rootRegistered pid => ⟨.info, s!"[process] root process {pid} registered"⟩
  | forkFromUnknown parent => ⟨.warn, s!"[process] fork from unknown process {parent}"⟩
  | forked parent child => ⟨.debug, s!"[process] process {parent} forked child {child}"⟩
  | forkRolledBack child => ⟨.debug, s!"[process] fork of {child} rolled back"⟩
  | untrackedExit pid => ⟨.warn, s!"[process] untracked process {pid} exited"⟩
  | exited pid status => ⟨.info, s!"[process] process {pid} {status.text}"⟩
  | handedOver child reaper =>
    ⟨.debug, s!"[process] process {child} handed to reaper {reaper}"⟩
  | reclaimedWithParent child =>
    ⟨.debug, s!"[process] zombie {child} reclaimed with its parent"⟩
  | orphaned child => ⟨.debug, s!"[process] process {child} orphaned"⟩
  | reclaimedOnExit pid => ⟨.debug, s!"[process] process {pid} reclaimed on exit"⟩
  | reaped parent child status =>
    ⟨.info, s!"[process] process {parent} reaped child {child} ({status.text})"⟩

end ProcessLife.Registry
