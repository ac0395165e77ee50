import ProcessLife.Operation
import ProcessLife.Pid.Ring
import ProcessLife.Registry.Config
import ProcessLife.Registry.Event
import ProcessLife.Session.Signal
import ProcessLife.Table.Basic

/-! The registry of processes: who forked whom, who has exited, and whose status is still to be
fetched. A fork enters a live process under its parent; an exit leaves a zombie for the parent and
lets the children go; a wait takes the zombie out. -/

namespace ProcessLife

structure Registry where
  table : Table
  pids : PidRing
  /-- Moves at every exit of a registered process. -/
  childExit : Signal
  capacity : Nat
  /-- The process that takes over the children of others. -/
  reaper : Option Pid
deriving DecidableEq

namespace Registry

open Operation

def new (config : Config) : Except Fault Registry := do
  let range ← PidRange.between config.firstPid config.lastPid
  return {
    table := .empty
    pids := .ofRange range
    childExit := {}
    capacity := config.capacity
    reaper := config.reaper }

def parentOf (r : Registry) (pid : Pid) : Option Pid :=
  (r.table.get? pid).map (·.parent)

def isZombie (r : Registry) (pid : Pid) : Option Bool :=
  (r.table.get? pid).map (·.isZombie)

def onTable {α : Type} (x : Operation Table Event α) : Operation Registry Event α :=
  x.zoom Registry.table (fun table r => { r with table }) id

/-- Registers a process without a parent, under an identifier of the caller's choice. -/
def addRoot (pid : Pid) : Operation Registry Event Unit := do
  if pid = noParent then stop (.broken .reservedPid)
  else
    onTable (update (·.insert { pid, parent := noParent }))
    modify fun r => { r with pids := r.pids.skip pid }
    emit (.rootRegistered pid)

def fork (parent : Pid) : Operation Registry Event Pid := do
  let r ← current
  if !r.table.isAlive parent then
    emit (.forkFromUnknown parent)
    fail .esrch
  else if r.capacity ≤ r.table.size then fail .eagain
  else
    let (found, pids) := r.pids.draw r.table.contains
    modify ({ · with pids })
    match found with
    | none => fail .enospc
    | some child =>
      onTable (update (·.insert { pid := child, parent }))
      emit (.forked parent child)
      return child

/-- Takes back the registration of a live process that has no children yet. -/
def rollBack (pid : Pid) : Operation Registry Event Unit := do
  let r ← current
  if r.table.isAlive pid && (r.table.leastChild? pid).isNone then
    let _ ← onTable (transition (·.remove pid))
    emit (.forkRolledBack pid)
  else stop (.broken (.notPending pid))

/-- The process that takes over the children of `pid`: the reaper, if it is alive and not `pid`
itself. -/
def heirOf (r : Registry) (pid : Pid) : Option Pid :=
  r.reaper.filter fun reaper => reaper ≠ pid && r.table.isAlive reaper

/-- Lets one child of an exiting process go: to the heir if there is one, and otherwise into
orphanhood, or out of the table if it is a zombie. -/
def releaseChild (heir : Option Pid) (child : Pid) : Operation Table Event Unit := do
  match heir with
  | some reaper =>
    update (·.reparent child reaper)
    emit (.handedOver child reaper)
  | none =>
    if (← current).isZombie child then
      let _ ← transition (·.remove child)
      emit (.reclaimedWithParent child)
    else
      update (·.reparent child noParent)
      emit (.orphaned child)

def releaseAll (heir : Option Pid) : List Pid → Operation Table Event Unit
  | [] => return ()
  | child :: others => do
    releaseChild heir child
    releaseAll heir others

/-- Takes a process out at its own exit if it has no parent to wait for it. -/
def reclaimIfOrphan (pid : Pid) (record : Record) : Operation Registry Event Unit := do
  if record.isOrphan then
    let _ ← onTable (transition (·.remove pid))
    emit (.reclaimedOnExit pid)

/-- Ends a process. Its children are let go, least first; the process itself stays as a zombie for
its parent, or is taken out at once if it has none. Then all who wait for an exit are notified. The
exit of a process that is not registered changes nothing and notifies nobody. -/
def exit (pid : Pid) (code : Int32) : Operation Registry Event Unit := do
  let r ← current
  match r.table.get? pid with
  | none => emit (.untrackedExit pid)
  | some record =>
    let status := ExitStatus.ofCode code
    let zombie ← ofExcept (record.exit status)
    onTable (modify (·.replace pid zombie))
    emit (.exited pid status)
    onTable (releaseAll (r.heirOf pid) (r.table.children pid))
    reclaimIfOrphan pid record
    modify fun r => { r with childExit := r.childExit.notify }

/-- Fetches the status of `child` for its parent, and with it takes the zombie out of the table. As
long as the child is alive the call sleeps; it is tried again from the start at the next exit. -/
def wait (parent child : Pid) : Operation Registry Event ExitStatus := do
  let r ← current
  match r.table.get? child with
  | none => fail .esrch
  | some record =>
    if parent = noParent ∨ record.parent ≠ parent then fail .echild
    else
      match record.status with
      | none => stop .asleep
      | some status =>
        let _ ← onTable (transition (·.remove child))
        emit (.reaped parent child status)
        return status

end Registry
end ProcessLife
