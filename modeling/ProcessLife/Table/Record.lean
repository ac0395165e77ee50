import ProcessLife.ExitStatus
import ProcessLife.Fault

/-! A process as others see it: who it is, who its parent is, and whether it has exited. One that
has exited stays known as a zombie until its status is fetched. -/

namespace ProcessLife

structure Record where
  pid : Pid
  parent : Pid
  /-- The status, once the process has exited. -/
  status : Option ExitStatus := none
deriving DecidableEq

namespace Record

/-- Nobody will wait for an orphan. -/
def isOrphan (p : Record) : Bool :=
  p.parent == noParent

def isAlive (p : Record) : Bool :=
  p.status.isNone

def isZombie (p : Record) : Bool :=
  p.status.isSome

/-- The process after its end. It ends once. -/
def exit (p : Record) (status : ExitStatus) : Except Fault Record :=
  match p.status with
  | none => .ok { p with status := some status }
  | some _ => .error (.alreadyExited p.pid)

theorem isZombie_eq_not_isAlive (p : Record) : p.isZombie = !p.isAlive := by
  cases h : p.status <;> simp [isZombie, isAlive, h]

end Record
end ProcessLife
