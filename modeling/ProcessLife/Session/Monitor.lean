import ProcessLife.Session.Basic

/-! A number under a lock, and calls that wait until it is large enough. A change is seen by the
waiting calls only with a notification, whether it comes with the change or later. -/

namespace ProcessLife

structure Monitor where
  value : Int64 := 0
  changed : Signal := {}
deriving DecidableEq

namespace Monitor

/-- What is asked of a monitor. A change may come with a notification. -/
inductive Request where
  | waitFor (least : Int64)
  | set (value : Int64) (notify : Bool)
  | add (amount : Int64) (notify : Bool)
  | notify
deriving DecidableEq

def notify (m : Monitor) : Monitor :=
  { m with changed := m.changed.notify }

def write (m : Monitor) (value : Int64) (notify : Bool) : Monitor :=
  let m := { m with value }
  if notify then m.notify else m

/-- The answer is the value after the request; a bare notification has none. -/
def attempt {ε : Type} : Request → Operation Monitor ε (Option Int64)
  | .waitFor least => do
    let m ← Operation.current
    if m.value < least then Operation.stop .asleep else return some m.value
  | .set value notify => do
    Operation.modify (·.write value notify)
    return some value
  | .add amount notify => do
    let value := (← Operation.current).value + amount
    Operation.modify (·.write value notify)
    return some value
  | .notify => do
    Operation.modify notify
    return none

def service : Service Monitor Request Empty (Option Int64) where
  signal := Monitor.changed
  announce _ := []
  attempt := attempt

end Monitor
end ProcessLife
