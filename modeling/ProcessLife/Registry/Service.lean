import ProcessLife.Registry.Basic
import ProcessLife.Session.Basic

/-! The registry as a service. Of its requests only a wait can sleep, and it sleeps until the next
exit of a registered process. -/

namespace ProcessLife.Registry

inductive Request where
  | addRoot (pid : Pid)
  | fork (parent : Pid)
  | rollBack (pid : Pid)
  | exit (pid : Pid) (code : Int32)
  | wait (parent child : Pid)
deriving DecidableEq

inductive Answer where
  | done
  | forked (child : Pid)
  | reaped (status : ExitStatus)
deriving DecidableEq

def serve : Request → Operation Registry Event Answer
  | .addRoot pid => do
    addRoot pid
    return .done
  | .fork parent => return .forked (← fork parent)
  | .rollBack pid => do
    rollBack pid
    return .done
  | .exit pid code => do
    exit pid code
    return .done
  | .wait parent child => return .reaped (← wait parent child)

def service : Service Registry Request Event Answer where
  signal := Registry.childExit
  announce _ := []
  attempt := serve

end ProcessLife.Registry
