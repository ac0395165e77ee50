import ProcessLife.Pid
import ProcessLife.UserPtr

/-! The system calls that are provided, with their arguments as the caller gives them. -/

namespace ProcessLife

inductive Syscall where
  | getpid
  | getppid
  | fork
  | clone (flags stack : UInt64)
  | exit (status : Int32)
  | exitGroup (status : Int32)
  | waitpid (child : Int32) (status : UserPtr) (options : UInt32)
  | wait4 (child : Int32) (status : UserPtr) (options : UInt32) (rusage : UInt64)
deriving DecidableEq

namespace Syscall

def name : Syscall → String
  | getpid => "sys_getpid"
  | getppid => "sys_getppid"
  | fork => "sys_fork"
  | clone .. => "sys_clone"
  | exit _ => "sys_exit"
  | exitGroup _ => "sys_exit_group"
  | waitpid .. => "sys_waitpid"
  | wait4 .. => "sys_wait4"

def arguments : Syscall → List (String × String)
  | getpid | getppid | fork => []
  | clone flags stack => [("clone_flags", toString flags), ("new_sp", toString stack)]
  | exit status | exitGroup status => [("status", toString status)]
  | waitpid child status options =>
    [("pid", toString child), ("exit_code_ptr", status.text), ("options", toString options)]
  | wait4 child status options rusage =>
    [("pid", toString child), ("exit_code_ptr", status.text), ("options", toString options),
      ("rusage", toString rusage)]

def text (c : Syscall) : String :=
  let arguments := c.arguments.map fun (name, value) => s!"{name} = {value}"
  c.name ++ "(" ++ ", ".intercalate arguments ++ ")"

end Syscall
end ProcessLife
