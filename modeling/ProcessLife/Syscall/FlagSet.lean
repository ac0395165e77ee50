import ProcessLife.Hex

/-! Words whose bits have names. A word is written as the names of its bits in the order of the
list, then the bits without a name as one number, with bars between. -/

namespace ProcessLife

abbrev FlagNames := List (UInt32 × String)

namespace FlagNames

/-- All bits that have a name. -/
def mask (names : FlagNames) : UInt32 :=
  names.foldl (fun m entry => m ||| entry.1) 0

def describe (names : FlagNames) (word : UInt32) : String :=
  let named := names.filterMap fun (bit, name) => if word &&& bit = bit then some name else none
  let rest := word &&& ~~~names.mask
  let parts := if rest = 0 then named else named ++ [hex rest.toNat]
  if parts.isEmpty then hex 0 else " | ".intercalate parts

end FlagNames

/-- The flags with which a new process may ask to share things with its parent. -/
def cloneFlagNames : FlagNames :=
  [(0x100, "VM"), (0x200, "FS"), (0x400, "FILES"), (0x800, "SIGHAND"), (0x4000, "VFORK"),
    (0x8000, "PARENT"), (0x10000, "THREAD"), (0x80000, "SETTLS"), (0x100000, "PARENT_SETTID"),
    (0x200000, "CHILD_CLEARTID"), (0x1000000, "CHILD_SETTID")]

def waitOptionNames : FlagNames :=
  [(0x1, "WNOHANG"), (0x2, "WUNTRACED"), (0x4, "WEXITED"), (0x8, "WCONTINUED"),
    (0x1000000, "WNOWAIT"), (0x20000000, "WNOTHREAD"), (0x40000000, "WALL"),
    (0x80000000, "WCLONE")]

end ProcessLife
