/-! Process identifiers. Zero names no process: as a parent it marks a process that nobody will
wait for, and it is never handed out. -/

namespace ProcessLife

abbrev Pid := UInt32

def noParent : Pid := 0

end ProcessLife
