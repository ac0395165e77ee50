import ProcessLife.Hex

/-! Addresses in the memory of a user process, as a system call gets them. -/

namespace ProcessLife

/-- Where a call is to store a result, if anywhere. -/
structure UserPtr where
  address : UInt64
deriving DecidableEq

namespace UserPtr

def null : UserPtr :=
  ⟨0⟩

def isNull (p : UserPtr) : Bool :=
  p.address == 0

def text (p : UserPtr) : String :=
  if p.isNull then "NULL" else hex p.address.toNat

end UserPtr
end ProcessLife
