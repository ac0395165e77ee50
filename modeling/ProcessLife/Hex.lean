/-! Numbers to the base sixteen. -/

namespace ProcessLife

/-- A number in lower-case digits to the base sixteen, after the mark `0x`. -/
def hex (n : Nat) : String :=
  "0x" ++ String.ofList (Nat.toDigits 16 n)

end ProcessLife
