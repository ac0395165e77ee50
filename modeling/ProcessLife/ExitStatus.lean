/-! Exit statuses. A process ends with a code of its own choice; the status that a waiting parent
receives keeps only the low byte of the code and carries it one byte up, the low byte of the status
being kept for other ways to end. `code_ofCode` says that this byte is all that is lost. -/

namespace ProcessLife

structure ExitStatus where
  raw : Int32
deriving DecidableEq

namespace ExitStatus

def ofCode (code : Int32) : ExitStatus :=
  ⟨(code &&& 0xff) <<< 8⟩

/-- The exit code that a status carries, between 0 and 255. -/
def code (s : ExitStatus) : Int32 :=
  (s.raw >>> 8) &&& 0xff

def text (s : ExitStatus) : String :=
  s!"exited({s.code})"

/-- A status gives back the low byte of the code. -/
theorem code_ofCode (c : Int32) : (ofCode c).code = c &&& 0xff := by
  apply Int32.toBitVec_inj.1
  simp only [ofCode, ExitStatus.code, Int32.toBitVec_and, Int32.toBitVec_shiftRight,
    Int32.toBitVec_shiftLeft]
  generalize c.toBitVec = b
  show ((b &&& 255#32) <<< 8).sshiftRight 8 &&& 255#32 = b &&& 255#32
  have byte : (b &&& 255#32).toNat < 256 := by
    rw [BitVec.toNat_and, show (255#32).toNat = 2 ^ 8 - 1 from rfl, Nat.and_two_pow_sub_one_eq_mod]
    omega
  generalize b &&& 255#32 = x at byte
  have shifted : (x <<< 8).toNat = x.toNat * 256 := by
    rw [BitVec.toNat_shiftLeft, Nat.shiftLeft_eq]
    omega
  have msb : (x <<< 8).msb = false := by
    rw [BitVec.msb_eq_decide, shifted]
    simp
    omega
  apply BitVec.eq_of_toNat_eq
  rw [BitVec.sshiftRight_eq_of_msb_false msb, BitVec.toNat_and, BitVec.toNat_ushiftRight, shifted,
    show (255#32).toNat = 2 ^ 8 - 1 from rfl, Nat.and_two_pow_sub_one_eq_mod,
    Nat.shiftRight_eq_div_pow]
  omega

end ExitStatus
end ProcessLife
