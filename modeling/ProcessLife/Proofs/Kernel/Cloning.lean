import ProcessLife.Proofs.Kernel.Leads

/-!
# Which clones are forks

The flags of a clone are a whole word, of which the high half must be empty, the low byte is the
exit signal, and what is between them must be empty, too. A word is the sum of these three parts. So
of all words just two are accepted, the one without a signal and the one that consists of the usual
signal, and a call with either of them and no stack is a fork in all it does:
`clone_accepts_plain_fork`.
-/

namespace ProcessLife.Kernel

open Operation

variable {k : Kernel} {caller : Pid} {flags stack : UInt64}

/-- A word without a high half is its low half. -/
theorem toUInt64_toUInt32_of_shiftRight (narrow : flags >>> 32 = 0) :
    flags.toUInt32.toUInt64 = flags := by
  have high : flags.toNat / 2 ^ 32 = 0 := by
    have shifted := congrArg UInt64.toNat narrow
    rwa [UInt64.toNat_shiftRight, Nat.shiftRight_eq_div_pow] at shifted
  have small : flags.toNat < 2 ^ 32 := by omega
  rw [← UInt64.toNat_inj, UInt32.toNat_toUInt64, UInt64.toNat_toUInt32, Nat.mod_eq_of_lt small]

/-- A word is put together from what a mask keeps and what it takes away. -/
theorem and_or_and_not (word mask : UInt32) : (word &&& mask) ||| (word &&& ~~~mask) = word := by
  rw [← UInt32.toBitVec_inj, UInt32.toBitVec_or, UInt32.toBitVec_and, UInt32.toBitVec_and,
    UInt32.toBitVec_not, ← BitVec.and_or_distrib_left, BitVec.or_not_self, BitVec.and_allOnes]

/-- The three tests on the parts of a word let just two words through. -/
theorem accepted_iff (flags : UInt64) :
    flags >>> 32 = 0 ∧
        (flags.toUInt32 &&& exitSignalMask = 0 ∨
          flags.toUInt32 &&& exitSignalMask = childSignal) ∧
        flags.toUInt32 &&& ~~~exitSignalMask = 0 ↔
      flags = 0 ∨ flags = 17 := by
  constructor
  · rintro ⟨narrow, signal, rest⟩
    have low := and_or_and_not flags.toUInt32 exitSignalMask
    rw [rest, UInt32.or_zero] at low
    rw [low] at signal
    rw [← toUInt64_toUInt32_of_shiftRight narrow]
    rcases signal with none | usual
    · exact Or.inl (by rw [none]; rfl)
    · exact Or.inr (by rw [usual]; rfl)
  · rintro (rfl | rfl) <;> decide

theorem clone_eq_fork (plain : flags = 0 ∨ flags = 17) : clone caller flags 0 = fork caller := by
  obtain ⟨narrow, signal, rest⟩ := (accepted_iff flags).mpr plain
  have known : ¬ (flags.toUInt32 &&& exitSignalMask ≠ 0 ∧
      flags.toUInt32 &&& exitSignalMask ≠ childSignal) :=
    fun ⟨given, unusual⟩ => signal.elim given unusual
  simp only [clone, narrow, known, rest, ne_eq, not_true_eq_false, if_false]

/-- What is not accepted is refused before anything is asked of the registry or the host. -/
theorem leads_clone_refused (other : ¬ (stack = 0 ∧ (flags = 0 ∨ flags = 17))) :
    (clone caller flags stack).Leads k (.error (.failed .einval)) k := by
  unfold clone
  dsimp only
  split
  · exact leads_emit_fail _
  rename_i narrow
  split
  · exact leads_emit_fail _
  rename_i signal
  split
  · exact leads_emit_fail _
  rename_i rest
  split
  · exact leads_emit_fail _
  rename_i stackless
  -- All four tests are passed, so the word is one of the two.
  refine absurd ⟨Classical.not_not.mp stackless, (accepted_iff flags).mp ⟨?_, ?_, ?_⟩⟩ other
  · exact Classical.not_not.mp narrow
  · by_cases none : flags.toUInt32 &&& exitSignalMask = 0
    · exact Or.inl none
    · exact Or.inr (Classical.not_not.mp fun unusual => signal ⟨none, unusual⟩)
  · exact Classical.not_not.mp rest

/-- Of all clones just the plain forks are accepted. Whatever state the kernel is in, a call without
a stack and with no flags but the usual exit signal, or none, ends as a fork would and leaves what a
fork would leave; with any other word of flags, or with a stack, it fails and leaves the kernel as
it is, also what is armed. -/
theorem clone_accepts_plain_fork (k : Kernel) (caller : Pid) (flags stack : UInt64) :
    let cloned := (call caller (.clone flags stack)).run k
    let forked := (call caller .fork).run k
    if stack = 0 ∧ (flags = 0 ∨ flags = 17) then
      cloned.result = forked.result ∧ cloned.state = forked.state
    else cloned.result = .error (.failed .einval) ∧ cloned.state = k := by
  intro cloned forked
  split
  · rename_i accepted
    obtain ⟨rfl, plain⟩ := accepted
    have same : perform caller (.clone flags 0) = perform caller .fork := by
      rw [perform, perform, clone_eq_fork plain]
    obtain ⟨result, k', fork⟩ : ∃ result k', (perform caller .fork).Leads k result k' :=
      ⟨_, _, leads_run _ k⟩
    have clone : (perform caller (.clone flags 0)).Leads k result k' := same ▸ fork
    obtain ⟨_, ended⟩ := leads_call clone
    obtain ⟨_, ended'⟩ := leads_call fork
    have cloned_eq : cloned = _ := ended
    have forked_eq : forked = _ := ended'
    rw [cloned_eq, forked_eq]
    exact ⟨rfl, rfl⟩
  · rename_i other
    have refused : (perform caller (.clone flags stack)).Leads k (.error (.failed .einval)) k :=
      (leads_clone_refused other).wrap ofPid
    obtain ⟨_, ended⟩ := leads_call refused
    have cloned_eq : cloned = _ := ended
    rw [cloned_eq]
    exact ⟨rfl, rfl⟩

end ProcessLife.Kernel
