import ProcessLife.Fault

/-! A ring of identifiers. The numbers of a range are handed out in turn, the first again after
the last, so that a number comes back as late as the processes that hold the others allow. Where
the search starts depends on nothing but the numbers drawn and skipped before. -/

namespace ProcessLife

/-- The numbers from `first` to `last`: at least one, and zero is none of them. -/
structure PidRange where
  first : Pid
  last : Pid
  first_ne : first ≠ noParent
  first_le_last : first ≤ last
deriving DecidableEq

namespace PidRange

def between (first last : Pid) : Except Fault PidRange :=
  if h : first ≠ noParent ∧ first ≤ last then .ok ⟨first, last, h.1, h.2⟩
  else .error (.invalidRange first last)

instance : Membership Pid PidRange where
  mem r pid := r.first ≤ pid ∧ pid ≤ r.last

instance (pid : Pid) (r : PidRange) : Decidable (pid ∈ r) :=
  inferInstanceAs (Decidable (r.first ≤ pid ∧ pid ≤ r.last))

/-- How many numbers there are, which may be one more than the largest number. -/
def size (r : PidRange) : UInt64 :=
  (r.last - r.first).toUInt64 + 1

/-- The number after `pid`, in a circle. -/
def after (r : PidRange) (pid : Pid) : Pid :=
  if pid = r.last then r.first else pid + 1

theorem mem_iff {r : PidRange} {pid : Pid} : pid ∈ r ↔ r.first ≤ pid ∧ pid ≤ r.last :=
  Iff.rfl

theorem first_mem (r : PidRange) : r.first ∈ r :=
  ⟨UInt32.le_refl _, r.first_le_last⟩

theorem ne_noParent_of_mem {r : PidRange} {pid : Pid} (h : pid ∈ r) : pid ≠ noParent := by
  rintro rfl
  exact r.first_ne (UInt32.le_antisymm h.1 UInt32.zero_le)

theorem toNat_size (r : PidRange) : r.size.toNat = r.last.toNat - r.first.toNat + 1 := by
  have := r.first_le_last
  have := r.last.toNat_lt
  rw [size, UInt64.toNat_add, UInt32.toNat_toUInt64, UInt32.toNat_sub_of_le _ _ r.first_le_last,
    UInt64.toNat_one]
  omega

theorem after_mem {r : PidRange} {pid : Pid} (h : pid ∈ r) : r.after pid ∈ r := by
  unfold after
  split
  · exact r.first_mem
  · rename_i hne
    rcases h with ⟨h₁, h₂⟩
    have := r.last.toNat_lt
    simp only [mem_iff, ← UInt32.toNat_inj, UInt32.le_iff_toNat_le, UInt32.toNat_add,
      UInt32.toNat_one] at *
    omega

end PidRange

/-- A range and the number at which the next search begins. -/
structure PidRing where
  range : PidRange
  next : Pid
deriving DecidableEq

namespace PidRing

def ofRange (range : PidRange) : PidRing :=
  ⟨range, range.first⟩

/-- The first number not in use among `n` of them in turn from `pid` on, and the number after the
last one looked at. -/
def search (range : PidRange) (inUse : Pid → Bool) : Nat → Pid → Option Pid × Pid
  | 0, pid => (none, pid)
  | n + 1, pid =>
    if inUse pid then search range inUse n (range.after pid)
    else (some pid, range.after pid)

/-- Hands out the next number that is not in use. Every number of the range is looked at once
before the answer is that there is none. -/
def draw (ring : PidRing) (inUse : Pid → Bool) : Option Pid × PidRing :=
  let (found, next) := search ring.range inUse ring.range.size.toNat ring.next
  (found, { ring with next })

/-- Lets the search go on behind `pid`, unless it is past that number already. -/
def skip (ring : PidRing) (pid : Pid) : PidRing :=
  if ring.next ≤ pid ∧ pid ≤ ring.range.last then { ring with next := ring.range.after pid }
  else ring

@[simp]
theorem range_draw (ring : PidRing) (inUse : Pid → Bool) :
    (ring.draw inUse).2.range = ring.range :=
  rfl

@[simp]
theorem range_skip (ring : PidRing) (pid : Pid) : (ring.skip pid).range = ring.range := by
  unfold skip
  split <;> rfl

theorem search_mem {range : PidRange} {inUse : Pid → Bool} {n : Nat} {pid : Pid}
    (h : pid ∈ range) : (search range inUse n pid).2 ∈ range := by
  induction n generalizing pid with
  | zero => exact h
  | succ n ih =>
    unfold search
    split
    · exact ih (PidRange.after_mem h)
    · exact PidRange.after_mem h

theorem next_draw_mem {ring : PidRing} {inUse : Pid → Bool} (h : ring.next ∈ ring.range) :
    (ring.draw inUse).2.next ∈ ring.range :=
  search_mem h

theorem next_skip_mem {ring : PidRing} {pid : Pid} (h : ring.next ∈ ring.range) :
    (ring.skip pid).next ∈ ring.range := by
  unfold skip
  split
  · rename_i hp
    exact PidRange.after_mem ⟨UInt32.le_trans h.1 hp.1, hp.2⟩
  · exact h

end PidRing
end ProcessLife
