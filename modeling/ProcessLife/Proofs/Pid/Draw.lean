import ProcessLife.Pid.Ring
import Mathlib.Logic.Function.Iterate

/-!
# Drawing from the ring

A number that is drawn is one of the range and was not in use. The numbers of a range make up one
circle: from any of them, as many steps as there are numbers come by all of them and lead back. So
if nothing is drawn then all numbers were in use, and the next search begins where this one did.
-/

namespace ProcessLife

namespace PidRange

variable {r : PidRange} {pid other : Pid} {n : Nat}

def place (r : PidRange) (pid : Pid) : Nat :=
  pid.toNat - r.first.toNat

theorem place_lt (inside : pid ∈ r) : r.place pid < r.size.toNat := by
  have upper := UInt32.le_iff_toNat_le.mp inside.2
  rw [place, toNat_size]
  omega

theorem eq_of_place (inside : pid ∈ r) (inside' : other ∈ r) (same : r.place pid = r.place other) :
    pid = other := by
  have lower := UInt32.le_iff_toNat_le.mp inside.1
  have lower' := UInt32.le_iff_toNat_le.mp inside'.1
  rw [place, place] at same
  apply UInt32.toNat_inj.mp
  omega

/-- Places are counted round the circle. -/
theorem place_after (inside : pid ∈ r) :
    r.place (r.after pid) = (r.place pid + 1) % r.size.toNat := by
  have lower := UInt32.le_iff_toNat_le.mp inside.1
  have upper := UInt32.le_iff_toNat_le.mp inside.2
  have bounded := r.last.toNat_lt
  unfold after
  split
  · rename_i last
    have full : r.place pid + 1 = r.size.toNat := by
      rw [place, toNat_size, last]
    rw [full, Nat.mod_self, place, Nat.sub_self]
  · rename_i inner
    rw [← UInt32.toNat_inj] at inner
    have next : (pid + 1).toNat = pid.toNat + 1 := by
      rw [UInt32.toNat_add, UInt32.toNat_one]
      omega
    have room : r.place pid + 1 < r.size.toNat := by
      rw [place, toNat_size]
      omega
    rw [Nat.mod_eq_of_lt room, place, place, next]
    omega

theorem iterate_after_mem (inside : pid ∈ r) (n : Nat) : r.after^[n] pid ∈ r := by
  induction n with
  | zero => exact inside
  | succ n ih =>
    rw [Function.iterate_succ_apply']
    exact after_mem ih

theorem place_iterate (inside : pid ∈ r) (n : Nat) :
    r.place (r.after^[n] pid) = (r.place pid + n) % r.size.toNat := by
  induction n with
  | zero => exact (Nat.mod_eq_of_lt (place_lt inside)).symm
  | succ n ih =>
    rw [Function.iterate_succ_apply', place_after (iterate_after_mem inside n), ih, Nat.mod_add_mod,
      Nat.add_assoc]

/-- Once round the circle leads back. -/
theorem iterate_after_size (inside : pid ∈ r) : r.after^[r.size.toNat] pid = pid := by
  apply eq_of_place (iterate_after_mem inside _) inside
  rw [place_iterate inside, Nat.add_mod_right, Nat.mod_eq_of_lt (place_lt inside)]

/-- Once round the circle comes by all numbers. -/
theorem exists_iterate_after (inside : pid ∈ r) (inside' : other ∈ r) :
    ∃ n < r.size.toNat, r.after^[n] pid = other := by
  have here := place_lt inside
  have there := place_lt inside'
  by_cases ahead : r.place pid ≤ r.place other
  · refine ⟨r.place other - r.place pid, by omega, ?_⟩
    apply eq_of_place (iterate_after_mem inside _) inside'
    rw [place_iterate inside, Nat.add_sub_cancel' ahead, Nat.mod_eq_of_lt there]
  · refine ⟨r.place other + r.size.toNat - r.place pid, by omega, ?_⟩
    apply eq_of_place (iterate_after_mem inside _) inside'
    have round : r.place pid + (r.place other + r.size.toNat - r.place pid) =
        r.place other + r.size.toNat := by
      omega
    rw [place_iterate inside, round, Nat.add_mod_right, Nat.mod_eq_of_lt there]

end PidRange

namespace PidRing

variable {range : PidRange} {ring : PidRing} {inUse : Pid → Bool} {n : Nat} {pid found : Pid}

theorem search_found (inside : pid ∈ range) (h : (search range inUse n pid).1 = some found) :
    found ∈ range ∧ inUse found = false := by
  induction n generalizing pid with
  | zero => cases h
  | succ n ih =>
    unfold search at h
    split at h
    · exact ih (PidRange.after_mem inside) h
    · rename_i unused
      cases h
      exact ⟨inside, Bool.eq_false_iff.mpr unused⟩

theorem draw_found (inside : ring.next ∈ ring.range) (h : (ring.draw inUse).1 = some found) :
    found ∈ ring.range ∧ inUse found = false :=
  search_found inside h

/-- A search in vain has gone `n` steps, and wherever it came by was in use. -/
theorem search_none (h : (search range inUse n pid).1 = none) :
    (search range inUse n pid).2 = range.after^[n] pid ∧
      ∀ k < n, inUse (range.after^[k] pid) = true := by
  induction n generalizing pid with
  | zero => exact ⟨rfl, fun k lt => absurd lt k.not_lt_zero⟩
  | succ n ih =>
    unfold search at h ⊢
    split at h
    · rename_i used
      obtain ⟨next, others⟩ := ih h
      rw [if_pos used]
      refine ⟨next, fun k lt => ?_⟩
      cases k with
      | zero => exact used
      | succ k => exact others k (Nat.lt_of_succ_lt_succ lt)
    · cases h

/-- Nothing is drawn just if all numbers are in use. -/
theorem draw_eq_none_iff (inside : ring.next ∈ ring.range) :
    (ring.draw inUse).1 = none ↔ ∀ pid ∈ ring.range, inUse pid = true := by
  constructor
  · intro none pid member
    obtain ⟨n, lt, rfl⟩ := PidRange.exists_iterate_after inside member
    exact (search_none none).2 n lt
  · intro used
    cases drawn : (ring.draw inUse).1 with
    | none => rfl
    | some found =>
      obtain ⟨member, free⟩ := draw_found inside drawn
      rw [used found member] at free
      cases free

/-- A search in vain leaves the ring as it was. -/
theorem draw_of_none (inside : ring.next ∈ ring.range) (none : (ring.draw inUse).1 = none) :
    (ring.draw inUse).2 = ring := by
  have next : (ring.draw inUse).2.next = ring.next :=
    (search_none none).1.trans (PidRange.iterate_after_size inside)
  exact congrArg (PidRing.mk ring.range) next

end PidRing
end ProcessLife
