import ProcessLife.Proofs.Pid.Draw
import Mathlib.Data.List.Iterate

/-!
# Once round the circle

From wherever a ring stands, a draw looks at the numbers in one order: up to the last of the range,
and then from the first up to the one before it. It takes the first that is not in use, and stands
behind it then. However a ring was used before, it stands in its range, so that none of the sums on
the way is too large for an identifier: reckoning in which such a sum is refused comes to the same,
which is part of `draws_in_turn`.
-/

namespace ProcessLife

def Pid.ofInt? (n : Int) : Option Pid :=
  if 0 ≤ n ∧ n.toNat < UInt32.size then some (.ofNat n.toNat) else none

theorem Pid.ofInt?_natCast {n : Nat} (small : n < 2 ^ 32) :
    Pid.ofInt? n = some (.ofNat n) := by
  rw [ofInt?, Int.toNat_natCast, if_pos ⟨Int.natCast_nonneg n, small⟩]

namespace PidRange

/-- The number after `pid`, where a sum that is too large is refused. -/
def after? (r : PidRange) (pid : Pid) : Option Pid :=
  if pid = r.last then some r.first else Pid.ofInt? (pid.toNat + 1)

/-- How many numbers there are. The difference has to be an identifier, and the sum has to fit into
twice as many bits. -/
def size? (r : PidRange) : Option UInt64 := do
  let span ← Pid.ofInt? (r.last.toNat - r.first.toNat)
  if span.toNat + 1 < 2 ^ 64 then some (span.toUInt64 + 1) else none

/-- All numbers of the range, in the order in which they come up from `pid` on. -/
def circle (r : PidRange) (pid : Pid) : List Pid :=
  (List.range' pid.toNat (r.last.toNat + 1 - pid.toNat) ++
    List.range' r.first.toNat (pid.toNat - r.first.toNat)).map .ofNat

variable {r : PidRange} {pid : Pid} {n : Nat}

theorem toNat_after (inside : pid ∈ r) (inner : pid ≠ r.last) :
    (r.after pid).toNat = pid.toNat + 1 := by
  have upper := UInt32.le_iff_toNat_le.mp inside.2
  have bounded := r.last.toNat_lt
  rw [Ne, ← UInt32.toNat_inj] at inner
  rw [after, if_neg (by rwa [← UInt32.toNat_inj]), UInt32.toNat_add, UInt32.toNat_one]
  omega

/-- Only behind a number that is not the last one is added, so the sum is a number of the range. -/
theorem after?_eq (inside : pid ∈ r) : r.after? pid = some (r.after pid) := by
  by_cases last : pid = r.last
  · rw [after?, after, if_pos last, if_pos last]
  · have exact := toNat_after inside last
    have small := (r.after pid).toNat_lt
    rw [exact] at small
    rw [after?, if_neg last, ← Int.natCast_succ, Pid.ofInt?_natCast small]
    rw [Option.some_inj, ← UInt32.toNat_inj, exact, UInt32.toNat_ofNat_of_lt' small]

theorem size?_eq (r : PidRange) : r.size? = some r.size := by
  have ordered := UInt32.le_iff_toNat_le.mp r.first_le_last
  have bounded := r.last.toNat_lt
  have small : r.last.toNat - r.first.toNat < 2 ^ 32 := by omega
  have span : UInt32.ofNat (r.last.toNat - r.first.toNat) = r.last - r.first := by
    rw [← UInt32.toNat_inj, UInt32.toNat_ofNat_of_lt' small,
      UInt32.toNat_sub_of_le _ _ r.first_le_last]
  have wide : (r.last - r.first).toNat + 1 < 2 ^ 64 := by
    have := (r.last - r.first).toNat_lt
    omega
  rw [size?, ← Int.natCast_sub ordered, Pid.ofInt?_natCast small, span, Option.bind_eq_bind,
    Option.bind_some, if_pos wide, size]

/-- As long as the last number is not passed, one goes straight up. -/
theorem iterate_after_up (inside : pid ∈ r) (room : pid.toNat + n ≤ r.last.toNat + 1) :
    List.iterate r.after pid n = (List.range' pid.toNat n).map .ofNat := by
  induction n generalizing pid with
  | zero => rfl
  | succ n ih =>
    rw [List.iterate, List.range'_succ, List.map_cons, UInt32.ofNat_toNat]
    by_cases last : pid = r.last
    · have done : n = 0 := by
        rw [last] at room
        omega
      subst done
      rfl
    · have next := toNat_after inside last
      have rest := ih (after_mem inside) (by omega)
      rw [rest, next]

/-- Once round from `pid`, one comes by the numbers from `pid` to the last, and then by those from
the first up to `pid`. -/
theorem iterate_after_eq_circle (inside : pid ∈ r) :
    List.iterate r.after pid r.size.toNat = r.circle pid := by
  have lower := UInt32.le_iff_toNat_le.mp inside.1
  have upper := UInt32.le_iff_toNat_le.mp inside.2
  have parts : r.size.toNat =
      (r.last.toNat + 1 - pid.toNat) + (pid.toNat - r.first.toNat) := by
    rw [toNat_size]
    omega
  -- Behind the last number the way goes on at the first.
  have wrapped : r.after^[r.last.toNat + 1 - pid.toNat] pid = r.first := by
    apply eq_of_place (iterate_after_mem inside _) r.first_mem
    have full : r.place pid + (r.last.toNat + 1 - pid.toNat) = r.size.toNat := by
      rw [place, toNat_size]
      omega
    rw [place_iterate inside, full, Nat.mod_self, place, Nat.sub_self]
  rw [parts, List.iterate_add, wrapped, iterate_after_up inside (by omega),
    iterate_after_up r.first_mem (by omega), circle, List.map_append]

theorem mem_circle (inside : pid ∈ r) {other : Pid} : other ∈ r.circle pid ↔ other ∈ r := by
  rw [← iterate_after_eq_circle inside, List.mem_iterate]
  constructor
  · rintro ⟨n, -, rfl⟩
    exact iterate_after_mem inside n
  · intro inside'
    obtain ⟨n, lt, same⟩ := exists_iterate_after inside inside'
    exact ⟨n, lt, same.symm⟩

end PidRange

namespace PidRing

/-- What a ring is used for: a number is drawn while some are in use, or one is set aside. -/
inductive Use where
  | draw (inUse : Pid → Bool)
  | skip (pid : Pid)

def use (ring : PidRing) : Use → PidRing
  | .draw inUse => (ring.draw inUse).2
  | .skip pid => ring.skip pid

def search? (range : PidRange) (inUse : Pid → Bool) : Nat → Pid → Option (Option Pid × Pid)
  | 0, pid => some (none, pid)
  | n + 1, pid => do
    let next ← range.after? pid
    if inUse pid then search? range inUse n next else some (some pid, next)

def draw? (ring : PidRing) (inUse : Pid → Bool) : Option (Option Pid × PidRing) := do
  let size ← ring.range.size?
  let (found, next) ← search? ring.range inUse size.toNat ring.next
  return (found, { ring with next })

def skip? (ring : PidRing) (pid : Pid) : Option PidRing :=
  if ring.next ≤ pid ∧ pid ≤ ring.range.last then
    (ring.range.after? pid).map fun next => { ring with next }
  else some ring

variable {range : PidRange} {ring : PidRing} {inUse : Pid → Bool} {n : Nat} {pid found : Pid}

theorem search?_eq (inside : pid ∈ range) :
    search? range inUse n pid = some (search range inUse n pid) := by
  induction n generalizing pid with
  | zero => rfl
  | succ n ih =>
    rw [search?, search, PidRange.after?_eq inside, Option.bind_eq_bind, Option.bind_some]
    split
    · exact ih (PidRange.after_mem inside)
    · rfl

theorem draw?_eq (inside : ring.next ∈ ring.range) :
    ring.draw? inUse = some (ring.draw inUse) := by
  rw [draw?, PidRange.size?_eq, Option.bind_eq_bind, Option.bind_some, search?_eq inside]
  rfl

theorem skip?_eq (inside : ring.next ∈ ring.range) : ring.skip? pid = some (ring.skip pid) := by
  unfold skip? skip
  split
  · rename_i ahead
    have member : pid ∈ ring.range := ⟨UInt32.le_trans inside.1 ahead.1, ahead.2⟩
    rw [PidRange.after?_eq member]
    rfl
  · rfl

/-- A search goes along until it meets a number that is not in use. -/
theorem search_eq_find? (range : PidRange) (inUse : Pid → Bool) (n : Nat) (pid : Pid) :
    (search range inUse n pid).1 = (List.iterate range.after pid n).find? (!inUse ·) := by
  induction n generalizing pid with
  | zero => rfl
  | succ n ih =>
    rw [search, List.iterate, List.find?_cons]
    cases used : inUse pid with
    | true => exact ih (range.after pid)
    | false => rfl

/-- It ends behind the number that it found. -/
theorem search_next (h : (search range inUse n pid).1 = some found) :
    (search range inUse n pid).2 = range.after found := by
  induction n generalizing pid with
  | zero => cases h
  | succ n ih =>
    unfold search at h ⊢
    split at h
    · rename_i used
      rw [if_pos used]
      exact ih h
    · rename_i unused
      cases h
      rw [if_neg unused]

theorem draw_eq_find? (inside : ring.next ∈ ring.range) :
    (ring.draw inUse).1 = (ring.range.circle ring.next).find? (!inUse ·) := by
  rw [← PidRange.iterate_after_eq_circle inside]
  exact search_eq_find? ring.range inUse ring.range.size.toNat ring.next

theorem draw_of_found (drawn : (ring.draw inUse).1 = some found) :
    (ring.draw inUse).2 = { ring with next := ring.range.after found } := by
  have searched : (search ring.range inUse ring.range.size.toNat ring.next).1 = some found := drawn
  exact congrArg (PidRing.mk ring.range) (search_next searched)

/-- After a draw the ring still stands in its range. -/
theorem next_draw_mem_range (inside : ring.next ∈ ring.range) :
    (ring.draw inUse).2.next ∈ (ring.draw inUse).2.range := by
  rw [range_draw]
  exact next_draw_mem inside

/-- However it is used, a ring stands in its range, which stays the same. -/
theorem next_use_mem (inside : ring.next ∈ ring.range) (u : Use) :
    (ring.use u).next ∈ (ring.use u).range ∧ (ring.use u).range = ring.range := by
  cases u with
  | draw inUse => exact ⟨next_draw_mem_range inside, range_draw ring inUse⟩
  | skip pid =>
    rw [use, range_skip]
    exact ⟨next_skip_mem inside, rfl⟩

theorem next_foldl_use_mem (ring : PidRing) (inside : ring.next ∈ ring.range) (uses : List Use) :
    (uses.foldl use ring).next ∈ (uses.foldl use ring).range ∧
      (uses.foldl use ring).range = ring.range := by
  induction uses generalizing ring with
  | nil => exact ⟨inside, rfl⟩
  | cons u uses ih =>
    obtain ⟨inside', same⟩ := next_use_mem inside u
    obtain ⟨last, kept⟩ := ih (ring.use u) inside'
    exact ⟨last, kept.trans same⟩

/-- A draw goes once round. A range of numbers that does not begin with zero has a ring, and however
that ring was used, it stands at a number of the range. No difference or sum is too small or too
large for an identifier, neither in a draw nor where a number is set aside; only for how many
numbers there are more bits are needed. What is drawn is the first number not in use of those from
where the ring stands up to the last, and then from the first on, and the ring stands at the number
after it in the circle. If nothing is drawn then all numbers are in use, and the ring stands where
it stood. -/
theorem draws_in_turn {first last : Pid} (positive : 0 < first) (ordered : first ≤ last) :
    ∃ range, PidRange.between first last = .ok range ∧
      range.first = first ∧ range.last = last ∧
      range.size.toNat = last.toNat - first.toNat + 1 ∧
      ∀ (uses : List Use) (inUse : Pid → Bool) (pid : Pid),
        let ring := uses.foldl use (ofRange range)
        let drawn := ring.draw inUse
        ring.range = range ∧ first ≤ ring.next ∧ ring.next ≤ last ∧
        ring.draw? inUse = some drawn ∧ ring.skip? pid = some (ring.skip pid) ∧
        drawn.1 = (range.circle ring.next).find? (!inUse ·) ∧
        (∀ found, drawn.1 = some found →
          drawn.2 = { ring with next := if found = last then first else found + 1 }) ∧
        (drawn.1 = none ↔ ∀ q, first ≤ q → q ≤ last → inUse q = true) ∧
        (drawn.1 = none → drawn.2 = ring) := by
  have named : first ≠ noParent := by
    rintro rfl
    exact absurd positive (by decide)
  obtain ⟨range, new, rfl, rfl⟩ : ∃ range, PidRange.between first last = .ok range ∧
      range.first = first ∧ range.last = last := ⟨_, dif_pos ⟨named, ordered⟩, rfl, rfl⟩
  refine ⟨range, new, rfl, rfl, range.toNat_size, ?_⟩
  intro uses inUse pid ring drawn
  obtain ⟨inside, same⟩ := next_foldl_use_mem (ofRange range) range.first_mem uses
  have same : ring.range = range := same
  have inside : ring.next ∈ ring.range := inside
  have member : ring.next ∈ range := same ▸ inside
  refine ⟨same, member.1, member.2, draw?_eq inside, skip?_eq inside, ?_, ?_, ?_,
    draw_of_none inside⟩
  · rw [← same]
    exact draw_eq_find? inside
  · intro found answer
    rw [← same]
    exact draw_of_found answer
  · have used : drawn.1 = none ↔ ∀ q ∈ ring.range, inUse q = true := draw_eq_none_iff inside
    rw [same] at used
    constructor
    · intro none q lower upper
      exact used.mp none q ⟨lower, upper⟩
    · intro all
      exact used.mpr fun q inside => all q inside.1 inside.2

/-- The two largest identifiers. The larger one is set aside, whereupon the ring stands at the
smaller one, which is drawn; then it stands at the largest of all, which is drawn, and there is no
number after it but the first. -/
theorem draws_in_turn_to_the_top :
    ∃ range, PidRange.between 4294967294 4294967295 = .ok range ∧
      let ring := [Use.skip 4294967295, .draw fun _ => false].foldl use (ofRange range)
      ring.next = 4294967295 ∧ range.circle ring.next = [4294967295, 4294967294] ∧
      (ring.draw fun _ => false).1 = some 4294967295 ∧
      (ring.draw fun _ => false).2.next = 4294967294 ∧
      (ring.draw? fun _ => false) = some (ring.draw fun _ => false) := by
  obtain ⟨range, new, first, last, -, turns⟩ :=
    @draws_in_turn 4294967294 4294967295 (by decide) (by decide)
  obtain rfl : range = ⟨4294967294, 4294967295, by decide, by decide⟩ := (Except.ok.inj new).symm
  obtain ⟨-, -, -, checked, -, drawn, next, -⟩ :=
    turns [.skip 4294967295, .draw fun _ => false] (fun _ => false) 0
  have answer : _ = some (4294967295 : Pid) := drawn.trans (by decide)
  exact ⟨_, new, by decide, by decide, answer, congrArg PidRing.next (next _ answer), checked⟩

end PidRing
end ProcessLife
