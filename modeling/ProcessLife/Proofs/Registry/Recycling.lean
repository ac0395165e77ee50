import Mathlib.Data.List.TakeWhile
import Mathlib.Data.Nat.ModEq
import ProcessLife.Proofs.Pid.Cycle
import ProcessLife.Proofs.Registry.Run

/-!
# How late an identifier comes back

A ring only goes forward. Between two draws of one number it comes by all others of the range, and
each of them is handed out then, or is in use just when the ring comes by: one goes ahead of the
other until its turn has come. What a registry hands out it draws, and what is in use is what has a
record, so with identifiers it is the same as long as no root is registered, at which the ring can
leave numbers out: `recycled_last`.
-/

namespace ProcessLife

namespace PidRange

variable {r : PidRange} {pid : Pid} {m n : Nat}

theorem iterate_after_inj (inside : pid ∈ r) (hm : m < r.size.toNat) (hn : n < r.size.toNat)
    (same : r.after^[m] pid = r.after^[n] pid) : m = n := by
  have places := congrArg r.place same
  rw [place_iterate inside, place_iterate inside] at places
  have congruent : m % r.size.toNat = n % r.size.toNat := Nat.ModEq.add_left_cancel' _ places
  rwa [Nat.mod_eq_of_lt hm, Nat.mod_eq_of_lt hn] at congruent

end PidRange

namespace PidRing

/-- The numbers that a draw finds in use: those before the first that is not, in the order of the
circle. -/
def passes (ring : PidRing) (inUse : Pid → Bool) : List Pid :=
  (ring.range.circle ring.next).takeWhile inUse

/-- A draw hands the number out, or finds it in use. -/
def ComesBy (ring : PidRing) (inUse : Pid → Bool) (q : Pid) : Prop :=
  (ring.draw inUse).1 = some q ∨ q ∈ ring.passes inUse ∧ inUse q = true

/-- Draws one after the other, each with the numbers that are in use at that moment. -/
def drawAll (ring : PidRing) (draws : List (Pid → Bool)) : PidRing :=
  draws.foldl (fun ring inUse => (ring.draw inUse).2) ring

@[simp]
theorem drawAll_nil (ring : PidRing) : ring.drawAll [] = ring :=
  rfl

@[simp]
theorem drawAll_cons (ring : PidRing) (inUse : Pid → Bool) (draws : List (Pid → Bool)) :
    ring.drawAll (inUse :: draws) = (ring.draw inUse).2.drawAll draws :=
  rfl

/-- From where the ring stands, `q` comes up before `p`. -/
def Ahead (ring : PidRing) (q p : Pid) : Prop :=
  ∃ j k, j < k ∧ k < ring.range.size.toNat ∧ ring.range.after^[j] ring.next = q ∧
    ring.range.after^[k] ring.next = p

variable {ring : PidRing} {inUse : Pid → Bool} {p q : Pid}

/-- What was drawn comes up after some numbers that were found in use. -/
theorem exists_passes_of_found (inside : ring.next ∈ ring.range)
    (drawn : (ring.draw inUse).1 = some q) :
    ∃ m < ring.range.size.toNat, ring.range.after^[m] ring.next = q ∧
      ∀ i < m, ring.range.after^[i] ring.next ∈ ring.passes inUse := by
  rw [draw_eq_find? inside, List.find?_not_eq_head?_dropWhile] at drawn
  obtain ⟨rest, behind⟩ := List.head?_eq_some_iff.mp drawn
  have parts : ring.range.circle ring.next = ring.passes inUse ++ q :: rest := by
    rw [passes, ← behind, List.takeWhile_append_dropWhile]
  rw [← PidRange.iterate_after_eq_circle inside] at parts
  have length := congrArg List.length parts
  rw [List.length_iterate, List.length_append, List.length_cons] at length
  have place (i : Nat) (lt : i < ring.range.size.toNat) :
      (ring.passes inUse ++ q :: rest)[i]? = some (ring.range.after^[i] ring.next) := by
    rw [← parts, List.getElem?_iterate _ _ _ _ lt]
  refine ⟨(ring.passes inUse).length, by omega, ?_, fun i before => ?_⟩
  · have found := place (ring.passes inUse).length (by omega)
    rw [List.getElem?_append_right (Nat.le_refl _), Nat.sub_self, List.getElem?_cons_zero] at found
    exact (Option.some.inj found).symm
  · have found := place i (by omega)
    rw [List.getElem?_append_left before] at found
    exact List.mem_of_getElem? found

theorem mem_passes_of_none (inside : ring.next ∈ ring.range)
    (drawn : (ring.draw inUse).1 = none) (member : q ∈ ring.range) : q ∈ ring.passes inUse := by
  have used := (draw_eq_none_iff inside).mp drawn
  have all : ring.passes inUse = ring.range.circle ring.next :=
    List.takeWhile_eq_self_iff.mpr fun x here =>
      used x ((PidRange.mem_circle inside).mp here)
  rw [all]
  exact (PidRange.mem_circle inside).mpr member

theorem comesBy_of_mem (found : q ∈ ring.passes inUse) : ring.ComesBy inUse q :=
  Or.inr ⟨found, List.mem_takeWhile_imp found⟩

/-- Where a number was drawn, all others come up before it does again. -/
theorem ahead_of_found (inside : ring.next ∈ ring.range) (drawn : (ring.draw inUse).1 = some p)
    (member : q ∈ ring.range) (other : q ≠ p) : (ring.draw inUse).2.Ahead q p := by
  obtain ⟨member', -⟩ := draw_found inside drawn
  rw [draw_of_found drawn]
  show ∃ j k, j < k ∧ k < ring.range.size.toNat ∧
    ring.range.after^[j] (ring.range.after p) = q ∧ ring.range.after^[k] (ring.range.after p) = p
  obtain ⟨j, lt, here⟩ :=
    PidRange.exists_iterate_after (PidRange.after_mem member') member
  have back : ring.range.after^[ring.range.size.toNat - 1] (ring.range.after p) = p := by
    rw [← Function.iterate_succ_apply, Nat.succ_eq_add_one, Nat.sub_add_cancel (by omega)]
    exact PidRange.iterate_after_size member'
  have before : j ≠ ring.range.size.toNat - 1 := by
    rintro rfl
    exact other (here.symm.trans back)
  exact ⟨j, ring.range.size.toNat - 1, by omega, by omega, here, back⟩

/-- A draw comes by the number ahead, or else that number is still ahead and the other one was not
drawn. -/
theorem Ahead.draw (ahead : ring.Ahead q p) (inside : ring.next ∈ ring.range)
    (inUse : Pid → Bool) :
    ring.ComesBy inUse q ∨ (ring.draw inUse).1 ≠ some p ∧ (ring.draw inUse).2.Ahead q p := by
  obtain ⟨j, k, before, bound, here, there⟩ := ahead
  have member : q ∈ ring.range := here ▸ PidRange.iterate_after_mem inside j
  cases drawn : (ring.draw inUse).1 with
  | none => exact Or.inl (comesBy_of_mem (mem_passes_of_none inside drawn member))
  | some found =>
    obtain ⟨m, lt, place, passed⟩ := exists_passes_of_found inside drawn
    by_cases reached : j ≤ m
    · left
      rcases Nat.lt_or_eq_of_le reached with passing | same
      · exact comesBy_of_mem (here ▸ passed j passing)
      · rw [same, place] at here
        exact Or.inl (here ▸ drawn)
    · right
      have short : m < j := Nat.lt_of_not_le reached
      refine ⟨fun same => ?_, ?_⟩
      · cases same
        have := PidRange.iterate_after_inj inside lt bound (place.trans there.symm)
        omega
      -- Both are nearer now by the numbers that the draw has looked at.
      · rw [draw_of_found drawn, ← place]
        show ∃ j k, j < k ∧ k < ring.range.size.toNat ∧ _ ∧ _
        have nearer (i : Nat) (further : m < i) :
            ring.range.after^[i - (m + 1)] (ring.range.after (ring.range.after^[m] ring.next)) =
              ring.range.after^[i] ring.next := by
          rw [← Function.iterate_succ_apply' ring.range.after, ← Function.iterate_add_apply,
            Nat.sub_add_cancel further]
        exact ⟨j - (m + 1), k - (m + 1), by omega, by omega,
          (nearer j short).trans here, (nearer k (by omega)).trans there⟩

/-- Draws come by the number ahead before they hand out the other one. -/
theorem Ahead.drawAll (draws : List (Pid → Bool)) {inUse : Pid → Bool} (ahead : ring.Ahead q p)
    (inside : ring.next ∈ ring.range)
    (again : ((ring.drawAll draws).draw inUse).1 = some p) :
    ∃ earlier now later, draws ++ [inUse] = earlier ++ now :: later ∧
      (ring.drawAll earlier).ComesBy now q := by
  induction draws generalizing ring with
  | nil =>
    rw [drawAll_nil] at again
    rcases ahead.draw inside inUse with found | ⟨missed, -⟩
    · exact ⟨[], inUse, [], rfl, found⟩
    · exact absurd again missed
  | cons first draws ih =>
    rcases ahead.draw inside first with found | ⟨-, still⟩
    · exact ⟨[], first, draws ++ [inUse], rfl, found⟩
    · rw [drawAll_cons] at again
      obtain ⟨earlier, now, later, parts, found⟩ := ih still (next_draw_mem_range inside) again
      refine ⟨first :: earlier, now, later, ?_, ?_⟩
      · rw [List.cons_append, parts, List.cons_append]
      · rwa [drawAll_cons]

end PidRing

namespace Registry

variable {config : Config} {r₀ : Registry} {first last : Session Registry Request}
  {turns past between rest : List Turn} {p q : Pid}

namespace Turn

/-- The turn of a fork that hands out the identifier, or finds it held by a record. -/
def ComesBy (t : Turn) (q : Pid) : Prop :=
  ∃ parent, t.request = .fork parent ∧
    (t.result = .ok (.forked q) ∨ q ∈ t.before.pids.passes t.before.table.contains ∧
      ∃ record, t.before.table.get? q = some record)

def RegistersNoRoot (t : Turn) : Prop :=
  ∀ pid, t.request ≠ .addRoot pid

/-- Only forks draw from the ring, and what they draw they hand out. -/
theorem draws {t : Turn} (sound : t.before.Sound) (noRoot : t.RegistersNoRoot) :
    t.after.pids = t.before.pids ∧ (∀ c, t.result ≠ .ok (.forked c)) ∨
      ∃ parent, t.request = .fork parent ∧
        t.after.pids = (t.before.pids.draw t.before.table.contains).2 ∧
        ∀ c, t.result = .ok (.forked c) ↔
          (t.before.pids.draw t.before.table.contains).1 = some c := by
  have outcome := t.outcome sound
  generalize asked : t.request = request at outcome
  cases request with
  | addRoot pid => exact absurd asked (noRoot pid)
  | fork parent =>
    by_cases alive : t.before.table.isAlive parent = true
    case neg =>
      have dead := Bool.eq_false_iff.mpr alive
      obtain ⟨result, after⟩ := served asked (run_serve (run_fork_dead dead))
      rw [result, after]
      exact Or.inl ⟨rfl, nofun⟩
    by_cases full : t.before.capacity ≤ t.before.table.size
    · obtain ⟨result, after⟩ := served asked (run_serve (run_fork_full alive full))
      rw [result, after]
      exact Or.inl ⟨rfl, nofun⟩
    refine Or.inr ⟨parent, rfl, ?_⟩
    cases drawn : (t.before.pids.draw t.before.table.contains).1 with
    | none =>
      obtain ⟨result, after⟩ := served asked (run_serve (run_fork_exhausted alive full drawn))
      rw [result, after]
      exact ⟨rfl, by simp [Except.map]⟩
    | some child =>
      obtain ⟨-, unused⟩ := PidRing.draw_found sound.next_mem drawn
      have free : t.before.table.get? child = none := by
        simpa [Table.contains_eq_isSome] using unused
      obtain ⟨table, -, run⟩ := run_fork alive full drawn free
      obtain ⟨result, after⟩ := served asked (run_serve run)
      rw [result, after]
      exact ⟨rfl, by simp [Except.map]⟩
  | rollBack pid | exit pid code | wait parent child =>
    left
    generalize t.result = result at outcome
    generalize t.after = after at outcome
    cases outcome with
    | registered _ registers => simp [Request.Registers] at registers
    | _ => exact ⟨rfl, nofun⟩

/-- A turn comes by the identifier ahead, or else that one is still ahead and the other one was not
handed out. -/
theorem comesBy_or_ahead {t : Turn} (sound : t.before.Sound) (noRoot : t.RegistersNoRoot)
    (ahead : t.before.pids.Ahead q p) :
    t.ComesBy q ∨ t.result ≠ .ok (.forked p) ∧ t.after.pids.Ahead q p := by
  rcases t.draws sound noRoot with ⟨same, none⟩ | ⟨parent, asked, left, answers⟩
  · rw [same]
    exact Or.inr ⟨none p, ahead⟩
  rcases ahead.draw sound.next_mem t.before.table.contains with
    (handed | ⟨passed, held⟩) | ⟨missed, still⟩
  · exact Or.inl ⟨parent, asked, Or.inl ((answers q).mpr handed)⟩
  · rw [Table.contains_eq_isSome] at held
    exact Or.inl ⟨parent, asked, Or.inr ⟨passed, Option.isSome_iff_exists.mp held⟩⟩
  · rw [left]
    exact Or.inr ⟨fun same => missed ((answers p).mp same), still⟩

end Turn

/-- A run without roots comes by the identifier ahead, or else that one is still ahead. -/
theorem comesBy_run (run : Session.Run service first turns last) (sound : first.state.Sound)
    (noRoot : ∀ t ∈ turns, t.RegistersNoRoot) (ahead : first.state.pids.Ahead q p) :
    (∃ t ∈ turns, t.ComesBy q) ∨ last.state.pids.Ahead q p := by
  induction run with
  | stay => exact Or.inr ahead
  | @move first next last m t turns moved _ ih =>
    obtain ⟨found, left⟩ := Turn.of_move moved
    rw [List.forall_mem_cons] at noRoot
    rw [← found] at sound ahead
    rcases Turn.comesBy_or_ahead sound noRoot.1 ahead with here | ⟨-, still⟩
    · exact Or.inl ⟨t, List.mem_cons_self, here⟩
    · rw [← left] at still
      have sound' : next.state.Sound := left ▸ (Turn.outcome t sound).sound sound
      rcases ih sound' noRoot.2 still with ⟨u, member, there⟩ | ahead
      · exact Or.inl ⟨u, List.mem_cons_of_mem _ member, there⟩
      · exact Or.inr ahead

/-- An identifier comes back as late as can be. Whatever is in use at each draw from a ring, and
however many are in vain, between two draws of one number every other number of the range was handed
out, or the ring came by and it was in use, in a draw after the first of the two and not after the
second. In a run of a registry it is the same with two forks that hand out one identifier, as long
as no root is registered between them: every other identifier of the range was handed out by a fork
after the first and not after the second, or such a fork came by and a record held it. -/
theorem recycled_last {ring : PidRing} (inside : ring.next ∈ ring.range)
    (new : Registry.new config = .ok r₀) (run : Session.Run service { state := r₀ } turns last) :
    (∀ (first second : Pid → Bool) (between : List (Pid → Bool)) (p q : Pid),
      (ring.draw first).1 = some p →
      (((ring.draw first).2.drawAll between).draw second).1 = some p → q ∈ ring.range → q ≠ p →
      ∃ earlier now later, between ++ [second] = earlier ++ now :: later ∧
        ((ring.draw first).2.drawAll earlier).ComesBy now q) ∧
    ∀ past between rest s t parent parent' p q, turns = past ++ s :: (between ++ t :: rest) →
      s.request = .fork parent → s.result = .ok (.forked p) →
      t.request = .fork parent' → t.result = .ok (.forked p) →
      (∀ u ∈ between, u.RegistersNoRoot) → config.firstPid ≤ q → q ≤ config.lastPid → q ≠ p →
      ∃ u ∈ between ++ [t], u.ComesBy q := by
  constructor
  · intro first second between p q drawn again member other
    have ahead := PidRing.ahead_of_found inside drawn member other
    exact ahead.drawAll between (PidRing.next_draw_mem_range inside) again
  · rintro past between rest s t parent parent' p q rfl asks answered asks' answered' noRoot lower
      upper other
    have reachable := reachable_before new run (List.mem_append_right past List.mem_cons_self)
    obtain ⟨here, next, -, -, left, later⟩ := Turn.of_run run
    obtain ⟨here', next', middle, found', -, -⟩ := Turn.of_run later
    -- At the first fork the others go ahead of what it hands out.
    have ahead : next.state.pids.Ahead q p := by
      obtain ⟨first, last, -, -⟩ := reachable.follows
      have member : q ∈ s.before.pids.range := ⟨first ▸ lower, last ▸ upper⟩
      rcases s.draws reachable.sound (by simp [Turn.RegistersNoRoot, asks]) with
        ⟨-, none⟩ | ⟨-, -, pids, answers⟩
      · exact absurd answered (none p)
      · rw [left, pids]
        exact PidRing.ahead_of_found reachable.sound.next_mem ((answers p).mp answered) member other
    have sound : next.state.Sound :=
      left ▸ (Turn.outcome s reachable.sound).sound reachable.sound
    rcases comesBy_run middle sound noRoot ahead with ⟨u, member, found⟩ | ahead
    · exact ⟨u, List.mem_append_left _ member, found⟩
    have sound' : t.before.Sound := found' ▸ sound_of_run middle sound
    rcases t.comesBy_or_ahead sound' (by simp [Turn.RegistersNoRoot, asks'])
      (found' ▸ ahead) with found | ⟨missed, -⟩
    · exact ⟨t, by simp, found⟩
    · exact absurd answered' missed

/-- Of three identifiers the first comes back. The second was handed out in the meantime, and the
last is held by a root. Of a ring of the same numbers the second is in use once, when the ring comes
by, and never again. -/
theorem recycled_last_held :
    (∃ earlier now later, [fun pid => pid == 3] ++ [fun _ => false] = earlier ++ now :: later ∧
      (((PidRing.ofRange ⟨2, 4, by decide, by decide⟩).draw fun _ => false).2.drawAll
        earlier).ComesBy now 3) ∧
    ∃ root held s fork exit wait t last, play { firstPid := 2, lastPid := 4 }
        [.call 0 (.addRoot 1), .call 1 (.addRoot 4), .call 2 (.fork 1), .call 3 (.fork 1),
          .call 4 (.exit 2 0), .call 5 (.wait 1 2), .call 6 (.fork 1)] =
            .ok ([root, held] ++ s :: ([fork, exit, wait] ++ t :: []), last) ∧
      s.result = .ok (.forked 2) ∧ t.result = .ok (.forked 2) ∧
      (∃ u ∈ [fork, exit, wait] ++ [t], u.ComesBy 3) ∧
      ∃ u ∈ [fork, exit, wait] ++ [t], u.ComesBy 4 := by
  have played : play { firstPid := 2, lastPid := 4 } [.call 0 (.addRoot 1), .call 1 (.addRoot 4),
    .call 2 (.fork 1), .call 3 (.fork 1), .call 4 (.exit 2 0), .call 5 (.wait 1 2),
    .call 6 (.fork 1)] = .ok ([_, _] ++ _ :: ([_, _, _] ++ _ :: []), _) := rfl
  obtain ⟨r₀, new, run⟩ := run_of_play played
  have inside : (PidRing.ofRange ⟨2, 4, by decide, by decide⟩).next ∈
      (PidRing.ofRange ⟨2, 4, by decide, by decide⟩).range := by decide
  obtain ⟨draws, forks⟩ := recycled_last inside new run
  refine ⟨draws _ _ _ 2 3 (by decide) (by decide) (by decide) (by decide),
    _, _, _, _, _, _, _, _, played, rfl, rfl, ?_, ?_⟩
  · exact forks _ _ _ _ _ 1 1 2 3 rfl rfl rfl rfl rfl (by simp [Turn.RegistersNoRoot])
      (by decide) (by decide) (by decide)
  · exact forks _ _ _ _ _ 1 1 2 4 rfl rfl rfl rfl rfl (by simp [Turn.RegistersNoRoot])
      (by decide) (by decide) (by decide)

end Registry
end ProcessLife
