import ProcessLife.Proofs.Registry.Release

/-!
# Exit in one step

An exit marks the process, lets its children go one by one, and takes the process out if nobody
will wait for it. On a sound registry this has the same effect as rewriting all records at once,
which is `Table.exited`. The only other way it can end is that the process is its own child: then
it is reclaimed among its children, and the rule that a process taken out has no children is broken
if a larger child is still left. Such a process is called knotted.
-/

namespace ProcessLife

namespace Table

open Registry

/-- The record under `q` once `pid` has exited. -/
def exited (t : Table) (heir : Option Pid) (pid : Pid) (status : ExitStatus) (q : Pid) :
    Option Record :=
  (t.get? q).bind fun p =>
    let p := if q = pid then { p with status := some status } else p
    if p.parent = pid then p.released heir
    else if q = pid ∧ p.parent = noParent then none
    else some p

/-- A process that is its own parent and has a child larger than itself. -/
def Knotted (t : Table) (pid : Pid) : Prop :=
  t.parentOf pid = some pid ∧ ∃ c, pid < c ∧ t.parentOf c = some pid

/-- The record under `q` after the exit of a knotted process broke off. The larger children keep a
parent that is not registered any more. -/
def brokenOff (t : Table) (pid q : Pid) : Option Record :=
  (t.get? q).bind fun p =>
    if q = pid then none
    else if p.parent = pid ∧ q < pid then p.released none
    else some p

/-- Where a record comes from that is there after an exit. -/
theorem exited_eq_some {t : Table} {heir : Option Pid} {pid q : Pid} {status : ExitStatus}
    {p : Record} (h : t.exited heir pid status q = some p) :
    ∃ c, t.get? q = some c ∧ p.status = (if q = pid then some status else c.status) ∧
      ((c.parent = pid ∧ p.parent = heir.getD noParent ∧
          (heir = none → q ≠ pid ∧ c.status = none)) ∨
        (c.parent ≠ pid ∧ p.parent = c.parent ∧ (q = pid → c.parent ≠ noParent))) := by
  obtain ⟨c, found, h⟩ := Option.bind_eq_some_iff.mp h
  refine ⟨c, found, ?_⟩
  by_cases same : q = pid
  · simp only [if_pos same] at h
    split at h
    · rename_i child
      refine ⟨by simp [status_released h, same], Or.inl ⟨child, parent_released h, ?_⟩⟩
      rintro rfl
      cases live_of_released h
    · rename_i other
      split at h <;> cases h
      rename_i owned
      exact ⟨by simp [same], Or.inr ⟨other, rfl, fun _ orphan => owned ⟨same, orphan⟩⟩⟩
  · simp only [if_neg same] at h
    split at h
    · rename_i child
      refine ⟨by simp [status_released h, same], Or.inl ⟨child, parent_released h, ?_⟩⟩
      rintro rfl
      exact ⟨same, live_of_released h⟩
    · rename_i other
      split at h <;> cases h
      exact ⟨by simp [same], Or.inr ⟨other, rfl, fun h => absurd h same⟩⟩

theorem exited_of_ne {t : Table} {heir : Option Pid} {pid q : Pid} {status : ExitStatus}
    {c : Record} (found : t.get? q = some c) (other : q ≠ pid) :
    t.exited heir pid status q = if c.parent = pid then c.released heir else some c := by
  simp [exited, found, other]

theorem brokenOff_eq_some {t : Table} {pid q : Pid} {p : Record}
    (h : t.brokenOff pid q = some p) :
    ∃ c, t.get? q = some c ∧ q ≠ pid ∧ p.status = c.status ∧
      ((c.parent = pid ∧ q < pid ∧ p.parent = noParent ∧ c.status = none) ∨
        (¬ (c.parent = pid ∧ q < pid) ∧ p.parent = c.parent)) := by
  obtain ⟨c, found, h⟩ := Option.bind_eq_some_iff.mp h
  refine ⟨c, found, ?_⟩
  split at h
  · cases h
  · rename_i other
    split at h
    · rename_i child
      exact ⟨other, status_released h,
        Or.inl ⟨child.1, child.2, parent_released h, live_of_released h⟩⟩
    · rename_i larger
      cases h
      exact ⟨other, rfl, Or.inr ⟨larger, rfl⟩⟩

def mark (t : Table) (pid : Pid) (p : Record) (status : ExitStatus) : Table :=
  t.replace pid { p with status := some status }

variable {t : Table} {pid : Pid} {p : Record} {status : ExitStatus}

theorem get?_mark (q : Pid) :
    (t.mark pid p status).get? q =
      if q = pid then some { p with status := some status } else t.get? q :=
  get?_replace t pid q _

theorem parentOf_mark (found : t.get? pid = some p) (q : Pid) :
    (t.mark pid p status).parentOf q = t.parentOf q := by
  unfold parentOf
  rw [get?_mark]
  split
  · simp [*]
  · rfl

theorem Consistent.mark (h : t.Consistent) (found : t.get? pid = some p) :
    (t.mark pid p status).Consistent :=
  h.replace found rfl rfl

end Table

namespace Registry

open Operation

/-- What holds of a registry at all times, even after broken rules. -/
structure Sound (r : Registry) : Prop where
  consistent : r.table.Consistent
  /-- Nobody is the child of a zombie. -/
  childless : ∀ {z p}, r.table.get? z = some p → p.isZombie = true →
    ∀ c, r.table.parentOf c ≠ some z
  /-- A zombie is kept for a parent. -/
  owned : ∀ {z p}, r.table.get? z = some p → p.isZombie = true → p.parent ≠ noParent
  /-- Only the reaper can come to be its own parent. -/
  ownParent : ∀ {pid}, r.table.parentOf pid = some pid → r.reaper = some pid
  next_mem : r.pids.next ∈ r.pids.range

variable {r : Registry} {pid reaper : Pid} {p : Record}

theorem heirOf_eq_some_iff :
    r.heirOf pid = some reaper ↔
      r.reaper = some reaper ∧ reaper ≠ pid ∧ r.table.isAlive reaper = true := by
  simp [heirOf, Option.filter_eq_some_iff]

theorem Sound.heirOf_eq_none (sound : r.Sound) (own : r.table.parentOf pid = some pid) :
    r.heirOf pid = none := by
  simp [heirOf, sound.ownParent own]

/-- Zombies have no children, so they are not knotted. -/
theorem Sound.live_of_knotted (sound : r.Sound) (knot : r.table.Knotted pid) :
    ∃ p, r.table.get? pid = some p ∧ p.status = none := by
  obtain ⟨p, found, -⟩ := Table.get?_of_parentOf knot.1
  refine ⟨p, found, ?_⟩
  cases status : p.status with
  | none => rfl
  | some s =>
    exact absurd knot.1 (sound.childless found (by simp [Record.isZombie, status]) pid)

variable {status : ExitStatus}

theorem heirOf_ne (r : Registry) : r.heirOf pid ≠ some pid :=
  fun h => (heirOf_eq_some_iff.mp h).2.1 rfl

/-- Any part of the family can be let go, as long as the process is not to be reclaimed among its
own children. -/
theorem Sound.releasable (sound : r.Sound) (found : r.table.get? pid = some p)
    {children : List Pid} (family : ∀ c ∈ children, c ∈ r.table.children pid)
    (other : r.heirOf pid = none → pid ∉ children) (nodup : children.Nodup) :
    Releasable (r.table.mark pid p status) (r.heirOf pid) children := by
  have named := sound.consistent.ne_noParent found
  refine ⟨sound.consistent.mark found, ?_, ?_, ?_, nodup⟩
  · intro reaper h
    obtain ⟨-, ne, alive⟩ := heirOf_eq_some_iff.mp h
    simpa [Table.isAlive, Table.get?_mark, ne] using alive
  · intro c hc
    have child := (sound.consistent.mem_children named).mp (family c hc)
    obtain ⟨q, hq, -⟩ := Table.get?_of_parentOf child
    rw [Table.get?_mark]
    split
    · exact ⟨_, rfl⟩
    · exact ⟨q, hq⟩
  · intro none c hc zombie d hd
    have ne : c ≠ pid := fun same => other none (same ▸ hc)
    rw [Table.parentOf_mark found] at hd
    obtain ⟨z, s, hz, hs⟩ := Table.isZombie_iff.mp zombie
    rw [Table.get?_mark, if_neg ne] at hz
    exact sound.childless hz (by simp [Record.isZombie, hs]) d hd

/-- If the process is not reclaimed among its children, the whole family is let go. -/
theorem Sound.run_releaseAll (sound : r.Sound) (status : ExitStatus)
    (found : r.table.get? pid = some p)
    (other : r.heirOf pid = none → r.table.parentOf pid ≠ some pid) :
    ∃ u events, (releaseAll (r.heirOf pid) (r.table.children pid)).run (r.table.mark pid p status) =
        ⟨.ok (), u, events⟩ ∧ u.Consistent ∧
      ∀ q, u.get? q = ((r.table.mark pid p status).get? q).bind fun c =>
        if c.parent = pid then c.released (r.heirOf pid) else some c := by
  have named := sound.consistent.ne_noParent found
  have mem {c} := sound.consistent.mem_children (c := c) named
  have ready : Releasable (r.table.mark pid p status) (r.heirOf pid) (r.table.children pid) :=
    sound.releasable found (fun _ h => h) (fun none h => other none (mem.mp h))
      ((r.table.children_ascending pid).imp fun lt => UInt32.ne_of_lt lt)
  obtain ⟨u, events, run, consistent, done⟩ := Registry.run_releaseAll ready
  refine ⟨u, events, run, consistent, fun q => ?_⟩
  have member : q ∈ r.table.children pid ↔ (r.table.mark pid p status).parentOf q = some pid := by
    rw [mem, Table.parentOf_mark found]
  rw [done]
  cases hq : (r.table.mark pid p status).get? q with
  | none => simp
  | some c =>
    rw [Table.parentOf_of_get? hq, Option.some.injEq] at member
    simp only [Option.bind_some, member]

/-- A process that is its own child is reclaimed among its children, after the smaller ones. The
larger ones are never reached. -/
theorem Sound.run_releaseAll_own (sound : r.Sound) (status : ExitStatus)
    (found : r.table.get? pid = some p)
    (own : r.table.parentOf pid = some pid) :
    ∃ result u events, (releaseAll (r.heirOf pid) (r.table.children pid)).run
        (r.table.mark pid p status) = ⟨result, u, events⟩ ∧ u.Consistent ∧
      (∀ q, u.get? q = r.table.brokenOff pid q) ∧
      (r.table.Knotted pid → result = .error (.broken (.stillHasChildren pid))) ∧
      (¬ r.table.Knotted pid → result = .ok ()) := by
  have named := sound.consistent.ne_noParent found
  have mem {c} := sound.consistent.mem_children (c := c) named
  have none := sound.heirOf_eq_none own
  obtain ⟨smaller, larger, split⟩ := List.append_of_mem (mem.mpr own)
  have sorted := r.table.children_ascending pid
  rw [split, List.pairwise_append, List.pairwise_cons] at sorted
  obtain ⟨sorted₁, ⟨above, -⟩, below⟩ := sorted
  have below : ∀ c ∈ smaller, c < pid := fun c hc => below c hc pid List.mem_cons_self
  have smaller_iff {c} : c ∈ smaller ↔ r.table.parentOf c = some pid ∧ c < pid := by
    rw [← mem, split, List.mem_append, List.mem_cons]
    constructor
    · exact fun hc => ⟨Or.inl hc, below c hc⟩
    · rintro ⟨hc | rfl | hc, lt⟩
      · exact hc
      · exact absurd lt (UInt32.lt_irrefl c)
      · exact absurd (UInt32.lt_trans lt (above c hc)) (UInt32.lt_irrefl c)
  have fresh : pid ∉ smaller := fun h => UInt32.lt_irrefl pid (below pid h)
  have ready : Releasable (r.table.mark pid p status) (r.heirOf pid) smaller :=
    sound.releasable found (fun c hc => split ▸ List.mem_append_left _ hc) (fun _ => fresh)
      (sorted₁.imp fun lt => UInt32.ne_of_lt lt)
  rw [none] at ready
  obtain ⟨m, told, run, consistent, done⟩ := Registry.run_releaseAll ready
  have look : m.get? pid = some { p with status := some status } := by
    rw [done, if_neg fresh, Table.get?_mark, if_pos rfl]
  have zombie : m.isZombie pid = true := by simp [Table.isZombie, Record.isZombie, look]
  obtain ⟨result, u, events, step, consistent, gone, ended, stuck⟩ :=
    run_releaseChild Option.none consistent look
  have table (q) : u.get? q = r.table.brokenOff pid q := by
    rw [gone, done, Table.get?_mark, Table.brokenOff]
    by_cases hq : q = pid
    · simp [hq, fresh, found, Record.released, Record.isZombie]
    · cases h : r.table.get? q with
      | none => simp [hq]
      | some c =>
        have := smaller_iff (c := q)
        rw [Table.parentOf_of_get? h, Option.some.injEq] at this
        simp only [List.mem_singleton, if_neg hq, Option.bind_some, this]
  have left {c} (hc : c ∉ smaller) : m.parentOf c = r.table.parentOf c := by
    rw [Table.parentOf, done, if_neg hc]
    exact Table.parentOf_mark found c
  rw [split, none, run_releaseAll_append, run, Reply.andThen_ok, releaseAll, run_bind, step]
  by_cases knot : r.table.Knotted pid
  · obtain ⟨-, c, lt, child⟩ := knot
    have hc : c ∉ smaller := fun h => UInt32.lt_irrefl c (UInt32.lt_trans (below c h) lt)
    cases stuck rfl zombie ⟨c, (left hc).trans child, (UInt32.ne_of_lt lt).symm⟩
    exact ⟨_, u, _, rfl, consistent, table, fun _ => rfl, fun no => absurd ⟨own, c, lt, child⟩ no⟩
  · have last : larger = [] := by
      refine List.eq_nil_iff_forall_not_mem.mpr fun c hc => knot ⟨own, c, above c hc, ?_⟩
      exact mem.mp (split ▸ List.mem_append_right _ (List.mem_cons_of_mem _ hc))
    have childless : ∀ c, m.parentOf c = some pid → c = pid := by
      intro c child
      by_cases hc : c ∈ smaller
      · rw [Table.parentOf, done, if_pos hc] at child
        obtain ⟨d, hd, parent⟩ := Option.map_eq_some_iff.mp child
        obtain ⟨q, -, hq⟩ := Option.bind_eq_some_iff.mp hd
        rw [parent_released hq] at parent
        exact absurd parent.symm named
      · rw [left hc, ← mem, split, last, List.mem_append, List.mem_singleton] at child
        exact child.resolve_left hc
    cases ended fun _ _ => childless
    refine ⟨_, u, told ++ (events ++ []), ?_, consistent, table, fun yes => absurd yes knot,
      fun _ => rfl⟩
    simp [last, releaseAll]

variable {code : Int32}

theorem run_exit_unregistered (missing : r.table.get? pid = none) :
    (exit pid code).run r = ⟨.ok (), r, [.untrackedExit pid]⟩ := by
  simp [exit, missing]

theorem run_exit_zombie (found : r.table.get? pid = some p) (dead : p.isZombie = true) :
    (exit pid code).run r = ⟨.error (.broken (.alreadyExited p.pid)), r, []⟩ := by
  obtain ⟨status, h⟩ := Option.isSome_iff_exists.mp dead
  simp [exit, found, Record.exit, h]

/-- After the mark and the release, a process without a parent is taken out. -/
theorem run_exit_live (found : r.table.get? pid = some p) (live : p.status = none)
    {result : Except Stop Unit} {u : Table} {events : List Event}
    (run : (releaseAll (r.heirOf pid) (r.table.children pid)).run
      (r.table.mark pid p (.ofCode code)) = ⟨result, u, events⟩) :
    (exit pid code).run r =
      (Reply.mk result { r with table := u } (.exited pid (.ofCode code) :: events)).andThen
        fun _ => (do
          reclaimIfOrphan pid p
          modify fun r => { r with childExit := r.childExit.notify }).run := by
  rw [Table.mark] at run
  cases result <;> simp [exit, onTable, found, Record.exit, live, run]

/-- The exit of a live process that is not knotted ends with everybody notified and with all records
rewritten at once. -/
theorem Sound.run_exit (sound : r.Sound) (code : Int32) (found : r.table.get? pid = some p)
    (live : p.status = none) (free : ¬ r.table.Knotted pid) :
    ∃ t events, (exit pid code).run r =
        ⟨.ok (), { r with table := t, childExit := r.childExit.notify }, events⟩ ∧
      t.Consistent ∧ ∀ q, t.get? q = r.table.exited (r.heirOf pid) pid (.ofCode code) q := by
  have named := sound.consistent.ne_noParent found
  have parent := Table.parentOf_of_get? found
  by_cases own : r.table.parentOf pid = some pid
  · obtain ⟨result, u, events, run, consistent, look, -, ended⟩ :=
      sound.run_releaseAll_own (.ofCode code) found own
    rw [own, Option.some.injEq] at parent
    rw [ended free] at run
    refine ⟨u, .exited pid (.ofCode code) :: (events ++ []), ?_, consistent, fun q => ?_⟩
    · simp [run_exit_live found live run, reclaimIfOrphan, Record.isOrphan, ← parent, named]
    · rw [look, Table.brokenOff, Table.exited, sound.heirOf_eq_none own]
      cases hq : r.table.get? q with
      | none => rfl
      | some c =>
        by_cases same : q = pid
        · subst same
          rw [found] at hq
          cases hq
          simp [← parent, Record.released, Record.isZombie]
        · have smaller : c.parent = pid → q < pid := by
            intro h
            have child : r.table.parentOf q = some pid := by simp [Table.parentOf_of_get? hq, h]
            by_cases lt : pid < q
            · exact absurd ⟨own, q, lt, child⟩ free
            · exact UInt32.lt_of_le_of_ne (UInt32.not_lt.mp lt) same
          by_cases h : c.parent = pid <;> simp [same, h, smaller]
  · obtain ⟨u, events, run, consistent, look⟩ :=
      sound.run_releaseAll (.ofCode code) found fun _ => own
    rw [parent, Option.some.injEq] at own
    have self : u.get? pid = some { p with status := some (.ofCode code) } := by
      simp [look, Table.get?_mark, own]
    by_cases orphan : p.parent = noParent
    · have childless : ∀ c, u.parentOf c = some pid → c = pid := by
        intro c child
        obtain ⟨d, hd, same⟩ := Table.get?_of_parentOf child
        rw [look] at hd
        obtain ⟨q, -, hq⟩ := Option.bind_eq_some_iff.mp hd
        exact absurd same (parent_ne_of_released named r.heirOf_ne hq)
      have out := consistent.remove_eq self childless
      refine ⟨(u.remove pid).2, .exited pid (.ofCode code) :: (events ++ [.reclaimedOnExit pid]),
        ?_, consistent.remove, fun q => ?_⟩
      · simp [run_exit_live found live run, reclaimIfOrphan, Record.isOrphan, orphan, onTable,
          run_transition_ok out]
      · rw [Table.get?_remove, look, Table.get?_mark, Table.exited]
        by_cases same : q = pid
        · subst same
          simp [found, orphan, named.symm]
        · simp [same]
    · refine ⟨u, .exited pid (.ofCode code) :: (events ++ []), ?_, consistent, fun q => ?_⟩
      · simp [run_exit_live found live run, reclaimIfOrphan, Record.isOrphan, orphan]
      · rw [look, Table.get?_mark, Table.exited]
        by_cases same : q = pid
        · subst same
          simp [found, orphan]
        · simp [same]

/-- The exit of a knotted process breaks off: the process and its smaller children are dealt with,
and nobody is notified. -/
theorem Sound.run_exit_knotted (sound : r.Sound) (code : Int32)
    (found : r.table.get? pid = some p) (live : p.status = none) (knot : r.table.Knotted pid) :
    ∃ t events, (exit pid code).run r =
        ⟨.error (.broken (.stillHasChildren pid)), { r with table := t }, events⟩ ∧
      t.Consistent ∧ ∀ q, t.get? q = r.table.brokenOff pid q := by
  obtain ⟨result, u, events, run, consistent, look, stuck, -⟩ :=
    sound.run_releaseAll_own (.ofCode code) found knot.1
  rw [stuck knot] at run
  refine ⟨u, .exited pid (.ofCode code) :: events, ?_, consistent, look⟩
  simp [run_exit_live found live run]

end Registry
end ProcessLife
