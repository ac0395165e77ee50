import ProcessLife.Proofs.Registry.Run

/-!
# What is left of a family

The children of an exiting process are let go one after the other, and each time the least of those
that are left. `Table.Departs` says what comes of an exit without any order: for each record what
happens to it, and that the index follows. An exit that does not break off ends there, after one
round for each child: `exit_departs`.
-/

namespace ProcessLife

/-- What the exit of `pid` makes of the records of `t`. The children go to the heir, if there is
one. -/
structure Table.Departs (t : Table) (pid : Pid) (status : ExitStatus) (heir : Option Pid)
    (u : Table) : Prop where
  /-- Nobody will wait for an orphan. -/
  reclaimed : ∀ {p}, t.get? pid = some p → p.parent = noParent → u.get? pid = none
  kept : ∀ {p}, t.get? pid = some p → p.parent ≠ noParent →
    u.get? pid = some { p with status := some status }
  handedOver : ∀ {reaper c p}, heir = some reaper → t.get? c = some p → p.parent = pid →
    u.get? c = some { p with parent := reaper }
  abandoned : ∀ {c p}, heir = none → t.get? c = some p → p.parent = pid → p.isZombie = true →
    u.get? c = none
  orphaned : ∀ {c p}, heir = none → t.get? c = some p → p.parent = pid → p.isAlive = true →
    u.get? c = some { p with parent := noParent }
  others : ∀ {c}, c ≠ pid → t.parentOf c ≠ some pid → u.get? c = t.get? c
  children : ∀ {a c}, c ∈ u.children a ↔ a ≠ noParent ∧ u.parentOf c = some a

namespace Registry

open Operation

variable {config : Config} {r : Registry} {pid : Pid} {p : Record}

/-- Rewriting all records at once is what the exit of a process makes of them, unless it is its own
parent. -/
theorem departs_of_exited {t u : Table} {status : ExitStatus} {heir : Option Pid}
    (found : t.get? pid = some p) (stranger : p.parent ≠ pid) (consistent : u.Consistent)
    (look : ∀ q, u.get? q = t.exited heir pid status q) : t.Departs pid status heir u := by
  have self {p'} (found' : t.get? pid = some p') : p' = p := by
    rw [found] at found'
    exact (Option.some.inj found').symm
  -- A child is somebody else, since the process is not its own parent.
  have child {c q} (found' : t.get? c = some q) (parent : q.parent = pid) :
      u.get? c = q.released heir := by
    have other : c ≠ pid := by
      rintro rfl
      exact stranger (self found' ▸ parent)
    rw [look, Table.exited_of_ne found' other, if_pos parent]
  have own : u.get? pid = if p.parent = noParent then none
      else some { p with status := some status } := by
    rw [look, Table.exited, found]
    simp [stranger]
  constructor
  · intro p' found' orphan
    rw [self found'] at orphan
    rw [own, if_pos orphan]
  · intro p' found' owned
    rw [self found'] at owned ⊢
    rw [own, if_neg owned]
  · rintro reaper c q rfl found' parent
    exact child found' parent
  · rintro c q rfl found' parent zombie
    rw [child found' parent, Record.released, if_pos zombie]
  · rintro c q rfl found' parent alive
    have living : ¬ q.isZombie = true := by simp [q.isZombie_eq_not_isAlive, alive]
    rw [child found' parent, Record.released, if_neg living]
  · intro c other unrelated
    cases found' : t.get? c with
    | none => rw [look, Table.exited, found', Option.bind_none]
    | some q =>
      have parent : q.parent ≠ pid := by simpa [Table.parentOf_of_get? found'] using unrelated
      rw [look, Table.exited_of_ne found' other, if_neg parent]
  · exact consistent.toInStep.mem_children

/-- The exit of a process that is not its own parent, with the table as it is when all children have
been let go. -/
theorem Sound.run_exit_released (sound : r.Sound) (code : Int32)
    (found : r.table.get? pid = some p) (live : p.status = none) (stranger : p.parent ≠ pid) :
    ∃ told released t events,
      Empties (r.heirOf pid) pid (r.table.mark pid p (.ofCode code)) (r.table.children pid).length
        told released ∧
      t = (if p.parent = noParent then (released.remove pid).2 else released) ∧
      (Registry.exit pid code).run r =
        ⟨.ok (), { r with table := t, childExit := r.childExit.notify }, events⟩ ∧
      r.table.Departs pid (.ofCode code) (r.heirOf pid) t := by
  have named := sound.consistent.ne_noParent found
  have apart : r.table.parentOf pid ≠ some pid := by
    simpa [Table.parentOf_of_get? found] using stranger
  obtain ⟨released, told, release, -⟩ :=
    sound.run_releaseAll (.ofCode code) found fun _ => apart
  obtain ⟨t, events, run, consistent, look⟩ :=
    sound.run_exit code found live fun knot => apart knot.1
  refine ⟨told, released, t, events, ?_, ?_, run,
    departs_of_exited found stranger consistent look⟩
  · exact empties_of_run (sound.consistent.mark found) named r.heirOf_ne release
  · rw [run_exit_live found live release] at run
    by_cases orphan : p.parent = noParent
    · cases out : released.remove pid with
      | mk result rest =>
        cases result with
        | error fault =>
          simp [reclaimIfOrphan, Record.isOrphan, orphan, onTable, run_transition_error out] at run
        | ok _ =>
          simp [reclaimIfOrphan, Record.isOrphan, orphan, onTable, run_transition_ok out] at run
          rw [if_pos orphan, run.1]
    · simp [reclaimIfOrphan, Record.isOrphan, orphan] at run
      rw [if_neg orphan, run.1]

/-- An exit in terms of single records. Whatever has happened before, if a live process that is not
its own parent exits, then its children are all let go, one in each round, and everybody is
notified. The heir is the configured reaper, if that is somebody else and alive. If the process is
not registered then nothing changes and nobody is notified; if it has exited already then a rule is
broken, and nothing changes either. -/
theorem exit_departs (reachable : Reachable config r) (pid : Pid) (code : Int32) :
    (∀ p, r.table.get? pid = some p → p.isAlive = true → p.parent ≠ pid →
      ∃ heir told released t events,
        (∀ reaper, heir = some reaper ↔
          config.reaper = some reaper ∧ reaper ≠ pid ∧ r.table.isAlive reaper = true) ∧
        Empties heir pid (r.table.replace pid { p with status := some (.ofCode code) })
          (r.table.children pid).length told released ∧
        t = (if p.parent = noParent then (released.remove pid).2 else released) ∧
        (exit pid code).run r =
          ⟨.ok (), { r with table := t, childExit := r.childExit.notify }, events⟩ ∧
        r.table.Departs pid (.ofCode code) heir t) ∧
    (r.table.get? pid = none → (exit pid code).run r = ⟨.ok (), r, [.untrackedExit pid]⟩) ∧
    (r.table.isZombie pid = true →
      (exit pid code).run r = ⟨.error (.broken (.alreadyExited pid)), r, []⟩) := by
  have sound := reachable.sound
  refine ⟨fun p found alive stranger => ?_, run_exit_unregistered, fun dead => ?_⟩
  · have live : p.status = none := by simpa [Record.isAlive] using alive
    obtain ⟨told, released, t, events, empties, rest, run, departs⟩ :=
      sound.run_exit_released code found live stranger
    refine ⟨r.heirOf pid, told, released, t, events, fun reaper => ?_, empties, rest, run, departs⟩
    rw [← reachable.reaper]
    exact heirOf_eq_some_iff
  · obtain ⟨p, status, found, ended⟩ := Table.isZombie_iff.mp dead
    have zombie : p.isZombie = true := by simp [Record.isZombie, ended]
    rw [run_exit_zombie found zombie, sound.consistent.keyed found]

/-- The reaper is itself one of the children, and is handed to itself, with a zombie as its
sibling. -/
theorem exit_departs_to_child :
    ∃ r t, Reachable { reaper := some 3 } r ∧
      r.table.get? 2 = some { pid := 2, parent := 1 } ∧ r.table.children 2 = [3, 4] ∧
      ((exit 2 7).run r).state = { r with table := t, childExit := r.childExit.notify } ∧
      t.get? 2 = some { pid := 2, parent := 1, status := some (.ofCode 7) } ∧
      t.get? 3 = some { pid := 3, parent := 3 } ∧
      t.get? 4 = some { pid := 4, parent := 3, status := some (.ofCode 5) } ∧
      t.get? 1 = r.table.get? 1 := by
  have new : Registry.new { reaper := some 3 } = .ok _ := rfl
  have reachable := reachable_run new
    [(0, .addRoot 1), (1, .fork 1), (2, .fork 2), (3, .fork 2), (4, .exit 4 5)]
  obtain ⟨heir, -, -, t, events, heirs, -, -, run, departs⟩ :=
    (exit_departs reachable 2 7).1 { pid := 2, parent := 1 } rfl rfl (by decide)
  have heir := (heirs 3).mpr ⟨rfl, by decide, rfl⟩
  have reaper := departs.handedOver (c := 3) (p := { pid := 3, parent := 2 }) heir rfl rfl
  have zombie := departs.handedOver (c := 4)
    (p := { pid := 4, parent := 2, status := some (.ofCode 5) }) heir rfl rfl
  exact ⟨_, t, reachable, rfl, rfl, congrArg Reply.state run, departs.kept rfl (by decide), reaper,
    zombie, departs.others (by decide) (by decide)⟩

end Registry
end ProcessLife
