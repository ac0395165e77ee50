import ProcessLife.Proofs.Registry.Run

/-!
# When an exit breaks off

An exit is meant to end in any case. It does, and leaves nobody behind as a child, unless the
process is knotted: then the process is reclaimed in the middle of its own children. Only the
reaper can get knotted, by being handed to itself when the last process above it exits.
-/

namespace ProcessLife.Registry

variable {config : Config} {r : Registry} {t : Table} {pid : Pid} {status : ExitStatus}

theorem parentOf_ne_of_exited (named : pid ≠ noParent)
    (look : ∀ q, t.get? q = r.table.exited (r.heirOf pid) pid status q) (c : Pid) :
    t.parentOf c ≠ some pid := by
  intro child
  obtain ⟨p, found, parent⟩ := Table.get?_of_parentOf child
  rw [look] at found
  obtain ⟨p₀, -, -, ⟨-, moved, -⟩ | ⟨other, kept, -⟩⟩ := Table.exited_eq_some found
  · rw [parent] at moved
    cases heir : r.heirOf pid with
    | none => exact named (by simpa [heir] using moved)
    | some reaper =>
      have same : pid = reaper := by simpa [heir] using moved
      exact r.heirOf_ne (same ▸ heir)
  · exact other (kept.symm.trans parent)

/-- In whatever state, the exit of a live process ends without children left, or the process is
the reaper and knotted, and then the exit breaks off. -/
theorem exit_of_reachable (reachable : Reachable config r) (alive : r.table.isAlive pid = true)
    (code : Int32) :
    (¬ r.table.Knotted pid →
      ((exit pid code).run r).result = .ok () ∧
        ((exit pid code).run r).state.table.children pid = []) ∧
    (r.table.Knotted pid →
      config.reaper = some pid ∧
        ((exit pid code).run r).result = .error (.broken (.stillHasChildren pid))) := by
  have sound := reachable.sound
  obtain ⟨p, found, live⟩ := Table.isAlive_iff.mp alive
  have named := sound.consistent.ne_noParent found
  constructor
  · intro free
    obtain ⟨t, events, run, consistent, look⟩ := sound.run_exit code found live free
    rw [run]
    refine ⟨rfl, List.eq_nil_iff_forall_not_mem.mpr fun c member => ?_⟩
    exact parentOf_ne_of_exited named look c ((consistent.mem_children named).mp member)
  · intro knot
    obtain ⟨t, events, run, -, -⟩ := sound.run_exit_knotted code found live knot
    rw [run]
    exact ⟨reachable.reaper.symm.trans (sound.ownParent knot.1), rfl⟩

/-- The reaper inherits itself and its larger sibling from their common parent. Its own exit then
breaks off, the exit of the sibling does not. -/
theorem exit_of_reaper_above_sibling :
    ∃ r, Reachable { reaper := some 2 } r ∧ r.table.isAlive 2 = true ∧ r.table.isAlive 3 = true ∧
      ((exit 2 0).run r).result = .error (.broken (.stillHasChildren 2)) ∧
      ((exit 3 0).run r).result = .ok () := by
  have new : Registry.new { reaper := some 2 } = .ok _ := rfl
  have reachable :=
    reachable_run new [(0, .addRoot 1), (1, .fork 1), (2, .fork 1), (3, .exit 1 0)]
  refine ⟨_, reachable, rfl, rfl, ?_, ?_⟩
  · exact ((exit_of_reachable reachable rfl 0).2 ⟨rfl, 3, by decide, rfl⟩).2
  · exact ((exit_of_reachable reachable rfl 0).1 fun knot => by cases knot.1).1

end ProcessLife.Registry
