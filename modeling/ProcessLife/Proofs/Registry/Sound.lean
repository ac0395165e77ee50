import ProcessLife.Proofs.Registry.Outcome

/-!
# Soundness lasts

A new registry is sound, and no request, whatever comes of it, leaves one that is not. Each way in
which the table can change has its own lemma.
-/

namespace ProcessLife.Registry

variable {r r' : Registry} {pid : Pid} {p : Record} {t : Table}
  {q : Request} {result : Except Stop Answer} {config : Config}

/-- A new registry is empty, and its search for identifiers begins at one of them. -/
theorem new_eq_ok (h : Registry.new config = .ok r) :
    r.table = .empty ∧ r.pids.next ∈ r.pids.range := by
  obtain ⟨range, -, made⟩ := exists_of_bind_eq_ok h
  cases made
  exact ⟨rfl, range.first_mem⟩

structure Follows (r : Registry) (config : Config) : Prop where
  first : r.pids.range.first = config.firstPid
  last : r.pids.range.last = config.lastPid
  capacity : r.capacity = config.capacity
  reaper : r.reaper = config.reaper

theorem follows_new (h : Registry.new config = .ok r) : r.Follows config := by
  obtain ⟨range, between, made⟩ := exists_of_bind_eq_ok h
  cases made
  unfold PidRange.between at between
  split at between <;> cases between
  exact ⟨rfl, rfl, rfl, rfl⟩

theorem sound_new (h : Registry.new config = .ok r) : r.Sound := by
  obtain ⟨table, next⟩ := new_eq_ok h
  exact ⟨table ▸ Table.consistent_empty, by simp [table], by simp [table],
    by simp [table, Table.parentOf], next⟩

theorem Sound.takeOut (sound : r.Sound) (consistent : t.Consistent)
    (look : ∀ q, t.get? q = if q = pid then none else r.table.get? q) :
    { r with table := t }.Sound := by
  have same {q p} (h : t.get? q = some p) : r.table.get? q = some p := by
    rw [look] at h
    split at h
    · cases h
    · exact h
  have parent {q c} (h : t.parentOf q = some c) : r.table.parentOf q = some c := by
    obtain ⟨p, found, h⟩ := Table.get?_of_parentOf h
    exact h ▸ Table.parentOf_of_get? (same found)
  exact ⟨consistent, fun found dead c child => sound.childless (same found) dead c (parent child),
    fun found dead => sound.owned (same found) dead, fun own => sound.ownParent (parent own),
    sound.next_mem⟩

/-- A new process is nobody's parent but may be anybody's child, as long as that one lives. -/
theorem Sound.enter (sound : r.Sound) (free : r.table.get? p.pid = none) (live : p.status = none)
    (named : p.pid ≠ noParent) (parent : p.parent = noParent ∨ r.table.isAlive p.parent = true)
    (consistent : t.Consistent)
    (look : ∀ q, t.get? q = if q = p.pid then some p else r.table.get? q) {pids : PidRing}
    (next : pids.next ∈ pids.range) : { r with table := t, pids }.Sound := by
  have zombie {z s} (found : t.get? z = some s) (dead : s.isZombie = true) :
      r.table.get? z = some s := by
    rw [look] at found
    split at found
    · cases found
      simp [Record.isZombie, live] at dead
    · exact found
  have link {c q} (child : t.parentOf c = some q) :
      c = p.pid ∧ p.parent = q ∨ r.table.parentOf c = some q := by
    obtain ⟨d, found, parent⟩ := Table.get?_of_parentOf child
    rw [look] at found
    split at found
    · cases found
      exact Or.inl ⟨‹_›, parent⟩
    · exact Or.inr (parent ▸ Table.parentOf_of_get? found)
  refine ⟨consistent, ?_, ?_, ?_, next⟩
  · intro z s found dead c child
    have found := zombie found dead
    rcases link child with ⟨-, rfl⟩ | child
    · rcases parent with orphan | alive
      · exact sound.consistent.ne_noParent found orphan
      · obtain ⟨s', found', live'⟩ := Table.isAlive_iff.mp alive
        rw [found] at found'
        cases found'
        simp [Record.isZombie, live'] at dead
    · exact sound.childless found dead c child
  · intro z s found dead
    exact sound.owned (zombie found dead) dead
  · intro pid own
    rcases link own with ⟨rfl, self⟩ | own
    · rcases parent with orphan | alive
      · exact absurd (self.symm.trans orphan) named
      · obtain ⟨s', found', -⟩ := Table.isAlive_iff.mp alive
        rw [self, free] at found'
        cases found'
    · exact sound.ownParent own

theorem Sound.exit (sound : r.Sound) (found : r.table.get? pid = some p) {status : ExitStatus}
    (consistent : t.Consistent)
    (look : ∀ q, t.get? q = r.table.exited (r.heirOf pid) pid status q) (childExit : Signal) :
    { r with table := t, childExit }.Sound := by
  have named := sound.consistent.ne_noParent found
  refine ⟨consistent, ?_, ?_, ?_, sound.next_mem⟩
  · intro z s hz dead c child
    obtain ⟨d, hd, parent⟩ := Table.get?_of_parentOf child
    rw [look] at hz hd
    obtain ⟨s', hs, status, kept⟩ := Table.exited_eq_some hz
    obtain ⟨d', hc, -, moved⟩ := Table.exited_eq_some hd
    rw [parent] at moved
    rcases moved with ⟨-, rfl, -⟩ | ⟨other, rfl, -⟩
    · cases heir : r.heirOf pid with
      | none => exact sound.consistent.ne_noParent hs (by simp [heir])
      | some reaper =>
        obtain ⟨-, ne, alive⟩ := heirOf_eq_some_iff.mp heir
        simp only [heir, Option.getD_some, if_neg ne] at hs status
        obtain ⟨s₀, hs₀, live⟩ := Table.isAlive_iff.mp alive
        rw [hs] at hs₀
        cases hs₀
        simp [Record.isZombie, status, live] at dead
    · rw [if_neg other] at status
      exact sound.childless hs (by simpa [Record.isZombie, status] using dead) c
        (Table.parentOf_of_get? hc)
  · intro z s hz dead
    rw [look] at hz
    obtain ⟨s', hs, status, ⟨-, moved, ended⟩ | ⟨-, moved, kept⟩⟩ := Table.exited_eq_some hz
    · cases heir : r.heirOf pid with
      | none =>
        obtain ⟨ne, live⟩ := ended heir
        simp [Record.isZombie, status, ne, live] at dead
      | some reaper =>
        obtain ⟨-, -, alive⟩ := heirOf_eq_some_iff.mp heir
        obtain ⟨s₀, hs₀, -⟩ := Table.isAlive_iff.mp alive
        simpa [moved, heir] using sound.consistent.ne_noParent hs₀
    · rw [moved]
      by_cases same : z = pid
      · exact kept same
      · rw [if_neg same] at status
        exact sound.owned hs (by simpa [Record.isZombie, status] using dead)
  · intro q own
    obtain ⟨d, hd, parent⟩ := Table.get?_of_parentOf own
    rw [look] at hd
    obtain ⟨d', hc, -, ⟨-, moved, -⟩ | ⟨-, moved, -⟩⟩ := Table.exited_eq_some hd
    · cases heir : r.heirOf pid with
      | none =>
        rw [parent, heir] at moved
        exact absurd moved (sound.consistent.ne_noParent hc)
      | some reaper =>
        rw [parent, heir] at moved
        exact moved ▸ (heirOf_eq_some_iff.mp heir).1
    · refine sound.ownParent ?_
      rw [Table.parentOf_of_get? hc, ← moved, parent]

theorem Sound.breakOff (sound : r.Sound) (consistent : t.Consistent)
    (look : ∀ q, t.get? q = r.table.brokenOff pid q) : { r with table := t }.Sound := by
  refine ⟨consistent, ?_, ?_, ?_, sound.next_mem⟩
  · intro z s hz dead c child
    obtain ⟨d, hd, parent⟩ := Table.get?_of_parentOf child
    rw [look] at hz hd
    obtain ⟨s', hs, -, status, -⟩ := Table.brokenOff_eq_some hz
    have dead : s'.isZombie = true := by simpa [Record.isZombie, status] using dead
    obtain ⟨d', hc, -, -, ⟨-, -, moved, -⟩ | ⟨-, moved⟩⟩ := Table.brokenOff_eq_some hd
    · exact sound.consistent.ne_noParent hs (parent.symm.trans moved)
    · refine sound.childless hs dead c ?_
      rw [Table.parentOf_of_get? hc, ← moved, parent]
  · intro z s hz dead
    rw [look] at hz
    obtain ⟨s', hs, -, status, ⟨-, -, -, live⟩ | ⟨-, moved⟩⟩ := Table.brokenOff_eq_some hz
    · simp [Record.isZombie, status, live] at dead
    · exact moved ▸ sound.owned hs (by simpa [Record.isZombie, status] using dead)
  · intro q own
    obtain ⟨d, hd, parent⟩ := Table.get?_of_parentOf own
    rw [look] at hd
    obtain ⟨d', hc, -, -, ⟨-, -, moved, -⟩ | ⟨-, moved⟩⟩ := Table.brokenOff_eq_some hd
    · exact absurd (parent.symm.trans moved) (sound.consistent.ne_noParent hc)
    · refine sound.ownParent ?_
      rw [Table.parentOf_of_get? hc, ← moved, parent]

/-- Whatever is asked of a sound registry, it stays sound. -/
theorem Outcome.sound (sound : r.Sound) (outcome : Outcome r q result r') : r'.Sound := by
  cases outcome with
  | refused => exact sound
  | slept => exact sound
  | untracked => exact sound
  | exhausted next => exact { sound with next_mem := next }
  | rolledBack _ _ _ consistent look => exact sound.takeOut consistent look
  | reaped _ _ _ consistent look => exact sound.takeOut consistent look
  | registered next _ named free live parent consistent look =>
    exact sound.enter free live named parent consistent look next
  | exited found _ _ consistent look => exact sound.exit found consistent look _
  | brokenOff _ _ _ consistent look => exact sound.breakOff consistent look

theorem Outcome.follows (outcome : Outcome r q result r')
    (follows : r.Follows config) : r'.Follows config where
  first := outcome.range ▸ follows.first
  last := outcome.range ▸ follows.last
  capacity := outcome.capacity.trans follows.capacity
  reaper := outcome.reaper.trans follows.reaper

end ProcessLife.Registry
