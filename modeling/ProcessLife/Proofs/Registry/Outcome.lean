import ProcessLife.Proofs.Pid.Draw
import ProcessLife.Proofs.Registry.Exit
import ProcessLife.Registry.Service

/-!
# What a request can come to

On a sound registry a request is refused, or it registers one process, or takes one out, or it is
an exit, which is known in one step. `Sound.outcome` says this once, in terms of what is found
under each identifier; whatever holds of all registries is shown by going through these cases.
-/

namespace ProcessLife.Registry

open Operation

/-- The request was answered by registering `pid`. -/
def Request.Registers (q : Request) (result : Except Stop Answer) (pid : Pid) : Prop :=
  (q = .addRoot pid ∧ result = .ok .done) ∨ ∃ parent, q = .fork parent ∧ result = .ok (.forked pid)

instance (q : Request) (result : Except Stop Answer) (pid : Pid) :
    Decidable (q.Registers result pid) :=
  match q, result with
  | .addRoot root, .ok .done => decidable_of_iff (root = pid) (by simp [Request.Registers])
  | .fork _, .ok (.forked child) => decidable_of_iff (child = pid) (by simp [Request.Registers])
  | .addRoot _, .ok (.forked _) => .isFalse (by simp [Request.Registers])
  | .addRoot _, .ok (.reaped _) => .isFalse (by simp [Request.Registers])
  | .fork _, .ok .done => .isFalse (by simp [Request.Registers])
  | .fork _, .ok (.reaped _) => .isFalse (by simp [Request.Registers])
  | .rollBack _, _ => .isFalse (by simp [Request.Registers])
  | .exit _ _, _ => .isFalse (by simp [Request.Registers])
  | .wait _ _, _ => .isFalse (by simp [Request.Registers])
  | _, .error _ => .isFalse (by simp [Request.Registers])

theorem Request.Registers.ne_exit {q : Request} {result : Except Stop Answer} {c : Pid}
    (registers : q.Registers result c) (pid : Pid) (code : Int32) : q ≠ .exit pid code := by
  rcases registers with ⟨rfl, -⟩ | ⟨parent, rfl, -⟩ <;> simp

inductive Outcome (r : Registry) : Request → Except Stop Answer → Registry → Prop
  /-- The exit of a live process is never refused. -/
  | refused {q : Request} {why : Stop} (awake : why ≠ .asleep)
      (spared : ∀ pid code, q = .exit pid code → r.table.isAlive pid = false) :
      Outcome r q (.error why) r
  | slept {pid : Pid} {p : Record} (found : r.table.get? pid = some p) (live : p.status = none)
      (owned : p.parent ≠ noParent) : Outcome r (.wait p.parent pid) (.error .asleep) r
  /-- A fork found every identifier taken. Of the ring only the range is looked at here. -/
  | exhausted {parent : Pid} {pids : PidRing} (next : pids.next ∈ pids.range)
      (range : pids.range = r.pids.range) :
      Outcome r (.fork parent) (.error (.failed .enospc)) { r with pids }
  | untracked {pid : Pid} {code : Int32} (missing : r.table.get? pid = none) :
      Outcome r (.exit pid code) (.ok .done) r
  | registered {q : Request} {answer : Answer} {p : Record} {t : Table} {pids : PidRing}
      (next : pids.next ∈ pids.range) (registers : q.Registers (.ok answer) p.pid)
      (named : p.pid ≠ noParent) (free : r.table.get? p.pid = none) (live : p.status = none)
      (parent : p.parent = noParent ∨ r.table.isAlive p.parent = true)
      (consistent : t.Consistent)
      (look : ∀ q, t.get? q = if q = p.pid then some p else r.table.get? q)
      (range : pids.range = r.pids.range)
      (origin : q = .addRoot p.pid ∧ p.parent = noParent ∨
        q = .fork p.parent ∧ r.table.isAlive p.parent = true ∧ p.pid ∈ r.pids.range) :
      Outcome r q (.ok answer) { r with table := t, pids }
  | rolledBack {pid : Pid} {p : Record} {t : Table} (found : r.table.get? pid = some p)
      (live : p.status = none) (childless : ∀ c, r.table.parentOf c ≠ some pid)
      (consistent : t.Consistent)
      (look : ∀ q, t.get? q = if q = pid then none else r.table.get? q) :
      Outcome r (.rollBack pid) (.ok .done) { r with table := t }
  | reaped {pid : Pid} {p : Record} {status : ExitStatus} {t : Table}
      (found : r.table.get? pid = some p) (dead : p.status = some status)
      (owned : p.parent ≠ noParent) (consistent : t.Consistent)
      (look : ∀ q, t.get? q = if q = pid then none else r.table.get? q) :
      Outcome r (.wait p.parent pid) (.ok (.reaped status)) { r with table := t }
  | exited {pid : Pid} {code : Int32} {p : Record} {t : Table}
      (found : r.table.get? pid = some p) (live : p.status = none)
      (free : ¬ r.table.Knotted pid) (consistent : t.Consistent)
      (look : ∀ q, t.get? q = r.table.exited (r.heirOf pid) pid (.ofCode code) q) :
      Outcome r (.exit pid code) (.ok .done)
        { r with table := t, childExit := r.childExit.notify }
  | brokenOff {pid : Pid} {code : Int32} {p : Record} {t : Table}
      (found : r.table.get? pid = some p) (live : p.status = none)
      (knot : r.table.Knotted pid) (consistent : t.Consistent)
      (look : ∀ q, t.get? q = r.table.brokenOff pid q) :
      Outcome r (.exit pid code) (.error (.broken (.stillHasChildren pid)))
        { r with table := t }

variable {r : Registry} {pid parent child : Pid} {p : Record} {code : Int32}

section wait

theorem run_wait_unregistered (missing : r.table.get? child = none) :
    (wait parent child).run r = ⟨.error (.failed .esrch), r, []⟩ := by
  simp [wait, missing]

theorem run_wait_stranger (found : r.table.get? child = some p)
    (stranger : parent = noParent ∨ p.parent ≠ parent) :
    (wait parent child).run r = ⟨.error (.failed .echild), r, []⟩ := by
  simp [wait, found, stranger]

theorem run_wait_live (found : r.table.get? child = some p) (owned : p.parent ≠ noParent)
    (live : p.status = none) : (wait p.parent child).run r = ⟨.error .asleep, r, []⟩ := by
  simp [wait, found, owned, live]

/-- The parent of a zombie gets its status, and the zombie is gone. -/
theorem Sound.run_wait_zombie (sound : r.Sound) (found : r.table.get? child = some p)
    {status : ExitStatus} (dead : p.status = some status) :
    (wait p.parent child).run r =
      ⟨.ok status, { r with table := (r.table.remove child).2 },
        [.reaped p.parent child status]⟩ := by
  have zombie : p.isZombie = true := by simp [Record.isZombie, dead]
  have owned := sound.owned found zombie
  have out := sound.consistent.remove_eq found fun c hc =>
    absurd hc (sound.childless found zombie c)
  simp [wait, found, owned, dead, onTable, run_transition_ok out]

end wait

section register

theorem run_addRoot_reserved :
    (addRoot noParent).run r = ⟨.error (.broken .reservedPid), r, []⟩ :=
  rfl

theorem run_addRoot_registered (found : r.table.get? pid = some p) (named : pid ≠ noParent) :
    (addRoot pid).run r = ⟨.error (.broken (.alreadyRegistered pid)), r, []⟩ := by
  have refused := Table.insert_of_some (p := { pid, parent := noParent }) found
  simp [addRoot, named, onTable, run_update_error refused]

theorem run_addRoot (free : r.table.get? pid = none) (named : pid ≠ noParent) :
    ∃ t, r.table.insert { pid, parent := noParent } = .ok t ∧
      (addRoot pid).run r =
        ⟨.ok (), { r with table := t, pids := r.pids.skip pid }, [.rootRegistered pid]⟩ := by
  have done := Table.insert_of_none (p := { pid, parent := noParent }) free
  exact ⟨_, done, by simp [addRoot, named, onTable, run_update_ok done]⟩

theorem run_fork_dead (dead : r.table.isAlive parent = false) :
    (fork parent).run r = ⟨.error (.failed .esrch), r, [.forkFromUnknown parent]⟩ := by
  simp [fork, dead]

theorem run_fork_full (alive : r.table.isAlive parent = true) (full : r.capacity ≤ r.table.size) :
    (fork parent).run r = ⟨.error (.failed .eagain), r, []⟩ := by
  simp [fork, alive, full]

theorem run_fork_exhausted (alive : r.table.isAlive parent = true)
    (room : ¬ r.capacity ≤ r.table.size) (none : (r.pids.draw r.table.contains).1 = none) :
    (fork parent).run r =
      ⟨.error (.failed .enospc), { r with pids := (r.pids.draw r.table.contains).2 }, []⟩ := by
  simp [fork, alive, room, none]

/-- The identifier that is drawn is free, so it can be registered. -/
theorem run_fork (alive : r.table.isAlive parent = true) (room : ¬ r.capacity ≤ r.table.size)
    (found : (r.pids.draw r.table.contains).1 = some child)
    (free : r.table.get? child = none) :
    ∃ t, r.table.insert { pid := child, parent } = .ok t ∧
      (fork parent).run r = ⟨.ok child,
        { r with table := t, pids := (r.pids.draw r.table.contains).2 },
        [.forked parent child]⟩ := by
  have done := Table.insert_of_none (p := { pid := child, parent }) free
  exact ⟨_, done, by simp [fork, alive, room, found, onTable, run_update_ok done]⟩

/-- What a fork comes to: one of three things is in the way, or the child is registered. -/
inductive Admission (r : Registry) (parent : Pid) : Except Stop Pid → Registry → Prop
  | unregistered (dead : r.table.isAlive parent = false) :
      Admission r parent (.error (.failed .esrch)) r
  | full (alive : r.table.isAlive parent = true) (full : r.capacity ≤ r.table.size) :
      Admission r parent (.error (.failed .eagain)) r
  | crowded (alive : r.table.isAlive parent = true) (room : r.table.size < r.capacity)
      (taken : r.table.Occupied r.pids.range.first r.pids.range.last) :
      Admission r parent (.error (.failed .enospc)) r
  | admitted {child next : Pid} {t : Table} (alive : r.table.isAlive parent = true)
      (room : r.table.size < r.capacity) (inside : child ∈ r.pids.range)
      (done : r.table.insert { pid := child, parent } = .ok t) (step : next ∈ r.pids.range) :
      Admission r parent (.ok child) { r with table := t, pids := { r.pids with next } }

/-- Whatever is left of the ring after a search in vain, it is the ring that was there before. -/
theorem Sound.admission (sound : r.Sound) (parent : Pid) :
    ∃ result r' events, (fork parent).run r = ⟨result, r', events⟩ ∧
      Admission r parent result r' := by
  by_cases alive : r.table.isAlive parent = true
  case neg =>
    have dead := Bool.eq_false_iff.mpr alive
    exact ⟨_, _, _, run_fork_dead dead, .unregistered dead⟩
  by_cases full : r.capacity ≤ r.table.size
  · exact ⟨_, _, _, run_fork_full alive full, .full alive full⟩
  have room := Nat.lt_of_not_le full
  cases drawn : (r.pids.draw r.table.contains).1 with
  | none =>
    have run := run_fork_exhausted alive full drawn
    rw [PidRing.draw_of_none sound.next_mem drawn] at run
    have taken := (PidRing.draw_eq_none_iff sound.next_mem).mp drawn
    exact ⟨_, _, _, run, .crowded alive room fun pid lower upper => taken pid ⟨lower, upper⟩⟩
  | some child =>
    obtain ⟨inside, unused⟩ := PidRing.draw_found sound.next_mem drawn
    have free : r.table.get? child = none := by
      simpa [Table.contains_eq_isSome] using unused
    have next : (r.pids.draw r.table.contains).2.next ∈ r.pids.range :=
      PidRing.next_draw_mem sound.next_mem
    obtain ⟨t, done, run⟩ := run_fork alive full drawn free
    exact ⟨_, _, _, run, .admitted alive room inside done next⟩

end register

section rollBack

theorem run_rollBack_refused
    (refused : ¬ (r.table.isAlive pid = true ∧ r.table.leastChild? pid = none)) :
    (rollBack pid).run r = ⟨.error (.broken (.notPending pid)), r, []⟩ := by
  simp [rollBack, refused]

theorem Sound.run_rollBack (sound : r.Sound) (found : r.table.get? pid = some p)
    (live : p.status = none) (none : r.table.leastChild? pid = none) :
    (∀ c, r.table.parentOf c ≠ some pid) ∧
      (rollBack pid).run r =
        ⟨.ok (), { r with table := (r.table.remove pid).2 }, [.forkRolledBack pid]⟩ := by
  have named := sound.consistent.ne_noParent found
  have childless := (sound.consistent.leastChild?_eq_none_iff named).mp none
  have alive : r.table.isAlive pid = true := Table.isAlive_iff.mpr ⟨p, found, live⟩
  have out := sound.consistent.remove_eq found fun c hc => absurd hc (childless c)
  exact ⟨childless, by simp [rollBack, alive, none, onTable, run_transition_ok out]⟩

end rollBack

theorem run_serve {α : Type} {x : Operation Registry Event α} {wrap : α → Answer} {r' : Registry}
    {result : Except Stop α} {events : List Event} (h : x.run r = ⟨result, r', events⟩) :
    (x >>= fun a => (pure (wrap a) : Operation Registry Event Answer)).run r =
      ⟨result.map wrap, r', events⟩ := by
  rw [run_bind, h]
  cases result <;> simp [Except.map]

theorem Sound.outcome (sound : r.Sound) (q : Request) :
    ∃ result r' events, (serve q).run r = ⟨result, r', events⟩ ∧ Outcome r q result r' := by
  cases q with
  | addRoot pid =>
    by_cases named : pid = noParent
    · subst named
      exact ⟨_, _, _, run_serve run_addRoot_reserved, .refused (by simp) (by simp)⟩
    cases found : r.table.get? pid with
    | some p =>
      exact ⟨_, _, _, run_serve (run_addRoot_registered found named),
        .refused (by simp) (by simp)⟩
    | none =>
      obtain ⟨t, done, run⟩ := run_addRoot found named
      refine ⟨.ok .done, _, _, run_serve run, ?_⟩
      exact .registered (p := { pid, parent := noParent })
        (by simpa using PidRing.next_skip_mem sound.next_mem) (Or.inl ⟨rfl, rfl⟩) named found rfl
        (Or.inl rfl) (sound.consistent.insert named done) (Table.get?_insert done)
        (PidRing.range_skip r.pids pid) (Or.inl ⟨rfl, rfl⟩)
  | fork parent =>
    obtain ⟨result, r', events, run, admission⟩ := sound.admission parent
    refine ⟨_, _, _, run_serve run, ?_⟩
    cases admission with
    | unregistered | full => exact .refused (by simp) (by simp)
    | crowded => exact .exhausted sound.next_mem rfl
    | @admitted child next t alive room inside done step =>
      have named := PidRange.ne_noParent_of_mem inside
      exact .registered (p := { pid := child, parent }) step (Or.inr ⟨parent, rfl, rfl⟩) named
        (Table.free_of_insert done) rfl (Or.inr alive) (sound.consistent.insert named done)
        (Table.get?_insert done) rfl (Or.inr ⟨rfl, alive, inside⟩)
  | rollBack pid =>
    by_cases pending : r.table.isAlive pid = true ∧ r.table.leastChild? pid = none
    · obtain ⟨p, found, live⟩ := Table.isAlive_iff.mp pending.1
      obtain ⟨childless, run⟩ := sound.run_rollBack found live pending.2
      exact ⟨_, _, _, run_serve run, .rolledBack found live childless
        sound.consistent.remove (Table.get?_remove r.table pid)⟩
    · exact ⟨_, _, _, run_serve (run_rollBack_refused pending), .refused (by simp) (by simp)⟩
  | exit pid code =>
    cases found : r.table.get? pid with
    | none => exact ⟨_, _, _, run_serve (run_exit_unregistered found), .untracked found⟩
    | some p =>
      cases status : p.status with
      | some s =>
        have dead : p.isZombie = true := by simp [Record.isZombie, status]
        refine ⟨_, _, _, run_serve (run_exit_zombie found dead), .refused (by simp) ?_⟩
        rintro _ _ ⟨⟩
        simp [Table.isAlive, Record.isAlive, found, status]
      | none =>
        by_cases knot : r.table.Knotted pid
        · obtain ⟨t, events, run, consistent, look⟩ :=
            sound.run_exit_knotted code found status knot
          exact ⟨_, _, _, run_serve run, .brokenOff found status knot consistent look⟩
        · obtain ⟨t, events, run, consistent, look⟩ :=
            sound.run_exit code found status knot
          exact ⟨_, _, _, run_serve run, .exited found status knot consistent look⟩
  | wait parent child =>
    cases found : r.table.get? child with
    | none => exact ⟨_, _, _, run_serve (run_wait_unregistered found), .refused (by simp) (by simp)⟩
    | some p =>
      by_cases stranger : parent = noParent ∨ p.parent ≠ parent
      · exact ⟨_, _, _, run_serve (run_wait_stranger found stranger), .refused (by simp) (by simp)⟩
      obtain ⟨owned, same⟩ := not_or.mp stranger
      cases Classical.not_not.mp same
      cases status : p.status with
      | none =>
        exact ⟨_, _, _, run_serve (run_wait_live found owned status), .slept found status owned⟩
      | some s =>
        exact ⟨_, _, _, run_serve (sound.run_wait_zombie found status),
          .reaped found status owned sound.consistent.remove (Table.get?_remove r.table child)⟩

theorem Outcome.range {q : Request} {result : Except Stop Answer} {r' : Registry}
    (outcome : Outcome r q result r') : r'.pids.range = r.pids.range := by
  cases outcome with
  | registered _ _ _ _ _ _ _ _ range => exact range
  | exhausted _ range => exact range
  | _ => rfl

theorem Outcome.reaper {q : Request} {result : Except Stop Answer} {r' : Registry}
    (outcome : Outcome r q result r') : r'.reaper = r.reaper := by
  cases outcome <;> rfl

theorem Outcome.capacity {q : Request} {result : Except Stop Answer} {r' : Registry}
    (outcome : Outcome r q result r') : r'.capacity = r.capacity := by
  cases outcome <;> rfl

end ProcessLife.Registry
