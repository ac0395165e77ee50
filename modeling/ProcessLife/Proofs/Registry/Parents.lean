import ProcessLife.Proofs.Registry.Run

/-!
# Parents live

A process whose parent has exited is handed over or let go before anybody else gets a turn. So a
parent that is named is alive, and a zombie always has somebody who can still fetch its status. An
exit that breaks off is the one way to lose this: it leaves children of a process that is gone,
which can only be the reaper.
-/

namespace ProcessLife

/-- Every parent that is named is alive, but for one that may be missing. -/
def Table.Attended (t : Table) (missing : Option Pid) : Prop :=
  ∀ c p, t.parentOf c = some p → p = noParent ∨ t.isAlive p = true ∨ missing = some p

theorem Table.Attended.alive {t : Table} (attended : t.Attended none) {c p : Pid}
    (child : t.parentOf c = some p) (named : p ≠ noParent) : t.isAlive p = true :=
  ((attended c p child).resolve_left named).resolve_right (by simp)

namespace Registry

variable {config : Config} {r r₀ r' : Registry} {first last : Session Registry Request}
  {turns : List Turn} {t : Table} {pid z c : Pid} {missing : Option Pid} {p : Record}
  {status : ExitStatus} {q : Request} {result : Except Stop Answer}

theorem attended_empty : Table.empty.Attended missing := by
  intro c p child
  simp [Table.parentOf] at child

theorem attended_takeOut (attended : r.table.Attended missing)
    (childless : ∀ c, r.table.parentOf c ≠ some pid)
    (look : ∀ q, t.get? q = if q = pid then none else r.table.get? q) : t.Attended missing := by
  intro c p child
  have other : c ≠ pid := by
    rintro rfl
    simp [Table.parentOf, look] at child
  have kept : r.table.parentOf c = some p := by
    simpa [Table.parentOf, look, other] using child
  have named : p ≠ pid := by
    rintro rfl
    exact childless c kept
  refine (attended c p kept).imp_right (.imp_left fun alive => ?_)
  simpa [Table.isAlive, look, named] using alive

theorem attended_enter (attended : r.table.Attended missing) (free : r.table.get? p.pid = none)
    (parent : p.parent = noParent ∨ r.table.isAlive p.parent = true)
    (look : ∀ q, t.get? q = if q = p.pid then some p else r.table.get? q) :
    t.Attended missing := by
  have still {q} (alive : r.table.isAlive q = true) : t.isAlive q = true := by
    have other : q ≠ p.pid := by
      rintro rfl
      simp [Table.isAlive, free] at alive
    simpa [Table.isAlive, look, other] using alive
  intro c d child
  by_cases new : c = p.pid
  · have same : p.parent = d := by simpa [Table.parentOf, look, new] using child
    exact same ▸ parent.imp_right fun alive => Or.inl (still alive)
  · have kept : r.table.parentOf c = some d := by
      simpa [Table.parentOf, look, new] using child
    exact (attended c d kept).imp_right (.imp_left still)

theorem live_released {heir : Option Pid} (live : p.status = none) :
    ∃ s, p.released heir = some s ∧ s.status = none := by
  cases heir with
  | none =>
    refine ⟨{ p with parent := noParent }, ?_, live⟩
    simp [Record.released, Record.isZombie, live]
  | some reaper => exact ⟨{ p with parent := reaper }, rfl, live⟩

theorem isAlive_of_exited {heir : Option Pid} (other : z ≠ pid)
    (look : ∀ q, t.get? q = r.table.exited heir pid status q)
    (alive : r.table.isAlive z = true) : t.isAlive z = true := by
  obtain ⟨s, found, live⟩ := Table.isAlive_iff.mp alive
  have fate := look z
  rw [Table.exited_of_ne found other] at fate
  rw [Table.isAlive_iff, fate]
  split
  · exact live_released live
  · exact ⟨s, rfl, live⟩

/-- Those who live after an exit are those who lived before, but for the one who exits. -/
theorem isAlive_exited_iff {heir : Option Pid}
    (look : ∀ q, t.get? q = r.table.exited heir pid status q) :
    t.isAlive z = true ↔ z ≠ pid ∧ r.table.isAlive z = true := by
  constructor
  · intro alive
    obtain ⟨s, found, live⟩ := Table.isAlive_iff.mp alive
    rw [look] at found
    obtain ⟨s₀, before, kept, -⟩ := Table.exited_eq_some found
    by_cases same : z = pid
    · simp [same, live] at kept
    · rw [if_neg same, live] at kept
      exact ⟨same, Table.isAlive_iff.mpr ⟨s₀, before, kept.symm⟩⟩
  · rintro ⟨other, alive⟩
    exact isAlive_of_exited other look alive

theorem isAlive_of_brokenOff (other : z ≠ pid) (look : ∀ q, t.get? q = r.table.brokenOff pid q)
    (alive : r.table.isAlive z = true) : t.isAlive z = true := by
  obtain ⟨s, found, live⟩ := Table.isAlive_iff.mp alive
  rw [Table.isAlive_iff, look, Table.brokenOff, found, Option.bind_some, if_neg other]
  split
  · exact live_released live
  · exact ⟨s, rfl, live⟩

theorem attended_exit (attended : r.table.Attended missing)
    (look : ∀ q, t.get? q = r.table.exited (r.heirOf pid) pid status q) :
    t.Attended missing := by
  intro c d child
  obtain ⟨p, found, parent⟩ := Table.get?_of_parentOf child
  rw [look] at found
  obtain ⟨p₀, before, -, ⟨-, moved, -⟩ | ⟨other, kept, -⟩⟩ := Table.exited_eq_some found
  · cases heir : r.heirOf pid with
    | none => exact Or.inl (by simpa [heir, parent] using moved)
    | some reaper =>
      obtain ⟨-, ne, alive⟩ := heirOf_eq_some_iff.mp heir
      have same : d = reaper := by simpa [heir, parent] using moved
      exact Or.inr (Or.inl (same ▸ isAlive_of_exited ne look alive))
  · rw [← parent, kept]
    exact (attended c _ (Table.parentOf_of_get? before)).imp_right
      (.imp_left (isAlive_of_exited other look))

/-- The process whose exit broke off is missing from then on. -/
theorem attended_breakOff (attended : r.table.Attended (some pid))
    (look : ∀ q, t.get? q = r.table.brokenOff pid q) : t.Attended (some pid) := by
  intro c d child
  obtain ⟨p, found, parent⟩ := Table.get?_of_parentOf child
  rw [look] at found
  obtain ⟨p₀, before, -, -, ⟨-, -, orphan, -⟩ | ⟨-, kept⟩⟩ := Table.brokenOff_eq_some found
  · exact Or.inl (parent.symm.trans orphan)
  · by_cases gone : d = pid
    · exact Or.inr (Or.inr (gone ▸ rfl))
    rw [kept] at parent
    have still := attended c d (parent ▸ Table.parentOf_of_get? before)
    exact still.imp_right (.imp_left (isAlive_of_brokenOff gone look))

/-- Everything but the exit of a knotted process keeps the parents alive, and that one leaves only
the process itself missing. -/
theorem Outcome.attended (sound : r.Sound) (attended : r.table.Attended missing)
    (outcome : Outcome r q result r')
    (known : ∀ pid code, q = .exit pid code → r.table.Knotted pid → missing = some pid) :
    r'.table.Attended missing := by
  cases outcome with
  | refused => exact attended
  | slept => exact attended
  | untracked => exact attended
  | exhausted => exact attended
  | rolledBack _ _ childless _ look => exact attended_takeOut attended childless look
  | reaped found dead _ _ look =>
    refine attended_takeOut attended (sound.childless found ?_) look
    rw [Record.isZombie, dead, Option.isSome_some]
  | registered _ _ _ free _ parent _ look => exact attended_enter attended free parent look
  | exited _ _ _ _ look => exact attended_exit attended look
  | brokenOff _ _ knot _ look =>
    rw [known _ _ rfl knot] at attended ⊢
    exact attended_breakOff attended look

/-- A turn is calm if it is not the exit of a live process that breaks a rule. -/
def Turn.Calm (t : Turn) : Prop :=
  ∀ pid code fault, t.request = .exit pid code → t.before.table.isAlive pid = true →
    t.result ≠ .error (.broken fault)

instance (t : Turn) : Decidable t.Calm :=
  match request : t.request, result : t.result with
  | .exit pid _, .error (.broken _) =>
    decidable_of_iff (t.before.table.isAlive pid = false) (by grind [Turn.Calm])
  | .exit _ _, .ok _ => .isTrue (by simp [Turn.Calm, result])
  | .exit _ _, .error .asleep => .isTrue (by simp [Turn.Calm, result])
  | .exit _ _, .error (.failed _) => .isTrue (by simp [Turn.Calm, result])
  | .exit _ _, .error (.exited _) => .isTrue (by simp [Turn.Calm, result])
  | .addRoot _, _ => .isTrue (by simp [Turn.Calm, request])
  | .fork _, _ => .isTrue (by simp [Turn.Calm, request])
  | .rollBack _, _ => .isTrue (by simp [Turn.Calm, request])
  | .wait _ _, _ => .isTrue (by simp [Turn.Calm, request])

theorem Turn.Calm.free {t : Turn} (calm : t.Calm) (sound : t.before.Sound) (pid : Pid)
    (code : Int32) (request : t.request = .exit pid code) : ¬ t.before.table.Knotted pid := by
  intro knot
  obtain ⟨p, found, live⟩ := sound.live_of_knotted knot
  obtain ⟨u, events, run, -, -⟩ := sound.run_exit_knotted code found live knot
  have broken := (Turn.served request (run_serve run)).1
  exact calm pid code _ request (Table.isAlive_iff.mpr ⟨p, found, live⟩) broken

/-- As long as no exit breaks off, parents are alive. -/
theorem attended_of_run (run : Session.Run service first turns last) (sound : first.state.Sound)
    (attended : first.state.table.Attended none) (calm : ∀ t ∈ turns, t.Calm) :
    last.state.Sound ∧ last.state.table.Attended none := by
  refine (run.invariant (fun r => r.Sound ∧ r.table.Attended none) ⟨sound, attended⟩ ?_).2
  rintro (t : Turn) member ⟨sound, attended⟩
  have outcome := t.outcome sound
  refine ⟨outcome.sound sound, outcome.attended sound attended fun pid code exit knot => ?_⟩
  exact absurd knot ((calm t member).free sound pid code exit)

/-- A zombie has a live parent, which gets its status as soon as it asks. -/
theorem Sound.attended_zombie (sound : r.Sound) (attended : r.table.Attended none)
    (zombie : r.table.isZombie z = true) :
    ∃ parent status, r.table.parentOf z = some parent ∧ parent ≠ noParent ∧
      r.table.isAlive parent = true ∧ ((wait parent z).run r).result = .ok status := by
  obtain ⟨p, status, found, dead⟩ := Table.isZombie_iff.mp zombie
  have named := sound.owned found (by simp [Record.isZombie, dead])
  have child := Table.parentOf_of_get? found
  refine ⟨p.parent, status, child, named, attended.alive child named, ?_⟩
  rw [sound.run_wait_zombie found dead]

theorem Sound.table_eq_empty (sound : r.Sound) (attended : r.table.Attended none)
    (dead : ∀ pid, r.table.isAlive pid = false) : r.table = .empty := by
  have none (pid) : r.table.get? pid = none := by
    cases found : r.table.get? pid with
    | none => rfl
    | some p =>
      cases status : p.status with
      | none => exact absurd (Table.isAlive_iff.mpr ⟨p, found, status⟩) (by simp [dead])
      | some s =>
        have zombie := Table.isZombie_iff.mpr ⟨p, s, found, status⟩
        obtain ⟨parent, -, -, -, alive, -⟩ := sound.attended_zombie attended zombie
        exact absurd alive (by simp [dead])
  exact sound.consistent.ext Table.inStep_empty (by simp [none])

/-- In a run in which no exit of a live process breaks off, whatever else is asked and whatever
rules that breaks, every parent is alive, zombies have no children, and each of them has a parent
who can still fetch its status. So no zombie is ever left behind among zombies. -/
theorem zombies_attended (new : Registry.new config = .ok r₀)
    (run : Session.Run service { state := r₀ } turns last) (calm : ∀ t ∈ turns, t.Calm) :
    (∀ c parent, last.state.table.parentOf c = some parent →
      parent = noParent ∨ last.state.table.isAlive parent = true) ∧
    (∀ z, last.state.table.isZombie z = true → ∀ c, last.state.table.parentOf c ≠ some z) ∧
    (∀ z, last.state.table.isZombie z = true →
      ∃ parent status, last.state.table.parentOf z = some parent ∧ parent ≠ noParent ∧
        last.state.table.isAlive parent = true ∧
        ((wait parent z).run last.state).result = .ok status) ∧
    ((∀ pid, last.state.table.isAlive pid = false) → last.state.table = .empty) := by
  have empty : r₀.table.Attended none := by
    rw [(new_eq_ok new).1]
    exact attended_empty
  obtain ⟨sound, attended⟩ := attended_of_run run (sound_new new) empty calm
  refine ⟨?_, ?_, fun z => sound.attended_zombie attended, sound.table_eq_empty attended⟩
  · exact fun c parent child => or_iff_not_imp_left.mpr (attended.alive child)
  · intro z zombie
    obtain ⟨p, status, found, dead⟩ := Table.isZombie_iff.mp zombie
    exact sound.childless found (by simp [Record.isZombie, dead])

theorem zombies_attended_fork_exit :
    ∃ turns last, play {} [.call 0 (.addRoot 1), .call 1 (.fork 1), .call 2 (.addRoot 1),
        .call 3 (.exit 2 7)] = .ok (turns, last) ∧
      last.state.table.isZombie 2 = true ∧
      ∃ parent status, last.state.table.parentOf 2 = some parent ∧ parent ≠ noParent ∧
        last.state.table.isAlive parent = true ∧
        ((wait parent 2).run last.state).result = .ok status := by
  have played : play {} [.call 0 (.addRoot 1), .call 1 (.fork 1), .call 2 (.addRoot 1),
    .call 3 (.exit 2 7)] = .ok (_, _) := rfl
  obtain ⟨r₀, new, run⟩ := run_of_play played
  exact ⟨_, _, played, rfl, (zombies_attended new run (by decide)).2.2.1 2 rfl⟩

end Registry
end ProcessLife
