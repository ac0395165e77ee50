import ProcessLife.Proofs.Registry.Origin
import ProcessLife.Proofs.Registry.Waiting

/-!
# A reaper that never leaves

If a reaper that stands apart is registered first of all and never leaves, then there is always
somebody to take over the children of those who exit, and nothing gets lost on the way. Nobody is
ever left to itself, so only who was registered without a parent has none. A zombie that is handed
over keeps its status until the one wait that fetches it. It has to be a reaper apart: one that was
forked can be handed over to its own descendants.
-/

namespace ProcessLife.Registry

open Relation

structure Minded (heir : Pid) (r : Registry) : Prop where
  apart : r.Apart
  known : r.reaper = some heir
  alive : r.table.isAlive heir = true

/-- The request is neither the exit of `heir` nor the rollback of its fork. -/
def Request.Spares (q : Request) (heir : Pid) : Prop :=
  q ≠ .rollBack heir ∧ ∀ code, q ≠ .exit heir code

instance (q : Request) (heir : Pid) : Decidable (q.Spares heir) :=
  match q with
  | .rollBack pid => decidable_of_iff (pid ≠ heir) (by simp [Request.Spares])
  | .exit pid _ => decidable_of_iff (pid ≠ heir) (by simp [Request.Spares])
  | .addRoot _ => .isTrue (by simp [Request.Spares])
  | .fork _ => .isTrue (by simp [Request.Spares])
  | .wait _ _ => .isTrue (by simp [Request.Spares])

/-- The process that has the identifier `c` was registered without a parent. -/
def Rooted (turns : List Turn) (c : Pid) : Prop :=
  ∃ before birth after, turns = before ++ birth :: after ∧ birth.request = .addRoot c ∧
    birth.result = .ok .done ∧ ∀ t ∈ after, ¬ t.Registers c

variable {config : Config} {r r₀ r' : Registry} {first last : Session Registry Request}
  {turns between later rest : List Turn} {start birth u : Turn} {t : Table} {p : Record}
  {heir pid c a z : Pid} {code : Int32} {status : ExitStatus} {q : Request}
  {result : Except Stop Answer}

theorem Request.Spares.ne (spares : (Request.exit pid code).Spares heir) : pid ≠ heir := by
  rintro rfl
  exact spares.2 code rfl

theorem Minded.heirOf (minded : r.Minded heir) (other : pid ≠ heir) : r.heirOf pid = some heir :=
  heirOf_eq_some_iff.mpr ⟨minded.known, other.symm, minded.alive⟩

theorem Outcome.minded (minded : r.Minded heir) (spares : q.Spares heir)
    (outcome : Outcome r q result r') : r'.Minded heir where
  apart := outcome.apart minded.apart
  known := outcome.reaper.trans minded.known
  alive := outcome.isAlive_of_spared spares.1 spares.2 minded.alive

theorem minded_run (run : Session.Run service first turns last) (minded : first.state.Minded heir)
    (spares : ∀ t ∈ turns, t.request.Spares heir) :
    (∀ t ∈ turns, t.before.Minded heir) ∧ last.state.Minded heir :=
  run.invariant (Minded heir) minded fun (t : Turn) member minded =>
    (t.outcome minded.apart.sound).minded minded (spares t member)

theorem minded_start (new : Registry.new config = .ok r) (known : config.reaper = some heir)
    (apart : config.ReaperApart) (named : heir ≠ noParent) (starts : start.request = .addRoot heir)
    (found : start.before = r) : start.after.Minded heir := by
  have free : r.table.get? heir = none := Table.stage_eq_gone.mp (gone_new new)
  obtain ⟨t, -, run⟩ := run_addRoot free named
  obtain ⟨done, -⟩ := Turn.served starts (run_serve (found ▸ run))
  have first : start.before.Apart := found ▸ apart_new new apart
  have outcome := start.outcome first.sound
  have alive := outcome.alive_of_registers (Or.inl ⟨starts, done⟩)
  refine ⟨outcome.apart first, ?_, ?_⟩
  · rw [outcome.reaper, found, (follows_new new).reaper, known]
  · exact Table.isAlive_iff.mpr (Table.stage_eq_alive.mp alive)

/-- Whoever else exits leaves its children to the reaper. -/
theorem Minded.leavesTo {t : Turn} (minded : t.before.Minded heir)
    (spares : t.request.Spares heir) : t.LeavesTo heir := by
  rintro p ⟨code, exit, -⟩
  rw [exit] at spares
  rw [minded.heirOf spares.ne, Option.getD_some]

section exit

/-- An exit that has an heir leaves all others at their stages. -/
theorem stage_exited_of_heir (heirs : r.heirOf pid = some heir)
    (look : ∀ q, t.get? q = r.table.exited (r.heirOf pid) pid status q) (other : z ≠ pid) :
    t.stage z = r.table.stage z := by
  cases found : r.table.get? z with
  | none => simp [Table.stage, look, Table.exited, found]
  | some p =>
    rw [Table.stage, Table.stage, look, Table.exited_of_ne found other, found, heirs]
    split
    · rfl
    · rfl

/-- Whoever has a parent leaves a zombie. -/
theorem stage_exited_child {heir : Option Pid} (found : r.table.get? pid = some p)
    (owned : p.parent ≠ noParent) (stranger : p.parent ≠ pid)
    (look : ∀ q, t.get? q = r.table.exited heir pid status q) : t.stage pid = .zombie status := by
  rw [Table.stage, look, Table.exited, found, Option.bind_some]
  simp [stranger, owned, Stage.of]

theorem Minded.zombie_exit (minded : r.Minded heir)
    (spares : (Request.exit pid code).Spares heir)
    (outcome : Outcome r (.exit pid code) result r') (zombie : r.table.stage z = .zombie status) :
    r'.table.stage z = .zombie status := by
  cases outcome with
  | refused => exact zombie
  | untracked => exact zombie
  | registered _ registers => exact absurd rfl (registers.ne_exit pid code)
  | exited found live _ _ look =>
    have beside : z ≠ pid := by
      rintro rfl
      rw [Table.stage_eq_alive.mpr ⟨_, found, live⟩] at zombie
      cases zombie
    rw [stage_exited_of_heir (minded.heirOf spares.ne) look beside, zombie]
  | brokenOff _ _ knot => exact absurd knot minded.apart.forest.free

theorem eq_of_takeOut (look : ∀ q, t.get? q = if q = pid then none else r.table.get? q)
    (present : r.table.stage c ≠ .gone) (gone : t.stage c = .gone) : c = pid := by
  by_contra other
  rw [Table.stage, look, if_neg other] at gone
  exact present gone

/-- Who has a parent leaves only if its fork is taken back or its parent fetches its status. -/
theorem Minded.departure (minded : r.Minded heir) (spares : q.Spares heir)
    (outcome : Outcome r q result r') (link : r.table.Link c a) (named : a ≠ noParent)
    (gone : r'.table.stage c = .gone) :
    q = .rollBack c ∧ result = .ok .done ∨
      ∃ status, q = .wait a c ∧ r.table.stage c = .zombie status ∧
        result = .ok (.reaped status) := by
  have present : r.table.stage c ≠ .gone := stage_ne_gone_iff.mpr ⟨a, link⟩
  have parent {p : Record} (found : r.table.get? c = some p) : p.parent = a :=
    Option.some.inj ((Table.parentOf_of_get? found).symm.trans link)
  cases outcome with
  | refused => exact absurd gone present
  | slept => exact absurd gone present
  | exhausted => exact absurd gone present
  | untracked => exact absurd gone present
  | @registered _ _ p _ _ _ _ _ free _ _ _ look =>
    have other : c ≠ p.pid := by
      rintro rfl
      exact present (Table.stage_eq_gone.mpr free)
    rw [Table.stage, look, if_neg other] at gone
    exact absurd gone present
  | rolledBack _ _ _ _ look =>
    obtain rfl := eq_of_takeOut look present gone
    exact Or.inl ⟨rfl, rfl⟩
  | reaped found dead _ _ look =>
    obtain rfl := eq_of_takeOut look present gone
    obtain rfl := parent found
    exact Or.inr ⟨_, rfl, Table.stage_eq_zombie.mpr ⟨_, found, dead⟩, rfl⟩
  | @exited pid code p _ found _ _ _ look =>
    by_cases own : c = pid
    · subst own
      obtain rfl := parent found
      have zombie := stage_exited_child found named (minded.apart.ne_parent link).symm look
      cases zombie.symm.trans gone
    · rw [stage_exited_of_heir (minded.heirOf spares.ne) look own] at gone
      exact absurd gone present
  | brokenOff _ _ knot => exact absurd knot minded.apart.forest.free

end exit

/-- Whatever takes a process out, nobody else fetches its status, neither before nor after. -/
theorem not_fetched_beside (run : Session.Run service first (between ++ u :: (later ++ rest)) last)
    (sound : first.state.Sound) (alone : ∀ s ∈ between ++ later, ¬ s.Registers c)
    (present : u.before.table.stage c ≠ .gone) (gone : u.after.table.stage c = .gone) :
    ∀ s ∈ between ++ later, ∀ q answer, s.request = .wait q c → s.result ≠ .ok answer := by
  intro s member q answer wait answered
  have sounds := (run.invariant Sound sound fun (t : Turn) _ h => (t.outcome h).sound h).1
  obtain ⟨quiet, silent⟩ := List.forall_mem_append.mp alone
  obtain ⟨here, next, front, found, left, back⟩ := Turn.of_run run
  obtain ⟨status, -, zombie, -, -, taken⟩ :=
    s.fetched (sounds s (by simp at member ⊢; tauto)) wait answered
  rcases List.mem_append.mp member with early | late
  · obtain ⟨x, y, rfl⟩ := List.append_of_mem early
    obtain ⟨-, after, -, -, out, meanwhile⟩ := Turn.of_run front
    refine present (found ▸ (gone_run meanwhile ?_ (out ▸ taken) fun t member => ?_).2)
    · exact out ▸ (s.outcome (sounds s (by simp))).sound (sounds s (by simp))
    · exact quiet t (by simp [member])
  · obtain ⟨there, meanwhile, -⟩ := back.split
    have sound' := left ▸ (u.outcome (sounds u (by simp))).sound (sounds u (by simp))
    have missing := (gone_run meanwhile sound' (left ▸ gone) silent).1 s late
    cases zombie.symm.trans missing

/-- A process that was forked is taken out by the one who forked it, or by the reaper if that one
has exited since. -/
theorem Minded.departure_of_forked (minded : birth.before.Minded heir)
    (fork : birth.request = .fork pid) (forked : birth.result = .ok (.forked c))
    (run : Session.Run service first between last) (born : first.state = birth.after)
    (leaves : ∀ s ∈ between, s.LeavesTo heir) (alone : ∀ s ∈ between, ¬ s.Registers c)
    (meets : u.before.Minded heir) (found : u.before = last.state)
    (spares : u.request.Spares heir) (present : u.before.table.stage c ≠ .gone)
    (gone : u.after.table.stage c = .gone) :
    u.request = .rollBack c ∧ u.result = .ok .done ∨
      ∃ q status, u.request = .wait q c ∧ u.before.table.stage c = .zombie status ∧
        u.result = .ok (.reaped status) ∧
        ((∀ s ∈ between, ¬ s.Exits pid) ∧ q = pid ∨ (∃ s ∈ between, s.Exits pid) ∧ q = heir) := by
  obtain ⟨a, link⟩ := stage_ne_gone_iff.mp present
  have parent := parent_of_forked minded.apart fork forked run born leaves alone (found ▸ link)
  have named : a ≠ noParent := by
    rcases parent with ⟨-, rfl⟩ | ⟨-, rfl⟩
    · exact minded.apart.sound.ne_of_isAlive
        (Turn.isAlive_of_forked minded.apart.sound fork forked)
    · exact minded.apart.sound.ne_of_isAlive minded.alive
  rcases meets.departure spares (u.outcome meets.apart.sound) link named gone with
    taken | ⟨status, wait, zombie, answered⟩
  · exact Or.inl taken
  · exact Or.inr ⟨a, status, wait, zombie, answered, parent⟩

/-- In a run that begins with the registration of the reaper, it takes over the children of whoever
exits, as long as nobody makes it leave. -/
theorem minded_of_start (new : Registry.new config = .ok r₀) (known : config.reaper = some heir)
    (apart : config.ReaperApart) (named : heir ≠ noParent)
    (run : Session.Run service { state := r₀ } (start :: turns) last)
    (starts : start.request = .addRoot heir) (stays : ∀ t ∈ turns, t.request.Spares heir) :
    (∀ t ∈ turns, t.before.Minded heir) ∧ last.state.Minded heir ∧
      ∀ t ∈ start :: turns, t.LeavesTo heir := by
  cases run with
  | move moved rest =>
    obtain ⟨found, left⟩ := Turn.of_move moved
    obtain ⟨minded, still⟩ :=
      minded_run rest (left ▸ minded_start new known apart named starts found) stays
    refine ⟨minded, still, List.forall_mem_cons.mpr ⟨?_, ?_⟩⟩
    · rintro p ⟨code, exit, -⟩
      cases starts.symm.trans exit
    · exact fun t member => (minded t member).leavesTo (stays t member)

/-- With a reaper that stands apart, is registered first of all and never leaves, nothing gets lost.
Only who was registered without a parent has none, and going up from parent to parent one comes to
such a process from everywhere. A process that was forked leaves only if its fork is taken back or
its status is fetched, which happens once: by the one who forked it, or by the reaper if that one
has exited. No exit takes the status of a zombie away. -/
theorem reaper_loses_nothing (new : Registry.new config = .ok r₀)
    (known : config.reaper = some heir) (named : heir ≠ noParent)
    (outside : ¬ (config.firstPid ≤ heir ∧ heir ≤ config.lastPid))
    (run : Session.Run service { state := r₀ } (start :: turns) last)
    (starts : start.request = .addRoot heir)
    (stays : ∀ t ∈ turns, t.request.Spares heir) :
    (∀ c, last.state.table.parentOf c = some noParent → Rooted (start :: turns) c) ∧
    (∀ c, last.state.table.stage c ≠ .gone → ∃ root,
      ReflTransGen last.state.table.Link c root ∧ last.state.table.Link root noParent ∧
        Rooted (start :: turns) root) ∧
    (∀ before birth between u later rest p c,
      turns = before ++ birth :: (between ++ u :: (later ++ rest)) →
      birth.request = .fork p → birth.result = .ok (.forked c) →
      (∀ s ∈ between ++ later, ¬ s.Registers c) →
      u.before.table.stage c ≠ .gone → u.after.table.stage c = .gone →
      (u.request = .rollBack c ∧ u.result = .ok .done ∨
        ∃ q status, u.request = .wait q c ∧ u.before.table.stage c = .zombie status ∧
          u.result = .ok (.reaped status) ∧
          ((∀ s ∈ between, ¬ s.Exits p) ∧ q = p ∨ (∃ s ∈ between, s.Exits p) ∧ q = heir)) ∧
      ∀ s ∈ between ++ later, ∀ q answer, s.request = .wait q c → s.result ≠ .ok answer) ∧
    ∀ t ∈ turns, ∀ pid code z status, t.request = .exit pid code →
      t.before.table.stage z = .zombie status → t.after.table.stage z = .zombie status := by
  have apart : config.ReaperApart := by
    intro reaper same
    cases known.symm.trans same
    exact outside
  obtain ⟨minded, still, leaves⟩ := minded_of_start new known apart named run starts stays
  have rooted : ∀ c, last.state.table.Link c noParent → Rooted (start :: turns) c := by
    intro c link
    obtain ⟨before, birth, after, parts, ⟨root, done, -⟩ | ⟨-, -, alive⟩, since⟩ :=
      birth_of_link run (apart_new new apart) (gone_new new) leaves named.symm link
    · exact ⟨before, birth, after, parts, root, done, fun t member => (since t member).1⟩
    · have sound := (reachable_before new run (t := birth) (by simp [parts])).sound
      exact absurd rfl (sound.ne_of_isAlive alive)
  refine ⟨rooted, ?_, ?_, ?_⟩
  · intro c present
    obtain ⟨a, link⟩ := stage_ne_gone_iff.mp present
    obtain ⟨root, path, top⟩ := still.apart.exists_root c (Option.ne_none_iff_exists'.mpr ⟨a, link⟩)
    exact ⟨root, path, top, rooted root top⟩
  · rintro before birth between u later rest p c rfl fork forked alone present gone
    have here := minded birth (by simp)
    rw [← List.cons_append] at run
    obtain ⟨-, next, -, -, born, life⟩ := Turn.of_run run
    obtain ⟨meeting, -, front, found, -, -⟩ := Turn.of_run life
    have sound : next.state.Sound :=
      born ▸ (birth.outcome here.apart.sound).sound here.apart.sound
    refine ⟨?_, not_fetched_beside life sound alone present gone⟩
    exact here.departure_of_forked fork forked front born
      (fun s member => leaves s (by simp [member])) (List.forall_mem_append.mp alone).1
      (minded u (by simp)) found (stays u (by simp)) present gone
  · intro t member pid code z status exit zombie
    have outcome := t.outcome (minded t member).apart.sound
    have spares := stays t member
    rw [exit] at outcome spares
    exact (minded t member).zombie_exit spares outcome zombie

/-- A zombie is handed over to the reaper when its parent exits, which fetches the status. -/
theorem reaper_loses_nothing_handed_over :
    ∃ start fork birth ends exit fetch last, play { reaper := some 1 }
        [.call 0 (.addRoot 1), .call 1 (.fork 1), .call 2 (.fork 2), .call 3 (.exit 3 7),
          .call 4 (.exit 2 0), .call 5 (.wait 1 3)] =
            .ok (start :: ([fork] ++ birth :: ([ends, exit] ++ fetch :: ([] ++ []))), last) ∧
      exit.before.table.parentOf 3 = some 2 ∧ exit.after.table.stage 3 = .zombie (.ofCode 7) ∧
      (∃ q status, fetch.request = .wait q 3 ∧ fetch.result = .ok (.reaped status) ∧ q = 1) ∧
      ∃ root, ReflTransGen last.state.table.Link 2 root ∧ last.state.table.Link root noParent := by
  have played : play { reaper := some 1 } [.call 0 (.addRoot 1), .call 1 (.fork 1),
    .call 2 (.fork 2), .call 3 (.exit 3 7), .call 4 (.exit 2 0), .call 5 (.wait 1 3)] =
      .ok (_ :: ([_] ++ _ :: ([_, _] ++ _ :: ([] ++ []))), _) := rfl
  obtain ⟨r₀, new, run⟩ := run_of_play played
  obtain ⟨-, chains, leaves, kept⟩ :=
    reaper_loses_nothing new rfl (by decide) (by decide) run rfl (by decide)
  refine ⟨_, _, _, _, _, _, _, played, rfl, ?_, ?_, ?_⟩
  · exact kept _ (by simp) 2 0 3 _ rfl rfl
  · obtain ⟨⟨taken, -⟩ | ⟨q, status, wait, -, answered, ⟨none, -⟩ | ⟨-, reaper⟩⟩, -⟩ :=
      leaves [_] _ [_, _] _ [] [] 2 3 rfl rfl rfl (by decide) (by decide) rfl
    · cases taken
    · exact absurd ⟨0, rfl, rfl⟩ (none _ (.tail _ (.head _)))
    · exact ⟨q, status, wait, answered, reaper⟩
  · obtain ⟨root, path, top, -⟩ := chains 2 (by decide)
    exact ⟨root, path, top⟩

end ProcessLife.Registry
