import ProcessLife.Proofs.Registry.Run

/-!
# Reaping

From its registration on a process is alive, then perhaps a zombie, then gone, and it never goes
back, however the calls of others interleave. Only its own exit makes it a zombie, and only a wait
of its parent fetches the status, which the zombie does not survive. So between one registration
and the next there is at most one status to fetch, and it is the one of the only exit.
-/

namespace ProcessLife

/-- How far a process has come. -/
inductive Stage where
  | alive
  | zombie (status : ExitStatus)
  | gone
deriving DecidableEq

/-- The stage that a record shows; a process without a record is gone. -/
def Stage.of : Option Record → Stage
  | none => .gone
  | some p => p.status.elim .alive .zombie

def Table.stage (t : Table) (c : Pid) : Stage :=
  .of (t.get? c)

namespace Table

variable {t : Table} {c : Pid} {p : Record} {status : ExitStatus}

theorem stage_eq_gone : t.stage c = .gone ↔ t.get? c = none := by
  cases found : t.get? c with
  | none => simp [stage, Stage.of, found]
  | some p => cases dead : p.status <;> simp [stage, Stage.of, found, dead]

theorem stage_eq_alive : t.stage c = .alive ↔ ∃ p, t.get? c = some p ∧ p.status = none := by
  cases found : t.get? c with
  | none => simp [stage, Stage.of, found]
  | some p => cases dead : p.status <;> simp [stage, Stage.of, found, dead]

theorem stage_eq_zombie :
    t.stage c = .zombie status ↔ ∃ p, t.get? c = some p ∧ p.status = some status := by
  cases found : t.get? c with
  | none => simp [stage, Stage.of, found]
  | some p => cases dead : p.status <;> simp [stage, Stage.of, found, dead]

end Table

/-- Being let go brings nobody to another stage, unless it takes the process out. -/
theorem stage_released (heir : Option Pid) (p : Record) :
    Stage.of (p.released heir) = Stage.of (some p) ∨ Stage.of (p.released heir) = .gone := by
  cases heir with
  | some reaper => exact Or.inl rfl
  | none =>
    by_cases zombie : p.isZombie = true
    · exact Or.inr (by simp [Record.released, zombie, Stage.of])
    · exact Or.inl (by simp [Record.released, zombie, Stage.of])

namespace Registry

variable {config : Config} {r r₀ r' : Registry} {first last : Session Registry Request}
  {turns before after past : List Turn} {birth w : Turn} {t : Table} {pid c : Pid} {p : Record}
  {status : ExitStatus} {q : Request} {result : Except Stop Answer}

theorem Request.Registers.unique {d : Pid} (registers : q.Registers result c)
    (registers' : q.Registers result d) : c = d := by
  rcases registers with ⟨rfl, rfl⟩ | ⟨parent, rfl, rfl⟩
  · rcases registers' with ⟨same, -⟩ | ⟨_, fork, -⟩
    · exact Request.addRoot.inj same
    · cases fork
  · rcases registers' with ⟨root, -⟩ | ⟨_, -, same⟩
    · cases root
    · exact Answer.forked.inj (Except.ok.inj same)

theorem Outcome.free_of_registers (outcome : Outcome r q result r')
    (registers : q.Registers result c) : r.table.stage c = .gone := by
  cases outcome with
  | registered _ registers' _ free =>
    obtain rfl := registers.unique registers'
    exact Table.stage_eq_gone.mpr free
  | _ => rcases registers with ⟨⟨⟩, ⟨⟩⟩ | ⟨_, ⟨⟩, ⟨⟩⟩

theorem Outcome.alive_of_registers (outcome : Outcome r q result r')
    (registers : q.Registers result c) : r'.table.stage c = .alive := by
  cases outcome with
  | registered _ registers' _ _ live _ _ look =>
    refine Table.stage_eq_alive.mpr ⟨_, ?_, live⟩
    rw [look, if_pos (registers.unique registers')]
  | _ => rcases registers with ⟨⟨⟩, ⟨⟩⟩ | ⟨_, ⟨⟩, ⟨⟩⟩

theorem stage_exited {heir : Option Pid}
    (look : ∀ q, t.get? q = r.table.exited heir pid status q) (other : c ≠ pid) :
    t.stage c = r.table.stage c ∨ t.stage c = .gone := by
  cases found : r.table.get? c with
  | none => exact Or.inr (by simp [Table.stage, look, Table.exited, found, Stage.of])
  | some p =>
    rw [Table.stage, Table.stage, look, Table.exited_of_ne found other, found]
    split
    · exact stage_released heir p
    · exact Or.inl rfl

theorem stage_exited_self {heir : Option Pid} (found : r.table.get? pid = some p)
    (look : ∀ q, t.get? q = r.table.exited heir pid status q) :
    t.stage pid = .zombie status ∨ t.stage pid = .gone := by
  rw [Table.stage, look, Table.exited, found, Option.bind_some]
  simp only [if_true, true_and]
  split
  · exact stage_released heir { p with status := some status }
  · split
    · exact Or.inr rfl
    · exact Or.inl rfl

theorem stage_brokenOff (look : ∀ q, t.get? q = r.table.brokenOff pid q) (c : Pid) :
    t.stage c = r.table.stage c ∨ t.stage c = .gone := by
  cases found : r.table.get? c with
  | none => exact Or.inr (by simp [Table.stage, look, Table.brokenOff, found, Stage.of])
  | some p =>
    rw [Table.stage, Table.stage, look, Table.brokenOff, found, Option.bind_some]
    split
    · exact Or.inr rfl
    · split
      · exact stage_released none p
      · exact Or.inl rfl

theorem stage_takeOut (look : ∀ q, t.get? q = if q = pid then none else r.table.get? q) (c : Pid) :
    t.stage c = r.table.stage c ∨ t.stage c = .gone := by
  by_cases same : c = pid
  · exact Or.inr (by rw [Table.stage, look, if_pos same, Stage.of])
  · exact Or.inl (by rw [Table.stage, Table.stage, look, if_neg same])

/-- What a request does to the stage of a process. -/
inductive Passage (r : Registry) (q : Request) (result : Except Stop Answer) (r' : Registry)
    (c : Pid) : Prop
  | keeps (kept : r'.table.stage c = r.table.stage c)
      (spared : ∀ code, q = .exit c code → r.table.stage c ≠ .alive)
  | leaves (gone : r'.table.stage c = .gone)
  | ends {code : Int32} (alive : r.table.stage c = .alive) (exit : q = .exit c code)
      (done : result = .ok .done) (zombie : r'.table.stage c = .zombie (.ofCode code))
  | begins (free : r.table.stage c = .gone) (registers : q.Registers result c)

theorem Passage.other (fate : r'.table.stage c = r.table.stage c ∨ r'.table.stage c = .gone)
    (spared : ∀ code, q = .exit c code → r.table.stage c ≠ .alive) : Passage r q result r' c :=
  fate.elim (fun kept => .keeps kept spared) .leaves

/-- Every request leaves a process at its stage, or takes it out, or is its own exit, or registers
it. -/
theorem Outcome.passage (outcome : Outcome r q result r') (c : Pid) :
    Passage r q result r' c := by
  cases outcome with
  | refused _ spared =>
    refine .keeps rfl fun code exit alive => ?_
    rw [Table.stage_eq_alive, ← Table.isAlive_iff, spared c code exit] at alive
    cases alive
  | slept => exact .keeps rfl (by simp)
  | exhausted => exact .keeps rfl (by simp)
  | untracked missing =>
    refine .keeps rfl ?_
    rintro _ ⟨⟩ alive
    rw [Table.stage_eq_gone.mpr missing] at alive
    cases alive
  | @registered _ _ p _ _ _ registers _ free _ _ _ look =>
    by_cases new : c = p.pid
    · subst new
      exact .begins (Table.stage_eq_gone.mpr free) registers
    · refine .keeps (by rw [Table.stage, Table.stage, look, if_neg new]) fun code exit => ?_
      exact absurd exit (registers.ne_exit c code)
  | rolledBack _ _ _ _ look => exact .other (stage_takeOut look c) (by simp)
  | reaped _ _ _ _ look => exact .other (stage_takeOut look c) (by simp)
  | @exited pid code _ _ found live _ _ look =>
    by_cases same : c = pid
    · subst same
      rcases stage_exited_self found look with zombie | gone
      · exact .ends (Table.stage_eq_alive.mpr ⟨_, found, live⟩) rfl rfl zombie
      · exact .leaves gone
    · refine .other (stage_exited look same) ?_
      rintro _ ⟨⟩
      exact absurd rfl same
  | @brokenOff pid _ _ t _ _ _ _ look =>
    by_cases same : c = pid
    · exact .leaves (Table.stage_eq_gone.mpr (by simp [same, look, Table.brokenOff]))
    · refine .other (stage_brokenOff look c) ?_
      rintro _ ⟨⟩
      exact absurd rfl same

/-- A wait that is answered fetches the status of a zombie for its parent, and the zombie is
gone. -/
theorem Turn.fetched {t : Turn} (sound : t.before.Sound) {parent : Pid} {answer : Answer}
    (request : t.request = .wait parent c) (answered : t.result = .ok answer) :
    ∃ status, answer = .reaped status ∧ t.before.table.stage c = .zombie status ∧
      parent ≠ noParent ∧ t.before.table.parentOf c = some parent ∧
      t.after.table.stage c = .gone := by
  have outcome := t.outcome sound
  rw [request, answered] at outcome
  generalize t.after = r' at outcome ⊢
  cases outcome with
  | registered _ registers => rcases registers with ⟨wait, -⟩ | ⟨_, wait, -⟩ <;> cases wait
  | reaped found dead owned _ look =>
    exact ⟨_, rfl, Table.stage_eq_zombie.mpr ⟨_, found, dead⟩, owned, Table.parentOf_of_get? found,
      Table.stage_eq_gone.mpr (by simp [look])⟩

theorem Turn.exit_refused {t : Turn} (sound : t.before.Sound) {code : Int32}
    (zombie : t.before.table.stage c = .zombie status) (request : t.request = .exit c code) :
    t.result = .error (.broken (.alreadyExited c)) := by
  obtain ⟨p, found, dead⟩ := Table.stage_eq_zombie.mp zombie
  have refused : (exit c code).run t.before = _ :=
    run_exit_zombie found (by simp [Record.isZombie, dead])
  rw [sound.consistent.keyed found] at refused
  exact (Turn.served request (run_serve refused)).1

theorem Turn.wait_unregistered {t : Turn} {parent : Pid} (gone : t.before.table.stage c = .gone)
    (request : t.request = .wait parent c) : t.result = .error (.failed .esrch) :=
  (Turn.served request (run_serve (run_wait_unregistered (Table.stage_eq_gone.mp gone)))).1

theorem gone_new (new : Registry.new config = .ok r) : r.table.stage c = .gone := by
  rw [Table.stage_eq_gone, (new_eq_ok new).1, Table.get?_empty]

/-- A process that is gone is gone until it is registered again. -/
theorem gone_run (run : Session.Run service first turns last) (sound : first.state.Sound)
    (gone : first.state.table.stage c = .gone)
    (meanwhile : ∀ t ∈ turns, ¬ t.request.Registers t.result c) :
    (∀ t ∈ turns, t.before.table.stage c = .gone) ∧ last.state.table.stage c = .gone := by
  have throughout := run.invariant (fun r => r.Sound ∧ r.table.stage c = .gone) ⟨sound, gone⟩ ?_
  · exact ⟨fun t member => (throughout.1 t member).2, throughout.2.2⟩
  · rintro (t : Turn) member ⟨sound, gone⟩
    have outcome := t.outcome sound
    refine ⟨outcome.sound sound, ?_⟩
    cases outcome.passage c with
    | keeps kept => exact kept.trans gone
    | leaves gone => exact gone
    | ends alive => simp [gone] at alive
    | begins _ registers => exact absurd registers (meanwhile t member)

/-- If anything in a list is so, then something is the last. -/
theorem exists_last {α : Type} {p : α → Prop} {l : List α} (some : ∃ a ∈ l, p a) :
    ∃ front a back, l = front ++ a :: back ∧ p a ∧ ∀ b ∈ back, ¬ p b := by
  induction l with
  | nil => simp at some
  | cons a l ih =>
    by_cases later : ∃ b ∈ l, p b
    · obtain ⟨front, b, back, rfl, holds, none⟩ := ih later
      exact ⟨a :: front, b, back, rfl, holds, none⟩
    · obtain ⟨b, member, holds⟩ := some
      rcases List.mem_cons.mp member with rfl | member
      · exact ⟨[], b, l, rfl, holds, fun b member holds => later ⟨b, member, holds⟩⟩
      · exact absurd ⟨b, member, holds⟩ later

/-- Whoever is there although nobody was at first has been registered, and there is a last time. -/
theorem registered_since (run : Session.Run service first turns last) (sound : first.state.Sound)
    (free : first.state.table.stage c = .gone) (present : last.state.table.stage c ≠ .gone) :
    ∃ before birth after, turns = before ++ birth :: after ∧
      birth.request.Registers birth.result c ∧ ∀ t ∈ after, ¬ t.request.Registers t.result c := by
  apply exists_last
  apply Classical.byContradiction
  intro none
  exact present (gone_run run sound free fun t member registers => none ⟨t, member, registers⟩).2

/-- A zombie that is still there at the end was there all the time. -/
theorem zombie_run (run : Session.Run service first turns last) (sound : first.state.Sound)
    {was is : ExitStatus} (zombie : first.state.table.stage c = .zombie was)
    (meanwhile : ∀ t ∈ turns, ¬ t.request.Registers t.result c)
    (still : last.state.table.stage c = .zombie is) :
    is = was ∧ ∀ t ∈ turns, t.before.table.stage c = .zombie was := by
  induction run with
  | stay =>
    rw [zombie, Stage.zombie.injEq] at still
    exact ⟨still.symm, fun _ h => (List.not_mem_nil h).elim⟩
  | @move first next last m turn turns moved rest ih =>
    obtain ⟨found, left⟩ := Turn.of_move moved
    rw [← found] at sound zombie
    have outcome := Turn.outcome turn sound
    have sound' : next.state.Sound := left ▸ outcome.sound sound
    rw [List.forall_mem_cons] at meanwhile
    cases outcome.passage c with
    | keeps kept =>
      obtain ⟨same, throughout⟩ := ih sound' (left ▸ kept.trans zombie) meanwhile.2 still
      exact ⟨same, List.forall_mem_cons.mpr ⟨zombie, throughout⟩⟩
    | leaves gone =>
      have gone := (gone_run rest sound' (left ▸ gone) meanwhile.2).2
      simp [gone] at still
    | ends alive => simp [zombie] at alive
    | begins free => simp [zombie] at free

/-- A process that lived at first and is a zombie at the end has exited in between, once, and the
status is that of the exit. -/
theorem alive_run (run : Session.Run service first turns last) (sound : first.state.Sound)
    (alive : first.state.table.stage c = .alive)
    (meanwhile : ∀ t ∈ turns, ¬ t.request.Registers t.result c)
    (dead : last.state.table.stage c = .zombie status) :
    ∃ living exit zombie code, turns = living ++ exit :: zombie ∧
      (∀ t ∈ living, ∀ code, t.request ≠ .exit c code) ∧
      exit.request = .exit c code ∧ exit.before.table.stage c = .alive ∧
      exit.result = .ok .done ∧ status = .ofCode code ∧
      ∀ t ∈ zombie, t.before.table.stage c = .zombie status := by
  induction run with
  | stay => simp [alive] at dead
  | @move first next last m turn turns moved rest ih =>
    obtain ⟨found, left⟩ := Turn.of_move moved
    rw [← found] at sound alive
    have outcome := Turn.outcome turn sound
    have sound' : next.state.Sound := left ▸ outcome.sound sound
    rw [List.forall_mem_cons] at meanwhile
    cases outcome.passage c with
    | keeps kept spared =>
      obtain ⟨living, exit, zombie, code, rfl, before, rest⟩ :=
        ih sound' (left ▸ kept.trans alive) meanwhile.2 dead
      refine ⟨turn :: living, exit, zombie, code, rfl, List.forall_mem_cons.mpr ⟨?_, before⟩, rest⟩
      exact fun code exit => spared code exit alive
    | leaves gone =>
      have gone := (gone_run rest sound' (left ▸ gone) meanwhile.2).2
      simp [gone] at dead
    | @ends code _ exit done zombie =>
      obtain ⟨rfl, throughout⟩ := zombie_run rest sound' (left ▸ zombie) meanwhile.2 dead
      exact ⟨[], turn, turns, code, rfl, fun _ h => (List.not_mem_nil h).elim, exit, alive, done,
        rfl, throughout⟩
    | begins free => simp [alive] at free

theorem gone_after_fetch (run : Session.Run service first (before ++ w :: after) last)
    (sound : first.state.Sound) (meanwhile : ∀ t ∈ after, ¬ t.request.Registers t.result c)
    {parent : Pid} {answer : Answer} (request : w.request = .wait parent c)
    (answered : w.result = .ok answer) : ∀ t ∈ after, t.before.table.stage c = .gone := by
  obtain ⟨next, front, back⟩ := run.split
  have sound' := sound_of_run front sound
  cases back with
  | move moved rest =>
    obtain ⟨found, left⟩ := Turn.of_move moved
    rw [← found] at sound'
    obtain ⟨-, -, -, -, -, gone⟩ := w.fetched sound' request answered
    exact (gone_run rest (left ▸ (w.outcome sound').sound sound') (left ▸ gone) meanwhile).1

/-- Before the status was fetched, the process lived until it exited. -/
theorem exit_before_fetch (run : Session.Run service first (before ++ w :: after) last)
    (sound : first.state.Sound) (alive : first.state.table.stage c = .alive)
    (meanwhile : ∀ t ∈ before, ¬ t.request.Registers t.result c) {parent : Pid}
    {answer : Answer} (request : w.request = .wait parent c) (answered : w.result = .ok answer) :
    ∃ living exit zombie code, before = living ++ exit :: zombie ∧
      (∀ t ∈ living, ∀ code, t.request ≠ .exit c code) ∧
      exit.request = .exit c code ∧ exit.before.table.stage c = .alive ∧ exit.result = .ok .done ∧
      answer = .reaped (.ofCode code) ∧
      ∀ t ∈ zombie, t.before.table.stage c = .zombie (.ofCode code) := by
  obtain ⟨next, front, back⟩ := run.split
  have sound' := sound_of_run front sound
  cases back with
  | move moved rest =>
    obtain ⟨found, -⟩ := Turn.of_move moved
    rw [← found] at sound'
    obtain ⟨status, rfl, zombie, -⟩ := w.fetched sound' request answered
    obtain ⟨living, exit, dead, code, parts, before, ends, lived, done, rfl, zombies⟩ :=
      alive_run front sound alive meanwhile (found ▸ zombie)
    exact ⟨living, exit, dead, code, parts, before, ends, lived, done, rfl, zombies⟩

/-- Between a registration and the next, the status of a process is fetched once at most: by its
parent, after its only exit, and it is the status of that exit. Another exit is refused as long as
the zombie is there, and finds nobody later. Every wait after the fetch, whether it just came in or
has slept before, finds no such process. -/
theorem reaped_once (new : Registry.new config = .ok r₀)
    (run : Session.Run service { state := r₀ } (past ++ birth :: (before ++ w :: after)) last)
    (registers : birth.request.Registers birth.result c)
    (meanwhile : ∀ t ∈ before ++ w :: after, ¬ t.request.Registers t.result c) {parent : Pid}
    {answer : Answer} (request : w.request = .wait parent c) (answered : w.result = .ok answer) :
    (∀ t ∈ before ++ after, ∀ q other, t.request = .wait q c → t.result ≠ .ok other) ∧
    parent ≠ noParent ∧ w.before.table.parentOf c = some parent ∧
    (∃ living exit zombie code, before = living ++ exit :: zombie ∧
      exit.request = .exit c code ∧ exit.before.table.isAlive c = true ∧
      exit.result = .ok .done ∧ answer = .reaped (.ofCode code) ∧
      (∀ t ∈ living, ∀ again, t.request ≠ .exit c again) ∧
      (∀ t ∈ zombie, ∀ again, t.request = .exit c again →
        t.result = .error (.broken (.alreadyExited c)))) ∧
    (∀ t ∈ after, ∀ again, t.request = .exit c again → t.before.table.get? c = none) ∧
    ∀ t ∈ after, ∀ q, t.request = .wait q c → t.result = .error (.failed .esrch) := by
  obtain ⟨start, front, back⟩ := run.split
  have sound := sound_of_run front (sound_new new)
  cases back with
  | move moved rest =>
    obtain ⟨found, left⟩ := Turn.of_move moved
    rw [← found] at sound
    have outcome := birth.outcome sound
    have sound' := left ▸ outcome.sound sound
    have alive := left ▸ outcome.alive_of_registers registers
    have always := (rest.invariant Sound sound' fun (t : Turn) _ h => (t.outcome h).sound h).1
    obtain ⟨quiet, later⟩ := List.forall_mem_append.mp meanwhile
    obtain ⟨living, exit, zombie, code, parts, none, ends, lived, done, status, zombies⟩ :=
      exit_before_fetch rest sound' alive quiet request answered
    obtain ⟨-, -, -, named, child, -⟩ := w.fetched (always w (by simp)) request answered
    have gone : ∀ t ∈ after, t.before.table.stage c = .gone :=
      gone_after_fetch rest sound' (List.forall_mem_cons.mp later).2 request answered
    have lost : ∀ t ∈ after, ∀ q, t.request = .wait q c → t.result = .error (.failed .esrch) :=
      fun t member q wait => Turn.wait_unregistered (gone t member) wait
    refine ⟨?_, named, child, ⟨living, exit, zombie, code, parts, ends, ?_, done, status, none, ?_⟩,
      ?_, lost⟩
    · intro t member q other wait fetched
      rcases List.mem_append.mp member with early | late
      · -- After an earlier fetch the process would be gone already.
        obtain ⟨x, y, rfl⟩ := List.append_of_mem early
        rw [List.append_assoc, List.cons_append] at rest meanwhile
        have between := (List.forall_mem_cons.mp (List.forall_mem_append.mp meanwhile).2).2
        have missing := gone_after_fetch rest sound' between wait fetched w (by simp)
        simp [Table.parentOf, Table.stage_eq_gone.mp missing] at child
      · simp [lost t late q wait] at fetched
    · exact Table.isAlive_iff.mpr (Table.stage_eq_alive.mp lived)
    · intro t member again exits
      refine t.exit_refused (always t ?_) (zombies t member) exits
      simp [parts, member]
    · exact fun t member _ _ => Table.stage_eq_gone.mp (gone t member)

/-- A wait falls asleep, the child exits, and the wait is answered when it wakes; another one comes
too late. -/
theorem reaped_once_by_sleeper :
    ∃ root birth sleep exit w late last, play {}
        [.call 0 (.addRoot 1), .call 1 (.fork 1), .call 2 (.wait 1 2), .call 3 (.exit 2 7), .wake 0,
          .call 4 (.wait 1 2)] = .ok ([root] ++ birth :: ([sleep, exit] ++ w :: [late]), last) ∧
      sleep.result = .error .asleep ∧ w.result = .ok (.reaped (.ofCode 7)) ∧
      w.before.table.parentOf 2 = some 1 ∧ late.result = .error (.failed .esrch) := by
  have played : play {} [.call 0 (.addRoot 1), .call 1 (.fork 1), .call 2 (.wait 1 2),
    .call 3 (.exit 2 7), .wake 0, .call 4 (.wait 1 2)] =
      .ok ([_] ++ _ :: ([_, _] ++ _ :: [_]), _) := rfl
  obtain ⟨r₀, new, run⟩ := run_of_play played
  obtain ⟨-, -, child, -, -, lost⟩ := reaped_once new run (Or.inr ⟨1, rfl, rfl⟩)
    (by simp [Request.Registers]) rfl rfl
  exact ⟨_, _, _, _, _, _, _, played, rfl, rfl, child, lost _ (.head _) 1 rfl⟩

end Registry
end ProcessLife
