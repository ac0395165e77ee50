import ProcessLife.Proofs.Registry.Reaping
import ProcessLife.Proofs.Registry.Waiting
import ProcessLife.Proofs.Session.Course

/-!
# Whose status it is

A waiting call knows its child by the identifier only, and looks it up again whenever it wakes. Once
a process is out of the table the identifier can be given to another one. As a rule those who waited
have noticed by then: an exit notifies them, and they find that the process is gone. But they do not
notice if the fork of the process is taken back, since that notifies nobody, and they notice too
late if the identifier is given away before they have had their turn. Then the status they get is
that of the successor. `target_or_successor` shows that there is no other way to be mistaken.
-/

namespace ProcessLife.Registry

variable {config : Config} {r r₀ r' : Registry} {first last : Session Registry Request}
  {past rest served later steps : List Step} {call w : Step} {c parent : Pid} {id : Nat}
  {status : ExitStatus} {q : Request} {result : Except Stop Answer} {answer : Answer}

namespace Step

def Registers (s : Step) (c : Pid) : Prop :=
  s.turn.request.Registers (Turn.result s.turn) c

/-- The step has ended the life of `c`, which has exited or whose fork was taken back. -/
def Ends (s : Step) (c : Pid) : Prop :=
  (s.turn.request = .rollBack c ∨ ∃ code, s.turn.request = .exit c code) ∧
    s.first.state.table.isAlive c = true ∧ s.next.state.table.isAlive c = false

end Step

/-- The process that was registered in the step `birth` exited with this status in the course of the
steps that followed, in which no other one was registered under its identifier. -/
structure Lived (c : Pid) (birth : Step) (steps : List Step) (status : ExitStatus) : Prop where
  registers : birth.Registers c
  alone : ∀ s ∈ steps, ¬ s.Registers c
  exits : ∃ s ∈ steps, ∃ code, s.turn.request = .exit c code ∧
    s.first.state.table.isAlive c = true ∧ Turn.result s.turn = .ok .done ∧
    status = .ofCode code

/-- The status is that of a successor: after an attempt of the call `id`, which found the process
alive and fell asleep, and before another attempt, the life of the process ended and the identifier
was given away. -/
def Overtaken (id : Nat) (c : Pid) (served : List Step) (status : ExitStatus) : Prop :=
  ∃ before attempt back birth after, served = before ++ attempt :: (back ++ birth :: after) ∧
    attempt.turn.id = id ∧ Turn.result attempt.turn = .error .asleep ∧
    (∀ s ∈ back, s.turn.id ≠ id) ∧ (∃ s ∈ back, s.Ends c) ∧ Lived c birth after status

theorem stage_alive_iff {t : Table} : t.stage c = .alive ↔ t.isAlive c = true :=
  Table.stage_eq_alive.trans Table.isAlive_iff.symm

/-- Where a process lived at first and no longer does, a step in between has ended its life. -/
theorem exists_ends (history : History service first steps last) (sound : first.state.Sound)
    (alive : first.state.table.isAlive c = true) (dead : last.state.table.isAlive c ≠ true) :
    ∃ s ∈ steps, Step.Ends s c := by
  induction history with
  | stay => exact absurd alive dead
  | step s rest ih =>
    by_cases still : s.next.state.table.isAlive c = true
    · obtain ⟨u, member, ends⟩ := ih (Step.sound_next s sound) still dead
      exact ⟨u, List.mem_cons_of_mem _ member, ends⟩
    · refine ⟨s, List.mem_cons_self, ?_, alive, Bool.eq_false_iff.mpr still⟩
      refine Classical.byContradiction fun neither => still ?_
      rw [not_or, not_exists] at neither
      exact (Step.outcome s sound).isAlive_of_spared neither.1 neither.2 alive

/-- Whoever is there although nobody was at first has come in a step, and there is a last one. -/
theorem exists_birth (history : History service first steps last) (sound : first.state.Sound)
    (free : first.state.table.stage c = .gone) (present : last.state.table.stage c ≠ .gone) :
    ∃ before birth after, steps = before ++ birth :: after ∧ Step.Registers birth c ∧
      ∀ s ∈ after, ¬ Step.Registers s c := by
  obtain ⟨turns, turn, later, parts, registers, none⟩ :=
    registered_since history.run sound free present
  obtain ⟨before, rest, rfl, -, same⟩ := List.map_eq_append_iff.mp parts
  obtain ⟨birth, after, rfl, rfl, rfl⟩ := List.map_eq_cons_iff.mp same
  exact ⟨before, birth, after, rfl, registers,
    fun s member => none s.turn (List.mem_map_of_mem member)⟩

theorem lived_of_zombie {birth : Step} (sound : birth.first.state.Sound)
    (registers : birth.Registers c) (history : History service birth.next steps last)
    (alone : ∀ s ∈ steps, ¬ Step.Registers s c)
    (dead : last.state.table.stage c = .zombie status) : Lived c birth steps status := by
  have alive := (birth.outcome sound).alive_of_registers registers
  obtain ⟨living, exit, zombie, code, parts, -, request, lived, done, rfl, -⟩ :=
    alive_run history.run (birth.sound_next sound) alive (List.forall_mem_map.mpr alone) dead
  have member : exit ∈ steps.map (·.turn) := by simp [parts]
  obtain ⟨s, came, rfl⟩ := List.mem_map.mp member
  exact ⟨registers, alone, s, came, code, request, s.before_turn ▸ stage_alive_iff.mp lived, done,
    rfl⟩

theorem Step.isAlive_of_slept (s : Step) (sound : s.first.state.Sound)
    (request : s.turn.request = .wait parent c) (slept : Turn.result s.turn = .error .asleep) :
    s.next.state.table.isAlive c = true := by
  have outcome := s.outcome sound
  rw [request, slept] at outcome
  generalize s.next.state = r' at outcome ⊢
  cases outcome with
  | refused awake => exact absurd rfl awake
  | slept found live => exact Table.isAlive_iff.mpr ⟨_, found, live⟩

/-- If a process is gone that a call has waited for, then its life has ended since the last attempt
of the call. -/
theorem ends_after_attempt (history : History service first steps last) (sound : first.state.Sound)
    (tried : ∃ s ∈ steps, s.turn.id = id)
    (slept : ∀ s ∈ steps, s.turn.id = id →
      s.turn.request = .wait parent c ∧ Turn.result s.turn = .error .asleep)
    (gone : last.state.table.stage c = .gone) :
    ∃ before attempt back, steps = before ++ attempt :: back ∧ attempt.turn.id = id ∧
      Turn.result attempt.turn = .error .asleep ∧ (∀ s ∈ back, s.turn.id ≠ id) ∧
      ∃ s ∈ back, Step.Ends s c := by
  obtain ⟨before, attempt, back, rfl, own, none⟩ := exists_last tried
  obtain ⟨request, asleep⟩ := slept attempt (by simp) own
  have sound' := (sound_of_history history sound).1 attempt (by simp)
  have alive := Step.isAlive_of_slept attempt sound' request asleep
  refine ⟨before, attempt, back, rfl, own, asleep, none, ?_⟩
  refine exists_ends history.cut.2 (Step.sound_next attempt sound') alive fun still => ?_
  rw [stage_alive_iff.mpr still] at gone
  cases gone

/-- A zombie under an identifier that was not given away since a call came in is the process that
was registered then. -/
theorem lived_since_call {coming : Session Registry Request}
    (called : History service first past coming) (sound : first.state.Sound)
    (free : first.state.table.stage c = .gone) (serving : History service coming served last)
    (alone : ∀ s ∈ served, ¬ Step.Registers s c)
    (zombie : last.state.table.stage c = .zombie status) :
    coming.state.table.contains c = true ∧ ∃ old birth young, past = old ++ birth :: young ∧
      Lived c birth (young ++ served) status := by
  have sounds := sound_of_history called sound
  have present : coming.state.table.stage c ≠ .gone := by
    intro gone
    have still := (gone_run serving.run sounds.2 gone (List.forall_mem_map.mpr alone)).2
    simp [still] at zombie
  obtain ⟨old, birth, young, rfl, registers, since⟩ := exists_birth called sound free present
  obtain ⟨-, aging⟩ := called.cut
  refine ⟨?_, old, birth, young, rfl, lived_of_zombie (sounds.1 birth (by simp)) registers
    (aging.append serving) (List.forall_mem_append.mpr ⟨since, alone⟩) zombie⟩
  rw [Table.contains_eq_isSome, Option.isSome_iff_ne_none]
  exact fun missing => present (Table.stage_eq_gone.mpr missing)

/-- If the identifier was given away since the call came in, then the life of the process it waited
for had ended, and the call has not tried in between. -/
theorem lived_after_call (serving : History service call.first (call :: steps) last)
    (sound : call.first.state.Sound) (number : call.turn.id = id)
    (slept : ∀ s ∈ call :: steps, s.turn.id = id →
      s.turn.request = .wait parent c ∧ Turn.result s.turn = .error .asleep)
    (reborn : ∃ s ∈ call :: steps, Step.Registers s c)
    (zombie : last.state.table.stage c = .zombie status) :
    Overtaken id c (call :: steps) status := by
  obtain ⟨front, birth, after, parts, registers, alone⟩ := exists_last reborn
  have tried : ∃ s ∈ front, s.turn.id = id := by
    cases front with
    | nil =>
      cases parts
      have waits := (slept call List.mem_cons_self number).1
      rcases registers with ⟨root, -⟩ | ⟨_, fork, -⟩
      · cases waits.symm.trans root
      · cases waits.symm.trans fork
    | cons _ front =>
      cases parts
      exact ⟨call, List.mem_cons_self, number⟩
  rw [parts] at serving slept ⊢
  obtain ⟨before, since⟩ := serving.cut
  have sound' := (sound_of_history serving sound).1 birth (by simp)
  have free := (Step.outcome birth sound').free_of_registers registers
  obtain ⟨x, attempt, back, rfl, again, asleep, none, ends⟩ :=
    ends_after_attempt before sound tried (List.forall_mem_append.mp slept).1 free
  exact ⟨x, attempt, back, birth, after, by simp, again, asleep, none, ends,
    lived_of_zombie sound' registers since alone zombie⟩

/-- A wait that is answered gets the status of the process that was registered under the identifier
when the call came in, unless a successor has overtaken the call: then it gets the status of that
one. -/
theorem target_or_successor (new : Registry.new config = .ok r₀)
    (history : History service { state := r₀ } (past ++ call :: rest) last)
    (arrives : call.move = .call id (.wait parent c))
    (foreign : ∀ s ∈ past ++ rest, ¬ s.Calls id)
    (course : call :: rest = served ++ w :: later) (own : w.turn.id = id)
    (answered : Turn.result w.turn = .ok answer) :
    ∃ status, answer = .reaped status ∧
      ((call.first.state.table.contains c = true ∧ ∃ old birth young, past = old ++ birth :: young ∧
          Lived c birth (young ++ served) status) ∨
        Overtaken id c served status) := by
  have turns : ∀ front (s : Step) back, call :: rest = front ++ s :: back → s.turn.id = id →
      s.turn.request = .wait parent c ∧
        ((∃ t ∈ back, t.turn.id = id) → Turn.result s.turn = .error .asleep) :=
    fun _ _ _ parts own => history.turns_of_call rfl arrives foreign parts own
  obtain ⟨request, -⟩ := turns served w later course own
  have slept : ∀ s ∈ served, s.turn.id = id →
      s.turn.request = .wait parent c ∧ Turn.result s.turn = .error .asleep := by
    intro s member again
    obtain ⟨x, y, rfl⟩ := List.append_of_mem member
    obtain ⟨makes, asleep⟩ := turns x s (y ++ w :: later) (by simp [course]) again
    exact ⟨makes, asleep ⟨w, by simp, own⟩⟩
  have start := sound_new new
  obtain ⟨called, coming⟩ := history.cut
  have sound := (sound_of_history called start).2
  have serving : History service call.first (call :: rest) last := .step call coming
  rw [course] at serving
  have serving := serving.cut.1
  obtain ⟨status, rfl, zombie, -⟩ :=
    Turn.fetched (w.before_turn ▸ (sound_of_history serving sound).2) request answered
  rw [w.before_turn] at zombie
  refine ⟨status, rfl, ?_⟩
  by_cases reborn : ∃ s ∈ served, Step.Registers s c
  · refine Or.inr ?_
    cases served with
    | nil => simp at reborn
    | cons _ served =>
      cases course
      have number := congrArg (·.id) (Step.of_call arrives).1
      exact lived_after_call serving sound number slept reborn zombie
  · have alone : ∀ s ∈ served, ¬ Step.Registers s c := fun s member registers =>
      reborn ⟨s, member, registers⟩
    exact Or.inl (lived_since_call called start (gone_new new) serving alone zombie)

/-- The step in which a fork is taken back. It lets everybody sleep on. -/
theorem exists_rollBack {session : Session Registry Request} {p : Record} (pid : Pid)
    (sound : session.state.Sound) (found : session.state.table.get? pid = some p)
    (live : p.status = none) (childless : session.state.table.children pid = []) (id : Nat) :
    ∃ s : Step, s.first = session ∧ s.move = .call id (.rollBack pid) ∧
      s.next = ⟨{ session.state with table := (session.state.table.remove pid).2 },
        session.sleepers⟩ := by
  have none : session.state.table.leastChild? pid = none := by
    rw [Table.leastChild?_eq_head?, childless, List.head?_nil]
  let step := Step.arrival service session id (.rollBack pid)
  obtain ⟨done, left⟩ :=
    Turn.served (t := step.turn) rfl (run_serve (sound.run_rollBack found live none).2)
  have stay : step.next.sleepers = session.sleepers :=
    Step.sleepers_of_ended rfl fun slept => by cases done.symm.trans slept
  exact ⟨step, rfl, rfl, congrArg₂ Session.mk left stay⟩

/-- While a call sleeps, the fork of the process it waits for is taken back and the identifier given
to another process. The call is woken by the exit of that one and gets its status. -/
theorem successor_after_rollBack :
    ∃ r₀ past call served w last, Registry.new { firstPid := 2, lastPid := 2 } = .ok r₀ ∧
      History service { state := r₀ } (past ++ call :: (served ++ [w])) last ∧
      (past ++ call :: (served ++ [w])).map (·.move) =
        [.call 0 (.addRoot 1), .call 1 (.fork 1), .call 2 (.wait 1 2), .call 3 (.rollBack 2),
          .call 4 (.fork 1), .call 5 (.exit 2 7), .wake 0] ∧
      w.turn.id = 2 ∧ Turn.result w.turn = .ok (.reaped (.ofCode 7)) ∧
      Overtaken 2 2 (call :: served) (.ofCode 7) := by
  have recorded : service.record (Registry.new { firstPid := 2, lastPid := 2 })
      [.call 0 (.addRoot 1), .call 1 (.fork 1), .call 2 (.wait 1 2)] = .ok ([_, _, _], _) := rfl
  obtain ⟨r₀, new, begun⟩ := service.history_of_record recorded
  have sound := (sound_of_history begun (sound_new new)).2
  obtain ⟨taken, first, move, next⟩ := exists_rollBack 2 sound rfl rfl rfl 3
  obtain ⟨fork, exit, w, last, resumed, registers, moves, own, answered⟩ :
      ∃ fork exit w last, Session.record service [.call 4 (.fork 1), .call 5 (.exit 2 7), .wake 0]
        taken.next = ([fork, exit, w], last) ∧ Step.Registers fork 2 ∧
        [fork, exit, w].map (·.move) = [.call 4 (.fork 1), .call 5 (.exit 2 7), .wake 0] ∧
        w.turn.id = 2 ∧ Turn.result w.turn = .ok (.reaped (.ofCode 7)) := by
    rw [next]
    exact ⟨_, _, _, _, rfl, Or.inr ⟨1, rfl, rfl⟩, rfl, rfl, rfl⟩
  have history : History service { state := r₀ } ([_, _] ++ _ :: ([taken, fork, exit] ++ [w])) _ :=
    begun.append (.cons first rfl (.of_record_eq resumed))
  obtain ⟨status, same, ⟨-, old, birth, young, -, lived⟩ | overtaken⟩ :=
    target_or_successor new history rfl (by simp_all [Step.Calls])
      (rfl : _ = [_, taken, fork, exit] ++ [w]) own answered
  · exact absurd registers (lived.alone _ (by simp))
  · cases same
    exact ⟨r₀, _, _, _, w, last, new, history, by simp [move, moves], own, answered, overtaken⟩

end ProcessLife.Registry
