import ProcessLife.Proofs.Kernel.Conservation
import ProcessLife.Proofs.Registry.Admission

/-!
# A process and its task come together

A fork uses the host twice before the child is registered and once afterwards, and the registry has
three reasons of its own to refuse. Whichever of these gets in the way first, it is as if nothing
had been asked for; only the ring of identifiers may have moved, and a facility that was armed and
was used is armed no more. If nothing gets in the way there is one record more, and one task. With
the first process it is the same, except that only its task can fail: `creation_all_or_nothing`.
-/

namespace ProcessLife

open Operation

namespace Registry

variable {r r' : Registry} {q : Request} {answer : Answer} {pid : Pid}

/-- With a reaper apart, every registration can be taken back: nobody names a parent who is not
registered. -/
theorem Apart.rollBack_registered (apart : r.Apart) (outcome : Outcome r q (.ok answer) r')
    (registers : q.Registers (.ok answer) pid) :
    (rollBack pid).Leads r' (.ok ()) { r with pids := r'.pids } := by
  rcases outcome.rollBack_registered apart.sound registers with undo | ⟨⟨c, child⟩, -⟩
  · exact undo
  · obtain ⟨free, named, -⟩ := outcome.isAlive_of_registers registers
    obtain ⟨p, found, -⟩ := Table.isAlive_iff.mp (apart.attended.alive child named)
    simp [free] at found

end Registry

namespace Kernel

/-- A facility that a fork uses before the child is registered is armed. -/
def CannotCopy (k : Kernel) : Prop :=
  k.host.armed = some .copySpace ∨ k.host.armed = some .copyFrame

/-- What can get in the way of a fork before the task is to be started, in the order in which it is
met, and the errors. -/
def hurdles (config : Config) (k : Kernel) (caller : Pid) : List (Prop × Errno) :=
  (k.CannotCopy, .enomem) :: Registry.refusals config.limits k.registry.table caller

def obstacles (config : Config) (k : Kernel) (caller : Pid) : List (Prop × Errno) :=
  hurdles config k caller ++ [(k.host.armed = some .startTask, .eagain)]

/-- The facility is armed, and a fork gets as far as using it. Nothing else is armed then, so the
copies are always reached. -/
def Reaches (config : Config) (k : Kernel) (caller : Pid) : Facility → Prop
  | .copySpace | .copyFrame => True
  | .startTask => ∀ o ∈ hurdles config k caller, ¬ o.1
  | .releaseSpace => False

/-- One record and one task have been added, and but for the ring nothing else is different. -/
def Gains (k : Kernel) (p : Record) (task : Task) (k' : Kernel) : Prop :=
  ∃ t pids, k.registry.table.Enters p t ∧ k' = { k with
    registry := { k.registry with table := t, pids }
    host := { k.host with tasks := k.host.tasks.push task } }

/-- But for the ring and for what is armed nothing is different. -/
def Unmoved (k k' : Kernel) : Prop :=
  ∃ pids armed, k' = { k with
    registry := { k.registry with pids }
    host := { k.host with armed } }

/-- What comes of a fork, and why. -/
inductive Spawned (k : Kernel) (caller : Pid) : Except Stop Pid → Kernel → Prop
  | short (short : k.CannotCopy) :
      Spawned k caller (.error (.failed .enomem)) { k with host := k.host.disarm }
  | refused {why : Stop} {r' : Registry} (copied : ¬ k.CannotCopy)
      (admission : Registry.Admission k.registry caller (.error why) r') :
      Spawned k caller (.error why) { k with registry := r' }
  /-- The child is registered and taken back. -/
  | undone {child : Pid} {r' : Registry} (copied : ¬ k.CannotCopy)
      (armed : k.host.armed = some .startTask)
      (admission : Registry.Admission k.registry caller (.ok child) r') :
      Spawned k caller (.error (.failed .eagain))
        { k with registry := { k.registry with pids := r'.pids }, host := k.host.disarm }
  | started {child : Pid} {r' : Registry} (copied : ¬ k.CannotCopy)
      (ready : k.host.armed ≠ some .startTask)
      (admission : Registry.Admission k.registry caller (.ok child) r') :
      Spawned k caller (.ok child)
        { k with
          registry := r'
          host := { k.host with tasks := k.host.tasks.push ⟨child, .zero, ⟨caller⟩⟩ } }

variable {config : Config} {k k₀ k' : Kernel} {caller : Pid} {q : Request}
  {first last : Session Kernel Request} {steps : List Step}

theorem exists_spawned (apart : k.registry.Apart) (caller : Pid) :
    ∃ result k', (fork caller).Leads k result k' ∧ Spawned k caller result k' := by
  by_cases short : k.CannotCopy
  · exact ⟨_, _, leads_short short, .short short⟩
  obtain ⟨result, r', events, run, admission⟩ := apart.sound.admission caller
  cases result with
  | error why => exact ⟨_, _, leads_fork_error short ⟨events, run⟩, .refused short admission⟩
  | ok child =>
    obtain ⟨_, s, own, outcome⟩ := apart.sound.outcome_of (.fork caller) .forked rfl
    obtain ⟨rfl, rfl⟩ := Leads.unique ⟨events, run⟩ own
    by_cases armed : k.host.armed = some .startTask
    · have undo := apart.rollBack_registered outcome (Or.inr ⟨caller, rfl, rfl⟩)
      exact ⟨_, _, leads_fork_ok short own
        (leads_undone (k := { k with registry := r' }) armed undo), .undone short armed admission⟩
    · exact ⟨_, _, leads_fork_ok short own
        (leads_started (k := { k with registry := r' }) armed), .started short armed admission⟩

namespace Spawned

variable {result : Except Stop Pid} (spawned : Spawned k caller result k')

include spawned

theorem gains {c : Pid} (answered : result = .ok c) :
    Gains k { pid := c, parent := caller } ⟨c, .zero, ⟨caller⟩⟩ k' := by
  cases spawned with
  | short | refused | undone => cases answered
  | started _ _ admission =>
    cases answered
    cases admission with
    | admitted _ _ _ done => exact ⟨_, _, Table.enters_of_insert done, rfl⟩

theorem armed_cases : k'.host.armed = none ∨ k'.host.armed = k.host.armed := by
  cases spawned with
  | short | undone => exact Or.inl rfl
  | refused | started => exact Or.inr rfl

variable (follows : k.registry.Follows config.limits)

include follows

/-- A fork that fails has met with an obstacle. -/
theorem failed {why : Stop} (failed : result = .error why) :
    ∃ e, why = .failed e ∧ FirstMet (obstacles config k caller) e ∧ Unmoved k k' := by
  cases spawned with
  | short short =>
    cases failed
    exact ⟨_, rfl, .append (Or.inl ⟨short, rfl⟩), _, _, rfl⟩
  | refused copied admission =>
    cases failed
    obtain ⟨rfl, e, rfl, met⟩ := admission.refused follows
    exact ⟨e, rfl, .append (Or.inr ⟨copied, met⟩), _, _, rfl⟩
  | undone copied armed admission =>
    cases failed
    refine ⟨_, rfl, .behind ?_ (Or.inl ⟨armed, rfl⟩), _, _, rfl⟩
    exact List.forall_mem_cons.mpr ⟨copied, admission.not_refused follows⟩
  | started => cases failed

/-- A fork that succeeds has met with none. -/
theorem ok_iff : (∃ c, result = .ok c) ↔ ∀ o ∈ obstacles config k caller, ¬ o.1 := by
  constructor
  · rintro ⟨c, answered⟩
    cases spawned with
    | short | refused | undone => cases answered
    | started copied ready admission =>
      refine List.forall_mem_append.mpr ⟨?_, by simpa using ready⟩
      exact List.forall_mem_cons.mpr ⟨copied, admission.not_refused follows⟩
  · intro none
    cases answered : result with
    | ok c => exact ⟨c, rfl⟩
    | error why =>
      obtain ⟨e, -, met, -⟩ := spawned.failed follows answered
      obtain ⟨o, member, holds⟩ := met.exists_met
      exact absurd holds (none o member)

theorem failed_iff {e : Errno} :
    result = .error (.failed e) ↔ FirstMet (obstacles config k caller) e := by
  constructor
  · intro failed
    obtain ⟨e', same, met, -⟩ := spawned.failed follows failed
    cases same
    exact met
  · intro met
    cases answered : result with
    | ok c =>
      obtain ⟨o, member, holds⟩ := met.exists_met
      exact absurd holds ((spawned.ok_iff follows).mp ⟨c, answered⟩ o member)
    | error why =>
      obtain ⟨e', rfl, met', -⟩ := spawned.failed follows answered
      rw [met.unique met']

/-- What was armed is used up just if the fork has got that far. -/
theorem disarms_iff {facility : Facility} (armed : k.host.armed = some facility) :
    k'.host.armed = none ↔ Reaches config k caller facility := by
  cases spawned with
  | short short =>
    cases facility with
    | copySpace | copyFrame => exact iff_of_true rfl trivial
    | startTask | releaseSpace => simp [CannotCopy, armed] at short
  | refused copied admission =>
    obtain ⟨rfl, e, -, met⟩ := admission.refused follows
    refine iff_of_false (by simp [armed]) ?_
    cases facility with
    | copySpace | copyFrame => simp [CannotCopy, armed] at copied
    | startTask =>
      intro none
      obtain ⟨o, member, holds⟩ := met.exists_met
      exact none o (List.mem_cons_of_mem _ member) holds
    | releaseSpace => exact id
  | undone copied armed' admission =>
    cases armed.symm.trans armed'
    exact iff_of_true rfl (List.forall_mem_cons.mpr ⟨copied, admission.not_refused follows⟩)
  | started copied ready =>
    refine iff_of_false (by simp [armed]) ?_
    cases facility with
    | copySpace | copyFrame => simp [CannotCopy, armed] at copied
    | startTask => exact absurd armed ready
    | releaseSpace => exact id

end Spawned

/-- The launch of a process that is not registered yet. -/
theorem exists_launched_anew (apart : k.registry.Apart) (named : k.config.initPid ≠ noParent)
    (free : k.registry.table.get? k.config.initPid = none) (frame : TrapFrame)
    (space : AddressSpace) :
    ∃ result k', (launch frame space).Leads k result k' ∧
      (k.host.armed ≠ some .startTask → result = .ok k.config.initPid ∧
        Gains k { pid := k.config.initPid, parent := noParent } ⟨k.config.initPid, frame, space⟩
          k') ∧
      (k.host.armed = some .startTask → result = .error (.failed .eagain) ∧ Unmoved k k' ∧
        k'.host.armed = none) := by
  obtain ⟨t, done, run⟩ := Registry.run_addRoot free named
  obtain ⟨_, s, own, outcome⟩ :=
    apart.sound.outcome_of (.addRoot k.config.initPid) (fun _ => .done) rfl
  obtain ⟨rfl, rfl⟩ := Leads.unique ⟨_, run⟩ own
  by_cases armed : k.host.armed = some .startTask
  · have undo := apart.rollBack_registered outcome (Or.inl ⟨rfl, rfl⟩)
    refine ⟨_, _, leads_current.bind ((leads_onRegistry own).bind
      (leads_undone (k := { k with registry := _ }) armed undo)), fun ready => absurd armed ready,
      fun _ => ⟨rfl, ⟨_, _, rfl⟩, rfl⟩⟩
  · refine ⟨_, _, leads_current.bind ((leads_onRegistry own).bind
      (leads_started (k := { k with registry := _ }) armed)), fun _ => ⟨rfl, ?_⟩,
      fun armed' => absurd armed' armed⟩
    exact ⟨t, _, Table.enters_of_insert done, rfl⟩

theorem Started.config_eq {p : Registry.Request} {task : Task} {result : Except Stop Pid}
    (started : Started k p task result k') : k'.config = k.config := by
  cases started <;> rfl

theorem Performed.config_eq {c : Syscall} {result : Except Stop Int64}
    (performed : Performed k caller c result k') : k'.config = k.config := by
  cases performed with
  | told | refused => rfl
  | forked _ forked =>
    cases forked with
    | begun started => exact started.config_eq
    | unregistered | full | short | exhausted => rfl
  | ended _ ended => cases ended <;> rfl
  | waited _ waited => cases waited <;> rfl

/-- No request changes the configuration. -/
theorem Outcome.config_eq {result : Except Stop Answer} (outcome : Outcome k q result k') :
    k'.config = k.config := by
  cases outcome with
  | registry | unprovided | armed => rfl
  | launched launched =>
    cases launched with
    | refused => rfl
    | begun started => exact started.config_eq
  | called performed => exact performed.config_eq
  | trapped _ performed => exact performed.config_eq

/-- A kernel keeps to its configuration. -/
theorem follows_of_history (new : Kernel.new config = .ok k₀)
    (history : History service { state := k₀ } steps last) :
    last.state.config = config ∧ last.state.registry.Follows config.limits := by
  obtain ⟨registry, -, same⟩ := new_eq_ok new
  refine (history.invariant (fun session => session.state.registry.Sound ∧
    session.state.config = config ∧ session.state.registry.Follows config.limits)
    ⟨Registry.sound_new registry, same, Registry.follows_new registry⟩ ?_).2.2
  rintro s - ⟨sound, same, follows⟩
  have outcome := Step.outcome s sound
  obtain ⟨_, _, -, asked⟩ := outcome.onRegistry
  exact ⟨outcome.sound sound, outcome.config_eq.trans same, asked.follows follows⟩

/-- A process and its task come into being together or not at all. If the reaper stands apart, then
whatever has been asked of the kernel and whatever is armed: a fork succeeds just if nothing gets in
its way, and then there is one record more, that of a live child of the caller, and one task. If it
fails, the error is that of the first obstacle, and nothing has happened but that what was armed may
have been used up, which it is just if the fork has got as far as that. The launch of a process that
is not registered does the same with a record that has no parent, unless its task cannot be
started. -/
theorem creation_all_or_nothing (new : Kernel.new config = .ok k₀)
    (standsApart : config.limits.ReaperApart) (history : History service { state := k₀ } steps last)
    (system : ∀ s ∈ steps, Step.System s) (caller : Pid) (frame : TrapFrame)
    (space : AddressSpace) :
    let k := last.state
    let forked := (call caller .fork).run k
    let launched := (launch frame space).run k
    ((∃ v, forked.result = .ok v) ↔ ∀ o ∈ obstacles config k caller, ¬ o.1) ∧
    (∀ v, forked.result = .ok v → ∃ c, v = ofPid c ∧
      Gains k { pid := c, parent := caller } ⟨c, { TrapFrame.zero with result := 0 }, ⟨caller⟩⟩
        forked.state) ∧
    (∀ e, forked.result = .error (.failed e) ↔ FirstMet (obstacles config k caller) e) ∧
    (∀ why, forked.result = .error why → (∃ e, why = .failed e) ∧ Unmoved k forked.state) ∧
    (forked.state.host.armed = none ∨ forked.state.host.armed = k.host.armed) ∧
    (∀ facility, k.host.armed = some facility →
      (forked.state.host.armed = none ↔ Reaches config k caller facility)) ∧
    (config.initPid ≠ noParent → k.registry.table.get? config.initPid = none →
      (k.host.armed ≠ some .startTask → launched.result = .ok config.initPid ∧
        Gains k { pid := config.initPid, parent := noParent } ⟨config.initPid, frame, space⟩
          launched.state) ∧
      (k.host.armed = some .startTask → launched.result = .error (.failed .eagain) ∧
        Unmoved k launched.state ∧ launched.state.host.armed = none)) := by
  intro k forked launched
  have apart : k.registry.Apart := (apart_of_history history (apart_new new standsApart)
    (fun _ h => (List.not_mem_nil h).elim) system).2
  obtain ⟨same, follows⟩ := follows_of_history new history
  obtain ⟨found, k', fork, spawned⟩ := exists_spawned apart caller
  have performed : (perform caller .fork).Leads k (found.map ofPid) k' := fork.wrap ofPid
  obtain ⟨events, run⟩ := leads_call performed
  have result : forked.result = found.map ofPid := congrArg Reply.result run
  have state : forked.state = k' := congrArg Reply.state run
  rw [result, state]
  refine ⟨?_, fun v answered => ?_, fun e => ?_, fun why failed => ?_, spawned.armed_cases,
    fun facility armed => spawned.disarms_iff follows armed, fun named free => ?_⟩
  · rw [← spawned.ok_iff follows]
    simp only [map_eq_ok]
    exact ⟨fun ⟨_, c, answered, _⟩ => ⟨c, answered⟩, fun ⟨c, answered⟩ => ⟨_, c, answered, rfl⟩⟩
  · obtain ⟨c, child, rfl⟩ := map_eq_ok.mp answered
    exact ⟨c, rfl, spawned.gains child⟩
  · rw [map_eq_error, spawned.failed_iff follows]
  · obtain ⟨e, same, -, unmoved⟩ := spawned.failed follows (map_eq_error.mp failed)
    exact ⟨⟨e, same⟩, unmoved⟩
  · rw [← same] at named free ⊢
    obtain ⟨result, k', ⟨_, run⟩, gains, unmoved⟩ :=
      exists_launched_anew apart named free frame space
    have result : launched.result = result := congrArg Reply.result run
    have state : launched.state = k' := congrArg Reply.state run
    rw [result, state]
    exact ⟨gains, unmoved⟩

/-- The first process has exited and left a child. A task cannot be started now, whether it is that
of a child of this child or that of a first process launched anew. -/
theorem creation_all_or_nothing_undone :
    ∃ k₀ steps last, Kernel.new {} = .ok k₀ ∧ History service { state := k₀ } steps last ∧
      last.state.registry.table.get? 2 = some { pid := 2, parent := noParent } ∧
      last.state.host.armed = some .startTask ∧
      ((call 2 .fork).run last.state).result = .error (.failed .eagain) ∧
      Unmoved last.state ((call 2 .fork).run last.state).state ∧
      ((call 2 .fork).run last.state).state.host.armed = none ∧
      Reaches {} last.state 2 .startTask ∧
      ((launch .zero ⟨1⟩).run last.state).result = .error (.failed .eagain) ∧
      Unmoved last.state ((launch .zero ⟨1⟩).run last.state).state := by
  obtain ⟨k₀, steps, last, new, history, system, found, armed, missing, size, free⟩ :
      ∃ (k₀ : Kernel) (steps : List Step) (last : Session Kernel Request), Kernel.new {} = .ok k₀ ∧
        History service { state := k₀ } steps last ∧ (∀ s ∈ steps, Step.System s) ∧
        last.state.registry.table.get? 2 = some { pid := 2, parent := noParent } ∧
        last.state.host.armed = some .startTask ∧
        last.state.registry.table.get? 1 = none ∧ last.state.registry.table.size = 1 ∧
        last.state.registry.table.contains 3 = false := by
    have recorded : service.record (Kernel.new {}) [.call 0 (.launch .zero ⟨1⟩),
      .call 1 (.call 1 .fork), .call 2 (.call 1 (.exit 0)), .call 3 (.arm .startTask)] =
        .ok ([_, _, _, _], _) := rfl
    obtain ⟨k₀, new, history⟩ := service.history_of_record recorded
    exact ⟨k₀, _, _, new, history, by decide +kernel, rfl, rfl, rfl, rfl, rfl⟩
  obtain ⟨-, -, fails, failed, -, disarms, launched⟩ := creation_all_or_nothing new
    (fun _ none => nomatch none) history system 2 .zero ⟨1⟩
  have way : ∀ o ∈ hurdles {} last.state 2, ¬ o.1 := by
    have room : ¬ last.state.registry.table.Occupied 2 2147483647 := fun taken => by
      have held := taken 3 (by decide) (by decide)
      simp [free] at held
    simp [hurdles, Registry.refusals, CannotCopy, armed, Table.isAlive, Record.isAlive, found,
      size, room]
  have answer := (fails .eagain).mpr (.behind way (Or.inl ⟨armed, rfl⟩))
  obtain ⟨launch, unmoved, -⟩ := (launched (by decide) missing).2 armed
  exact ⟨k₀, steps, last, new, history, found, armed, answer, (failed _ answer).2,
    (disarms .startTask armed).mpr way, way, launch, unmoved⟩

end Kernel
end ProcessLife
