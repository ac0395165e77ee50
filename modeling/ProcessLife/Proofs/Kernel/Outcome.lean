import ProcessLife.Proofs.Kernel.Cloning
import ProcessLife.Proofs.Registry.Reaping

/-!
# What a call can come to

A system call answers without changing anything, or it starts a child, waits, or ends its task.
Where the host fails in between, what has been done so far is undone or stays, and which it is
differs from call to call. `Sound.performed` says this once for the calls, and `Sound.outcome` for
everything that is asked of a kernel.
-/

namespace ProcessLife

namespace Syscall

def Forks (c : Syscall) : Prop :=
  c = .fork ∨ ∃ flags stack, c = .clone flags stack

def Ends (c : Syscall) (code : Int32) : Prop :=
  c = .exit code ∨ c = .exitGroup code

def Waits (c : Syscall) (child : Int32) (status : UserPtr) (options : UInt32) : Prop :=
  c = .waitpid child status options ∨ ∃ rusage, c = .wait4 child status options rusage

section calls

variable {c : Syscall} {child child' : Int32} {status status' : UserPtr}
  {options options' : UInt32} {code code' : Int32}

theorem Ends.unique (ends : c.Ends code) (ends' : c.Ends code') : code = code' := by
  rcases ends with rfl | rfl <;> rcases ends' with same | same <;> cases same <;> rfl

theorem Waits.unique (waits : c.Waits child status options)
    (waits' : c.Waits child' status' options') :
    child = child' ∧ status = status' ∧ options = options' := by
  rcases waits with rfl | ⟨_, rfl⟩ <;> rcases waits' with same | ⟨_, same⟩ <;> cases same <;>
    exact ⟨rfl, rfl, rfl⟩

theorem Waits.not_forks (waits : c.Waits child status options) : ¬ c.Forks := by
  rcases waits with rfl | ⟨_, rfl⟩ <;> simp [Forks]

theorem Waits.not_ends (waits : c.Waits child status options) : ¬ c.Ends code := by
  rcases waits with rfl | ⟨_, rfl⟩ <;> simp [Ends]

theorem Ends.not_forks (ends : c.Ends code) : ¬ c.Forks := by
  rcases ends with rfl | rfl <;> simp [Forks]

end calls

/-- A number that stands for a provided call has a name. -/
theorem exists_name {c : Syscall} {number : UInt64} {args : Vector UInt64 6}
    (decoded : decode? number args = some c) : ∃ name, nameOf? number = some name := by
  unfold decode? at decoded
  split at decoded
  case h_8 => cases decoded
  all_goals exact Option.isSome_iff_exists.mp (by decide +kernel)

end Syscall

open Operation

namespace Registry

variable {r : Registry} {α : Type}

/-- The outcome of an operation that serves a request. -/
theorem Sound.outcome_of (sound : r.Sound) (q : Request) (wrap : α → Answer)
    {x : Operation Registry Event α} (serves : serve q = x >>= fun a => pure (wrap a)) :
    ∃ result r', x.Leads r result r' ∧ Outcome r q (result.map wrap) r' := by
  obtain ⟨result, r', events, run, outcome⟩ := sound.outcome q
  have own := leads_run x r
  rw [serves] at run
  obtain ⟨rfl, rfl⟩ := Leads.unique ⟨events, run⟩ (own.wrap wrap)
  exact ⟨_, _, own, outcome⟩

variable {q : Request} {answer : Answer} {r' : Registry} {pid : Pid}

/-- A registration is taken back without a trace, but for the ring; only if somebody still names the
new process as a parent, it stays. -/
theorem Outcome.rollBack_registered (sound : r.Sound) (outcome : Outcome r q (.ok answer) r')
    (registers : q.Registers (.ok answer) pid) :
    (rollBack pid).Leads r' (.ok ()) { r with pids := r'.pids } ∨
      (∃ c, r.table.parentOf c = some pid) ∧
        (rollBack pid).Leads r' (.error (.broken (.notPending pid))) r' := by
  have sound' := outcome.sound sound
  cases outcome with
  | @registered _ _ p t pids _ registers' _ free live parent _ look =>
    obtain rfl := registers.unique registers'
    have found : t.get? p.pid = some p := by rw [look, if_pos rfl]
    cases least : t.leastChild? p.pid with
    | none =>
      obtain ⟨-, run⟩ := sound'.run_rollBack found live least
      have same : (t.remove p.pid).2 = r.table := by
        apply sound'.consistent.remove.toInStep.ext sound.consistent.toInStep
        intro q
        rw [Table.get?_remove, look]
        split
        · rename_i own
          rw [own, free]
        · rfl
      rw [same] at run
      exact Or.inl ⟨_, run⟩
    | some c =>
      have child := sound'.consistent.toInStep.parentOf_of_leastChild? least
      have other : c ≠ p.pid := by
        rintro rfl
        have own : p.parent = p.pid := by simpa [Table.parentOf_of_get? found] using child
        rcases parent with orphan | alive
        · exact sound'.consistent.ne_noParent found (own.symm.trans orphan)
        · simp [own, Table.isAlive, free] at alive
      refine Or.inr ⟨⟨c, ?_⟩, _, run_rollBack_refused (by simp [least])⟩
      rwa [Table.parentOf, look, if_neg other] at child
  | _ => rcases registers with ⟨⟨⟩, ⟨⟩⟩ | ⟨_, ⟨⟩, ⟨⟩⟩

end Registry
namespace Kernel

/-- What comes of starting the task of a process that was to be registered by the request `q`. -/
inductive Started (k : Kernel) (q : Registry.Request) (task : Task) :
    Except Stop Pid → Kernel → Prop
  | started {answer : Registry.Answer} {r' : Registry} (ready : k.host.armed ≠ some .startTask)
      (outcome : Registry.Outcome k.registry q (.ok answer) r')
      (registers : q.Registers (.ok answer) task.pid) :
      Started k q task (.ok task.pid)
        { k with registry := r', host := { k.host with tasks := k.host.tasks.push task } }
  /-- The registration is taken back; only the ring has moved. -/
  | undone {pids : PidRing} (armed : k.host.armed = some .startTask)
      (next : pids.next ∈ pids.range) (range : pids.range = k.registry.pids.range) :
      Started k q task (.error (.failed .eagain))
        { k with registry := { k.registry with pids }, host := k.host.disarm }
  /-- The registration cannot be taken back: somebody names the process as a parent. -/
  | stuck {answer : Registry.Answer} {r' : Registry} {c : Pid}
      (armed : k.host.armed = some .startTask)
      (outcome : Registry.Outcome k.registry q (.ok answer) r')
      (registers : q.Registers (.ok answer) task.pid)
      (child : k.registry.table.parentOf c = some task.pid) :
      Started k q task (.error (.broken (.notPending task.pid)))
        { k with registry := r', host := k.host.disarm }

variable {k k' : Kernel} {caller pid : Pid} {frame : TrapFrame} {space : AddressSpace}

/-- How a launch and a fork end: the task of the process is started, or the process is taken
back. -/
def startOrRollBack (task : Task) (told : Event) (warned : Errno → Event) :
    Operation Kernel Event Pid := do
  match ← attempt (onHost (Host.startTask task)) with
  | .ok () =>
    emit told
    return task.pid
  | .error e =>
    emit (warned e)
    onRegistry (Registry.rollBack task.pid)
    fail e

section start

variable {task : Task} {told : Event} {warned : Errno → Event} {r' : Registry}

theorem leads_started (ready : k.host.armed ≠ some .startTask) :
    (startOrRollBack task told warned).Leads k (.ok task.pid)
      { k with host := { k.host with tasks := k.host.tasks.push task } } :=
  (leads_startTask ready task).bind ((leads_emit _).bind leads_pure)

theorem leads_undone (armed : k.host.armed = some .startTask)
    (undo : (Registry.rollBack task.pid).Leads k.registry (.ok ()) r') :
    (startOrRollBack task told warned).Leads k (.error (.failed .eagain))
      { k with registry := r', host := k.host.disarm } :=
  (leads_startTask_armed armed task).bind
    ((leads_emit _).bind
      ((leads_onRegistry (k := { k with host := k.host.disarm }) undo).bind leads_fail))

end start

/-- A process is registered, its task is to be started, and if that fails the process is taken
back. -/
theorem exists_started {q : Registry.Request} {answer : Registry.Answer} {r' : Registry}
    (task : Task) (sound : k.registry.Sound)
    (outcome : Registry.Outcome k.registry q (.ok answer) r')
    (registers : q.Registers (.ok answer) task.pid)
    (told : Event) (warned : Errno → Event) :
    ∃ result k', (startOrRollBack task told warned).Leads { k with registry := r' } result k' ∧
      Started k q task result k' := by
  by_cases armed : k.host.armed = some .startTask
  · have next : r'.pids.next ∈ r'.pids.range := (outcome.sound sound).next_mem
    rcases outcome.rollBack_registered sound registers with undo | ⟨⟨c, child⟩, stuck⟩
    · exact ⟨_, _, leads_undone (k := { k with registry := r' }) armed undo,
        .undone armed next outcome.range⟩
    · have first := leads_startTask_armed (k := { k with registry := r' }) armed task
      exact ⟨_, _, first.bind ((leads_emit _).bind (leads_onRegistry stuck).bind_error),
        .stuck armed outcome registers child⟩
  · exact ⟨_, _, leads_started (k := { k with registry := r' }) armed,
      .started armed outcome registers⟩

/-- What comes of starting the first process. -/
inductive Launched (k : Kernel) (frame : TrapFrame) (space : AddressSpace) :
    Except Stop Pid → Kernel → Prop
  | refused {f : Fault} (cause : f = .reservedPid ∨ f = .alreadyRegistered k.config.initPid) :
      Launched k frame space (.error (.broken f)) k
  | begun {result : Except Stop Pid} {k' : Kernel}
      (started : Started k (.addRoot k.config.initPid) ⟨k.config.initPid, frame, space⟩ result k') :
      Launched k frame space result k'

theorem exists_launched (sound : k.registry.Sound) (frame : TrapFrame) (space : AddressSpace) :
    ∃ result k', (launch frame space).Leads k result k' ∧ Launched k frame space result k' := by
  by_cases named : k.config.initPid = noParent
  · have run : (Registry.addRoot k.config.initPid).run k.registry = _ :=
      named ▸ Registry.run_addRoot_reserved
    exact ⟨_, _, leads_current.bind (leads_onRegistry ⟨_, run⟩).bind_error, .refused (Or.inl rfl)⟩
  cases found : k.registry.table.get? k.config.initPid with
  | some p =>
    have run := Registry.run_addRoot_registered found named
    exact ⟨_, _, leads_current.bind (leads_onRegistry ⟨_, run⟩).bind_error, .refused (Or.inr rfl)⟩
  | none =>
    obtain ⟨t, -, run⟩ := Registry.run_addRoot found named
    obtain ⟨result, r', add, outcome⟩ :=
      sound.outcome_of (.addRoot k.config.initPid) (fun _ => .done) rfl
    obtain ⟨rfl, rfl⟩ := add.unique ⟨_, run⟩
    obtain ⟨result, k', start, started⟩ := exists_started ⟨k.config.initPid, frame, space⟩ sound
      outcome (Or.inl ⟨rfl, rfl⟩) (.initStarted k.config.initPid) .initNotStarted
    exact ⟨result, k', leads_current.bind ((leads_onRegistry add).bind start), .begun started⟩

/-- What comes of asking for a child. -/
inductive Forked (k : Kernel) (caller : Pid) : Except Stop Pid → Kernel → Prop
  | unregistered (dead : k.registry.table.isAlive caller = false) :
      Forked k caller (.error (.failed .esrch)) k
  | full (full : k.registry.capacity ≤ k.registry.table.size) :
      Forked k caller (.error (.failed .eagain)) k
  | short (armed : k.host.armed = some .copySpace ∨ k.host.armed = some .copyFrame) :
      Forked k caller (.error (.failed .enomem)) { k with host := k.host.disarm }
  | exhausted {pids : PidRing} (next : pids.next ∈ pids.range)
      (range : pids.range = k.registry.pids.range) :
      Forked k caller (.error (.failed .enospc)) { k with registry := { k.registry with pids } }
  | begun {child : Pid} {result : Except Stop Pid} {k' : Kernel}
      (started : Started k (.fork caller) ⟨child, .zero, ⟨caller⟩⟩ result k') :
      Forked k caller result k'

/-- A fork that cannot copy what the child needs ends before the registry is asked. -/
theorem leads_short (armed : k.host.armed = some .copySpace ∨ k.host.armed = some .copyFrame) :
    (fork caller).Leads k (.error (.failed .enomem)) { k with host := k.host.disarm } := by
  rcases armed with noSpace | noFrame
  · exact (leads_onHost (Host.leads_failIfArmed noSpace).bind_error).bind_error
  · have space : k.host.armed ≠ some .copySpace := by simp [noFrame]
    exact (leads_copySpace space).bind
      (leads_onHost (Host.leads_failIfArmed noFrame).bind_error).bind_error

section copied

variable {result : Except Stop Pid} {r' : Registry} {child : Pid} {why : Stop}
  (ready : ¬ (k.host.armed = some .copySpace ∨ k.host.armed = some .copyFrame))

include ready

theorem leads_fork_error (fork : (Registry.fork caller).Leads k.registry (.error why) r') :
    (Kernel.fork caller).Leads k (.error why) { k with registry := r' } := by
  obtain ⟨space, frame⟩ := not_or.mp ready
  exact (leads_copySpace space).bind
    ((leads_copyFrame frame .zero 0).bind (leads_onRegistry fork).bind_error)

/-- What is copied does not change the host, so the child is started on the host that there was. -/
theorem leads_fork_ok (fork : (Registry.fork caller).Leads k.registry (.ok child) r')
    (start : (startOrRollBack ⟨child, .zero, ⟨caller⟩⟩ (.forked caller child)
      (.childNotStarted child)).Leads { k with registry := r' } result k') :
    (Kernel.fork caller).Leads k result k' := by
  obtain ⟨space, frame⟩ := not_or.mp ready
  exact (leads_copySpace space).bind
    ((leads_copyFrame frame .zero 0).bind ((leads_onRegistry fork).bind start))

end copied

theorem exists_forked (sound : k.registry.Sound) (caller : Pid) :
    ∃ result k', (fork caller).Leads k result k' ∧ Forked k caller result k' := by
  by_cases short : k.host.armed = some .copySpace ∨ k.host.armed = some .copyFrame
  · exact ⟨_, _, leads_short short, .short short⟩
  obtain ⟨result, r', events, run, admission⟩ := sound.admission caller
  cases admission with
  | unregistered dead => exact ⟨_, _, leads_fork_error short ⟨_, run⟩, .unregistered dead⟩
  | full _ full => exact ⟨_, _, leads_fork_error short ⟨_, run⟩, .full full⟩
  | crowded => exact ⟨_, _, leads_fork_error short ⟨_, run⟩, .exhausted sound.next_mem rfl⟩
  | @admitted child =>
    obtain ⟨_, s, own, outcome⟩ := sound.outcome_of (.fork caller) .forked rfl
    obtain ⟨rfl, rfl⟩ := Leads.unique ⟨_, run⟩ own
    obtain ⟨result, k', start, started⟩ := exists_started ⟨child, .zero, ⟨caller⟩⟩ sound outcome
      (Or.inr ⟨caller, rfl, rfl⟩) (.forked caller child) (.childNotStarted child)
    exact ⟨result, k', leads_fork_ok short own start, .begun started⟩

/-- What comes of the more general call: a fork, if it is accepted. -/
theorem exists_cloned (sound : k.registry.Sound) (caller : Pid) (flags stack : UInt64) :
    ∃ result k', (clone caller flags stack).Leads k result k' ∧
      (result = .error (.failed .einval) ∧ k' = k ∨ Forked k caller result k') := by
  by_cases accepted : stack = 0 ∧ (flags = 0 ∨ flags = 17)
  · obtain ⟨rfl, plain⟩ := accepted
    obtain ⟨result, k', run, forked⟩ := exists_forked sound caller
    rw [clone_eq_fork plain]
    exact ⟨result, k', run, Or.inr forked⟩
  · exact ⟨_, _, leads_clone_refused accepted, Or.inl ⟨rfl, rfl⟩⟩

/-- How a task comes to its end, and what is left then. -/
inductive Ended (k : Kernel) (caller : Pid) (code : Int32) : Stop → Kernel → Prop
  | exited {r' : Registry} (ready : k.host.armed ≠ some .releaseSpace)
      (outcome : Registry.Outcome k.registry (.exit caller code) (.ok .done) r') :
      Ended k caller code (.exited code)
        { k with registry := r', host := { k.host with released := k.host.released.push caller } }
  /-- The process has exited, but its memory was not given back. -/
  | stranded {r' : Registry} (armed : k.host.armed = some .releaseSpace)
      (outcome : Registry.Outcome k.registry (.exit caller code) (.ok .done) r') :
      Ended k caller code (.broken (.spaceNotReleased caller .eio))
        { k with registry := r', host := k.host.disarm }
  | brokenOff {f : Fault} {r' : Registry}
      (cause : f = .alreadyExited caller ∨ f = .stillHasChildren caller)
      (outcome : Registry.Outcome k.registry (.exit caller code) (.error (.broken f)) r') :
      Ended k caller code (.broken f) { k with registry := r' }

/-- An exit that is refused, or that breaks off, ends in one of two faults. -/
theorem exit_fault (sound : k.registry.Sound) {code : Int32} {why : Stop} {r' : Registry}
    (exit : (Registry.exit caller code).Leads k.registry (.error why) r') :
    ∃ f, why = .broken f ∧ (f = .alreadyExited caller ∨ f = .stillHasChildren caller) := by
  obtain ⟨events, run⟩ := exit
  cases found : k.registry.table.get? caller with
  | none => simp [Registry.run_exit_unregistered found] at run
  | some p =>
    cases status : p.status with
    | some s =>
      have dead : p.isZombie = true := by simp [Record.isZombie, status]
      rw [Registry.run_exit_zombie found dead, sound.consistent.keyed found] at run
      exact ⟨_, (Except.error.inj (congrArg Reply.result run)).symm, Or.inl rfl⟩
    | none =>
      by_cases knot : k.registry.table.Knotted caller
      · obtain ⟨t, told, broken, -⟩ := sound.run_exit_knotted code found status knot
        rw [broken] at run
        exact ⟨_, (Except.error.inj (congrArg Reply.result run)).symm, Or.inr rfl⟩
      · obtain ⟨t, told, done, -⟩ := sound.run_exit code found status knot
        simp [done] at run

theorem exists_ended {α : Type} (sound : k.registry.Sound) (caller : Pid) (code : Int32) :
    ∃ why k', (exit caller code : Operation Kernel Event α).Leads k (.error why) k' ∧
      Ended k caller code why k' := by
  obtain ⟨result, r', exit, outcome⟩ :=
    sound.outcome_of (.exit caller code) (fun _ => .done) rfl
  cases result with
  | error why =>
    obtain ⟨f, rfl, cause⟩ := exit_fault sound exit
    exact ⟨_, _, (leads_emit _).bind (leads_onRegistry exit).bind_error, .brokenOff cause outcome⟩
  | ok _ =>
    by_cases armed : k.host.armed = some .releaseSpace
    · have last := leads_releaseSpace_armed (k := { k with registry := r' }) armed caller
      exact ⟨_, _, (leads_emit _).bind ((leads_onRegistry exit).bind (last.bind leads_stop)),
        .stranded armed outcome⟩
    · have last := leads_releaseSpace (k := { k with registry := r' }) armed caller
      exact ⟨_, _, (leads_emit _).bind ((leads_onRegistry exit).bind (last.bind leads_stop)),
        .exited armed outcome⟩

/-- What comes of waiting for a child. -/
inductive Waited (k : Kernel) (caller : Pid) (child : Int32) (status : UserPtr) (options : UInt32) :
    Except Stop Pid → Kernel → Prop
  | unsupported (extra : options ≠ 0) :
      Waited k caller child status options (.error (.failed .einval)) k
  | unnamed (plain : options = 0) (negative : child ≤ 0) :
      Waited k caller child status options (.error (.failed .esrch)) k
  | unregistered (plain : options = 0) (positive : 0 < child)
      (missing : k.registry.table.get? child.toUInt32 = none) :
      Waited k caller child status options (.error (.failed .esrch)) k
  | stranger {p : Record} (plain : options = 0) (positive : 0 < child)
      (found : k.registry.table.get? child.toUInt32 = some p)
      (stranger : caller = noParent ∨ p.parent ≠ caller) :
      Waited k caller child status options (.error (.failed .echild)) k
  | slept (plain : options = 0) (positive : 0 < child)
      (outcome : Registry.Outcome k.registry (.wait caller child.toUInt32) (.error .asleep)
        k.registry) :
      Waited k caller child status options (.error .asleep) k
  | fetched {found : ExitStatus} {r' : Registry} (plain : options = 0) (positive : 0 < child)
      (outcome : Registry.Outcome k.registry (.wait caller child.toUInt32) (.ok (.reaped found)) r')
      (writable : Host.Writable status) :
      Waited k caller child status options (.ok child.toUInt32)
        { k with registry := r', host := k.host.stored status found.raw }
  /-- The child is gone, but its status could not be stored. -/
  | lost {found : ExitStatus} {r' : Registry} (plain : options = 0) (positive : 0 < child)
      (outcome : Registry.Outcome k.registry (.wait caller child.toUInt32) (.ok (.reaped found)) r')
      (illegal : ¬ Host.Writable status) :
      Waited k caller child status options (.error (.failed .efault)) { k with registry := r' }

/-- A wait up to where the child is out of the registry. It does not look at the place for the
status. -/
def reap (caller : Pid) (child : Int32) (options : UInt32) : Operation Kernel Event ExitStatus := do
  if options ≠ 0 then
    emit (.waitOptions options)
    fail .einval
  else if child ≤ 0 then fail .esrch
  else onRegistry (Registry.wait caller child.toUInt32)

def deliver (caller : Pid) (child : Int32) (status : UserPtr) (found : ExitStatus) :
    Operation Kernel Event Pid := do
  if status.isNull then return child.toUInt32
  else
    match ← attempt (onHost (Host.store status found.raw)) with
    | .ok () => return child.toUInt32
    | .error e =>
      emit (.statusNotStored caller child.toUInt32)
      fail e

theorem waitFor_eq (caller : Pid) (child : Int32) (status : UserPtr) (options : UInt32) :
    waitFor caller child status options =
      reap caller child options >>= deliver caller child status := by
  rw [waitFor, reap]
  split
  · rfl
  split
  · rfl
  · rfl

section fetch

variable {child : Int32} {status : UserPtr} {options : UInt32} {found : ExitStatus} {why : Stop}
  {r' : Registry}

theorem leads_reap_unsupported (extra : options ≠ 0) :
    (reap caller child options).Leads k (.error (.failed .einval)) k := by
  simp only [reap, extra, ne_eq, not_false_eq_true, if_true]
  exact leads_emit_fail _

theorem leads_reap_unnamed (negative : child ≤ 0) :
    (reap caller child 0).Leads k (.error (.failed .esrch)) k := by
  simp only [reap, ne_eq, not_true_eq_false, if_false, negative, if_true]
  exact leads_fail

/-- A wait that is accepted asks the registry. -/
theorem leads_reap {result : Except Stop ExitStatus} (positive : 0 < child)
    (wait : (Registry.wait caller child.toUInt32).Leads k.registry result r') :
    (reap caller child 0).Leads k result { k with registry := r' } := by
  simp only [reap, ne_eq, not_true_eq_false, if_false, Int32.not_le.mpr positive]
  exact leads_onRegistry wait

theorem leads_delivered (writable : Host.Writable status) :
    (deliver caller child status found).Leads k (.ok child.toUInt32)
      { k with host := k.host.stored status found.raw } := by
  cases given : status.isNull with
  | true =>
    simp only [deliver, Host.stored, given, if_true]
    exact leads_pure
  | false =>
    simp only [deliver, given]
    exact (leads_store given writable _).bind leads_pure

theorem leads_undelivered (illegal : ¬ Host.Writable status) :
    (deliver caller child status found).Leads k (.error (.failed .efault)) k := by
  have given : status.isNull = false := Bool.eq_false_iff.mpr (not_or.mp illegal).1
  simp only [deliver, given]
  exact (leads_store_illegal illegal _).bind (leads_emit_fail _)

/-- Where nothing is reaped, nothing is delivered. -/
theorem leads_waitFor_error (reaping : (reap caller child options).Leads k (.error why) k') :
    (waitFor caller child status options).Leads k (.error why) k' := by
  rw [waitFor_eq]
  exact reaping.bind_error

theorem leads_waitFor_ok {result : Except Stop Pid} {k'' : Kernel}
    (reaping : (reap caller child options).Leads k (.ok found) k')
    (delivery : (deliver caller child status found).Leads k' result k'') :
    (waitFor caller child status options).Leads k result k'' := by
  rw [waitFor_eq]
  exact reaping.bind delivery

end fetch

theorem exists_waited (sound : k.registry.Sound) (caller : Pid) (child : Int32) (status : UserPtr)
    (options : UInt32) :
    ∃ result k', (waitFor caller child status options).Leads k result k' ∧
      Waited k caller child status options result k' := by
  by_cases plain : options = 0
  case neg => exact ⟨_, _, leads_waitFor_error (leads_reap_unsupported plain), .unsupported plain⟩
  subst plain
  by_cases positive : 0 < child
  case neg =>
    have negative := Int32.not_lt.mp positive
    exact ⟨_, _, leads_waitFor_error (leads_reap_unnamed negative), .unnamed rfl negative⟩
  obtain ⟨result, r', wait, outcome⟩ :=
    sound.outcome_of (.wait caller child.toUInt32) .reaped rfl
  cases found : k.registry.table.get? child.toUInt32 with
  | none =>
    have run : (Registry.wait caller child.toUInt32).run k.registry = _ :=
      Registry.run_wait_unregistered found
    exact ⟨_, _, leads_waitFor_error (leads_reap positive ⟨_, run⟩),
      .unregistered rfl positive found⟩
  | some p =>
    by_cases stranger : caller = noParent ∨ p.parent ≠ caller
    · have run := Registry.run_wait_stranger found stranger
      exact ⟨_, _, leads_waitFor_error (leads_reap positive ⟨_, run⟩),
        .stranger rfl positive found stranger⟩
    obtain ⟨owned, same⟩ := not_or.mp stranger
    cases Classical.not_not.mp same
    cases ended : p.status with
    | none =>
      obtain ⟨rfl, rfl⟩ := wait.unique ⟨_, Registry.run_wait_live found owned ended⟩
      exact ⟨_, _, leads_waitFor_error (leads_reap positive wait), .slept rfl positive outcome⟩
    | some s =>
      obtain ⟨rfl, rfl⟩ := wait.unique ⟨_, sound.run_wait_zombie found ended⟩
      have reaping := leads_reap positive wait
      by_cases writable : Host.Writable status
      · exact ⟨_, _, leads_waitFor_ok reaping (leads_delivered writable),
          .fetched rfl positive outcome writable⟩
      · exact ⟨_, _, leads_waitFor_ok reaping (leads_undelivered writable),
          .lost rfl positive outcome writable⟩

/-- What comes of a call. -/
inductive Performed (k : Kernel) (caller : Pid) : Syscall → Except Stop Int64 → Kernel → Prop
  | told {c : Syscall} {pid : Pid}
      (asks : c = .getpid ∧ pid = caller ∨
        c = .getppid ∧ pid = (k.registry.parentOf caller).getD noParent) :
      Performed k caller c (.ok (ofPid pid)) k
  | refused {flags stack : UInt64} :
      Performed k caller (.clone flags stack) (.error (.failed .einval)) k
  | forked {c : Syscall} {result : Except Stop Pid} {k' : Kernel} (forks : c.Forks)
      (forked : Forked k caller result k') : Performed k caller c (result.map ofPid) k'
  | ended {c : Syscall} {code : Int32} {why : Stop} {k' : Kernel} (ends : c.Ends code)
      (ended : Ended k caller code why k') : Performed k caller c (.error why) k'
  | waited {c : Syscall} {child : Int32} {status : UserPtr} {options : UInt32}
      {result : Except Stop Pid} {k' : Kernel} (waits : c.Waits child status options)
      (waited : Waited k caller child status options result k') :
      Performed k caller c (result.map ofPid) k'

/-- What comes of a call that ends its task. -/
theorem Performed.ended_of {c : Syscall} {code : Int32} {result : Except Stop Int64}
    (performed : Performed k caller c result k') (ends : c.Ends code) :
    ∃ why, result = .error why ∧ Ended k caller code why k' := by
  cases performed with
  | told asks => rcases asks with ⟨rfl, -⟩ | ⟨rfl, -⟩ <;> simp [Syscall.Ends] at ends
  | refused => simp [Syscall.Ends] at ends
  | forked forks => exact absurd forks ends.not_forks
  | ended ends' ended => exact ⟨_, rfl, ends.unique ends' ▸ ended⟩
  | waited waits => exact absurd ends waits.not_ends

/-- What comes of a call that waits. -/
theorem Performed.waited_of {c : Syscall} {child : Int32} {status : UserPtr} {options : UInt32}
    {result : Except Stop Int64} (performed : Performed k caller c result k')
    (waits : c.Waits child status options) :
    ∃ found, result = found.map ofPid ∧ Waited k caller child status options found k' := by
  cases performed with
  | told asks => rcases asks with ⟨rfl, -⟩ | ⟨rfl, -⟩ <;> simp [Syscall.Waits] at waits
  | refused => simp [Syscall.Waits] at waits
  | forked forks => exact absurd forks waits.not_forks
  | ended ends => exact absurd ends waits.not_ends
  | waited waits' waited =>
    obtain ⟨rfl, rfl, rfl⟩ := waits.unique waits'
    exact ⟨_, rfl, waited⟩

/-- Every call has one of the outcomes. -/
theorem exists_performed (sound : k.registry.Sound) (caller : Pid) (c : Syscall) :
    ∃ result k', (perform caller c).Leads k result k' ∧ Performed k caller c result k' := by
  cases c with
  | getpid => exact ⟨_, _, leads_pure, .told (Or.inl ⟨rfl, rfl⟩)⟩
  | getppid => exact ⟨_, _, leads_current.bind leads_pure, .told (Or.inr ⟨rfl, rfl⟩)⟩
  | fork =>
    obtain ⟨result, k', run, forked⟩ := exists_forked sound caller
    exact ⟨_, _, run.wrap ofPid, .forked (Or.inl rfl) forked⟩
  | clone flags stack =>
    obtain ⟨result, k', run, ⟨rfl, rfl⟩ | forked⟩ := exists_cloned sound caller flags stack
    · exact ⟨_, _, run.wrap ofPid, .refused⟩
    · exact ⟨_, _, run.wrap ofPid, .forked (Or.inr ⟨flags, stack, rfl⟩) forked⟩
  | exit code =>
    obtain ⟨why, k', run, ended⟩ := exists_ended sound caller code
    exact ⟨_, _, run, .ended (Or.inl rfl) ended⟩
  | exitGroup code =>
    obtain ⟨why, k', run, ended⟩ := exists_ended sound caller code
    exact ⟨_, _, run, .ended (Or.inr rfl) ended⟩
  | waitpid child status options =>
    obtain ⟨result, k', run, waited⟩ := exists_waited sound caller child status options
    exact ⟨_, _, run.wrap ofPid, .waited (Or.inl rfl) waited⟩
  | wait4 child status options rusage =>
    obtain ⟨result, k', run, waited⟩ := exists_waited sound caller child status options
    exact ⟨_, _, run.wrap ofPid, .waited (Or.inr ⟨rusage, rfl⟩) waited⟩

/-- How a call that was made by number ends: a failure is answered with a negative value. -/
def returned : Except Stop Int64 → Except Stop Int64
  | .error (.failed e) => .ok e.returnValue
  | result => result

theorem leads_trap {c : Syscall} {number : UInt64} {args : Vector UInt64 6}
    {result : Except Stop Int64} (decoded : Syscall.decode? number args = some c)
    (run : (perform caller c).Leads k result k') :
    (trap caller number args).Leads k (returned result) k' := by
  obtain ⟨name, named⟩ := Syscall.exists_name decoded
  have done := leads_call run
  simp only [trap, named, decoded]
  cases result with
  | ok value => exact done.attempt_ok.bind ((leads_emit _).bind leads_pure)
  | error why =>
    cases why with
    | failed e => exact done.attempt_failed.bind ((leads_emit _).bind leads_pure)
    | broken | exited | asleep => exact (done.attempt_error (by simp)).bind_error

theorem leads_trap_unprovided {number : UInt64} {args : Vector UInt64 6}
    (unprovided : Syscall.decode? number args = none) :
    (trap caller number args).Leads k (.ok Errno.enosys.returnValue) k := by
  cases named : Syscall.nameOf? number with
  | none =>
    simp only [trap, named]
    exact (leads_emit _).bind leads_pure
  | some name =>
    simp only [trap, named, unprovided]
    exact (leads_emit _).bind ((leads_emit _).bind leads_pure)

/-- What a request can come to. -/
inductive Outcome (k : Kernel) : Request → Except Stop Answer → Kernel → Prop
  | registry {q : Registry.Request} {result : Except Stop Registry.Answer} {r' : Registry}
      (outcome : Registry.Outcome k.registry q result r') :
      Outcome k (.registry q) (result.map .registry) { k with registry := r' }
  | launched {frame : TrapFrame} {space : AddressSpace} {result : Except Stop Pid} {k' : Kernel}
      (launched : Launched k frame space result k') :
      Outcome k (.launch frame space) (result.map .launched) k'
  | called {caller : Pid} {c : Syscall} {result : Except Stop Int64} {k' : Kernel}
      (performed : Performed k caller c result k') :
      Outcome k (.call caller c) (result.map .value) k'
  | trapped {caller : Pid} {number : UInt64} {args : Vector UInt64 6} {c : Syscall}
      {result : Except Stop Int64} {k' : Kernel} (decoded : Syscall.decode? number args = some c)
      (performed : Performed k caller c result k') :
      Outcome k (.trap caller number args) ((returned result).map .value) k'
  | unprovided {caller : Pid} {number : UInt64} {args : Vector UInt64 6}
      (unprovided : Syscall.decode? number args = none) :
      Outcome k (.trap caller number args) (.ok (.value Errno.enosys.returnValue)) k
  | armed {facility : Facility} :
      Outcome k (.arm facility) (.ok .armed) { k with host := k.host.arm facility }

/-- Every request has one of the outcomes. -/
theorem exists_outcome (sound : k.registry.Sound) (q : Request) :
    ∃ result k', (serve q).Leads k result k' ∧ Outcome k q result k' := by
  cases q with
  | registry q =>
    obtain ⟨result, r', events, run, outcome⟩ := sound.outcome q
    exact ⟨_, _, (leads_onRegistry ⟨events, run⟩).wrap _, .registry outcome⟩
  | launch frame space =>
    obtain ⟨result, k', run, launched⟩ := exists_launched sound frame space
    exact ⟨_, _, run.wrap _, .launched launched⟩
  | call caller c =>
    obtain ⟨result, k', run, performed⟩ := exists_performed sound caller c
    exact ⟨_, _, (leads_call run).wrap _, .called performed⟩
  | trap caller number args =>
    cases decoded : Syscall.decode? number args with
    | none => exact ⟨_, _, (leads_trap_unprovided decoded).bind leads_pure, .unprovided decoded⟩
    | some c =>
      obtain ⟨result, k', run, performed⟩ := exists_performed sound caller c
      exact ⟨_, _, (leads_trap decoded run).wrap _, .trapped decoded performed⟩
  | arm facility =>
    exact ⟨_, _, (leads_onHost ⟨_, run_modify _ _⟩).bind leads_pure, .armed⟩

end Kernel
end ProcessLife
