import ProcessLife.Proofs.Kernel.Outcome

/-!
# Memory that nobody reads

The kernel stores words for user processes, and does not look at them again. So two kernels that
differ in the memory of users alone answer every request alike, and differ in that alone afterwards:
`respects_serve`. This is shown along the way in which an operation is put together, and holds
whatever state the registry is in.
-/

namespace ProcessLife

variable {σ ε α β : Type}

structure Reply.Alike (same : σ → σ → Prop) (r r' : Reply σ ε α) : Prop where
  result : r'.result = r.result
  state : same r.state r'.state

namespace Operation

/-- On states that are related the operation replies alike. -/
def Respects (x : Operation σ ε α) (same : σ → σ → Prop) : Prop :=
  ∀ ⦃s s'⦄, same s s' → (x.run s).Alike same (x.run s')

variable {same : σ → σ → Prop} {x y : Operation σ ε α}

theorem respects_pure (a : α) : (pure a : Operation σ ε α).Respects same :=
  fun _ _ related => ⟨rfl, related⟩

theorem respects_tell (told : List ε) : (tell told : Operation σ ε Unit).Respects same :=
  fun _ _ related => ⟨rfl, related⟩

theorem respects_stop (why : Stop) : (stop why : Operation σ ε α).Respects same :=
  fun _ _ related => ⟨rfl, related⟩

theorem respects_settle (result : Except Errno α) :
    (settle result : Operation σ ε α).Respects same := by
  cases result with
  | ok a => exact respects_pure a
  | error e => exact respects_stop _

/-- A change that keeps states related. -/
theorem respects_modify {f : σ → σ} (keeps : ∀ {s s'}, same s s' → same (f s) (f s')) :
    (modify f : Operation σ ε Unit).Respects same :=
  fun _ _ related => ⟨rfl, keeps related⟩

theorem Respects.bind {next : α → Operation σ ε β} (first : x.Respects same)
    (second : ∀ a, (next a).Respects same) : (x >>= next).Respects same := by
  intro s s' related
  obtain ⟨result, state⟩ := first related
  simp only [run_bind, Reply.andThen, result]
  cases (x.run s).result with
  | error why => exact ⟨rfl, state⟩
  | ok a =>
    obtain ⟨result, state⟩ := second a state
    exact ⟨result, state⟩

/-- What comes next may depend on the state only as far as related states are the same. -/
theorem respects_current_bind {next : σ → Operation σ ε α}
    (kept : ∀ {s s'}, same s s' → next s' = next s) (rest : ∀ s, (next s).Respects same) :
    (current >>= next).Respects same := by
  intro s s' related
  simp only [run_bind, run_current, Reply.andThen_ok, Reply.after_nil, kept related]
  exact rest s related

theorem Respects.attempt (first : x.Respects same) : x.attempt.Respects same := by
  intro s s' related
  obtain ⟨result, state⟩ := first related
  refine ⟨?_, by simpa using state⟩
  rw [run, run, Operation.attempt, Operation.attempt, result]
  cases (x.run s).result with
  | ok a => rfl
  | error why => cases why <;> rfl

theorem respects_ite (c : Prop) [Decidable c] (first : x.Respects same)
    (second : y.Respects same) : (if c then x else y).Respects same := by
  split
  · exact first
  · exact second

/-- An operation that tells why it fails. -/
theorem respects_emit_fail (event : ε) (e : Errno) :
    (emit event >>= fun _ => (fail e : Operation σ ε α)).Respects same :=
  (respects_tell _).bind fun _ => respects_stop _

end Operation

open Operation

namespace Host

structure Alike (h h' : Host) : Prop where
  armed : h'.armed = h.armed
  tasks : h'.tasks = h.tasks
  released : h'.released = h.released

variable {h h' h'' : Host}

theorem Alike.refl (h : Host) : h.Alike h :=
  ⟨rfl, rfl, rfl⟩

theorem Alike.trans (first : h.Alike h') (second : h'.Alike h'') : h.Alike h'' :=
  ⟨second.armed.trans first.armed, second.tasks.trans first.tasks,
    second.released.trans first.released⟩

theorem respects_failIfArmed (facility : Facility) (e : Errno) :
    (failIfArmed facility e : Operation Host ε Unit).Respects Alike := by
  refine respects_current_bind (fun alike => by rw [alike.armed]) fun _ => ?_
  refine respects_ite _ ?_ (respects_pure _)
  exact (respects_modify fun alike => ⟨rfl, alike.tasks, alike.released⟩).bind
    fun _ => respects_stop _

theorem respects_copySpace (pid : Pid) :
    (copySpace pid : Operation Host ε AddressSpace).Respects Alike :=
  (respects_failIfArmed _ _).bind fun _ => respects_pure _

theorem respects_copyFrame (frame : TrapFrame) (result : UInt64) :
    (copyFrame frame result : Operation Host ε TrapFrame).Respects Alike :=
  (respects_failIfArmed _ _).bind fun _ => respects_pure _

theorem respects_startTask (task : Task) :
    (startTask task : Operation Host ε Unit).Respects Alike :=
  (respects_failIfArmed _ _).bind fun _ => respects_modify fun alike =>
    ⟨alike.armed, congrArg (·.push task) alike.tasks, alike.released⟩

theorem respects_releaseSpace (pid : Pid) :
    (releaseSpace pid : Operation Host ε Unit).Respects Alike :=
  (respects_failIfArmed _ _).bind fun _ => respects_modify fun alike =>
    ⟨alike.armed, alike.tasks, congrArg (·.push pid) alike.released⟩

/-- Whether a word can be stored depends on the place alone. -/
theorem respects_store (place : UserPtr) (word : Int32) :
    (store place word : Operation Host ε Unit).Respects Alike :=
  respects_ite _ (respects_stop _)
    (respects_modify fun alike => ⟨alike.armed, alike.tasks, alike.released⟩)

end Host

namespace Kernel

structure Alike (k k' : Kernel) : Prop where
  registry : k'.registry = k.registry
  host : k.host.Alike k'.host
  config : k'.config = k.config

variable {k k' k'' : Kernel}

theorem Alike.refl (k : Kernel) : k.Alike k :=
  ⟨rfl, .refl k.host, rfl⟩

theorem Alike.trans (first : k.Alike k') (second : k'.Alike k'') : k.Alike k'' :=
  ⟨second.registry.trans first.registry, first.host.trans second.host,
    second.config.trans first.config⟩

/-- The registry does not know of the memory of users. -/
theorem respects_onRegistry (x : Operation Registry Registry.Event α) :
    (onRegistry x).Respects Alike := by
  intro k k' alike
  simp only [onRegistry, run_zoom, alike.registry]
  exact ⟨rfl, rfl, alike.host, alike.config⟩

theorem respects_onHost {x : Operation Host Event α} (first : x.Respects Host.Alike) :
    (onHost x).Respects Alike := by
  intro k k' alike
  obtain ⟨result, state⟩ := first alike.host
  exact ⟨result, alike.registry, state, alike.config⟩

theorem respects_start (task : Task) (told : Event) (warned : Errno → Event) :
    (startOrRollBack task told warned).Respects Alike := by
  refine (respects_onHost (Host.respects_startTask task)).attempt.bind fun started => ?_
  cases started with
  | ok _ => exact (respects_tell _).bind fun _ => respects_pure _
  | error e =>
    exact (respects_tell _).bind fun _ => (respects_onRegistry _).bind fun _ => respects_stop _

theorem respects_launch (frame : TrapFrame) (space : AddressSpace) :
    (launch frame space).Respects Alike := by
  refine respects_current_bind (fun alike => by rw [alike.config]) fun k => ?_
  exact (respects_onRegistry _).bind fun _ => respects_start ⟨k.config.initPid, frame, space⟩ _ _

theorem respects_fork (caller : Pid) : (fork caller).Respects Alike :=
  (respects_onHost (Host.respects_copySpace _)).bind fun _ =>
    (respects_onHost (Host.respects_copyFrame _ _)).bind fun _ =>
      (respects_onRegistry _).bind fun _ => respects_start _ _ _

theorem respects_clone (caller : Pid) (flags stack : UInt64) :
    (clone caller flags stack).Respects Alike :=
  respects_ite _ (respects_emit_fail _ _) <| respects_ite _ (respects_emit_fail _ _) <|
    respects_ite _ (respects_emit_fail _ _) <| respects_ite _ (respects_emit_fail _ _)
      (respects_fork caller)

theorem respects_exit (caller : Pid) (code : Int32) :
    (exit caller code : Operation Kernel Event α).Respects Alike := by
  refine (respects_tell _).bind fun _ => (respects_onRegistry _).bind fun _ =>
    (respects_onHost (Host.respects_releaseSpace _)).attempt.bind fun released => ?_
  cases released with
  | ok _ => exact respects_stop _
  | error e => exact respects_stop _

theorem respects_reap (caller : Pid) (child : Int32) (options : UInt32) :
    (reap caller child options).Respects Alike :=
  respects_ite _ (respects_emit_fail _ _)
    (respects_ite _ (respects_stop _) (respects_onRegistry _))

theorem respects_deliver (caller : Pid) (child : Int32) (place : UserPtr) (found : ExitStatus) :
    (deliver caller child place found).Respects Alike := by
  refine respects_ite _ (respects_pure _) ?_
  refine (respects_onHost (Host.respects_store _ _)).attempt.bind fun stored => ?_
  cases stored with
  | ok _ => exact respects_pure _
  | error e => exact respects_emit_fail _ _

theorem respects_waitFor (caller : Pid) (child : Int32) (place : UserPtr) (options : UInt32) :
    (waitFor caller child place options).Respects Alike := by
  rw [waitFor_eq]
  exact (respects_reap _ _ _).bind fun found => respects_deliver _ _ _ _

theorem respects_perform (caller : Pid) (c : Syscall) : (perform caller c).Respects Alike := by
  cases c with
  | getpid => exact respects_pure _
  | getppid =>
    exact respects_current_bind (fun alike => by rw [alike.registry]) fun _ => respects_pure _
  | fork => exact (respects_fork _).bind fun _ => respects_pure _
  | clone flags stack => exact (respects_clone _ _ _).bind fun _ => respects_pure _
  | exit code => exact respects_exit _ _
  | exitGroup code => exact respects_exit _ _
  | waitpid child place options => exact (respects_waitFor _ _ _ _).bind fun _ => respects_pure _
  | wait4 child place options rusage =>
    exact (respects_waitFor _ _ _ _).bind fun _ => respects_pure _

theorem respects_call (caller : Pid) (c : Syscall) : (call caller c).Respects Alike :=
  (respects_perform caller c).attempt.bind fun result =>
    (respects_tell _).bind fun _ => respects_settle result

theorem respects_trap (caller : Pid) (number : UInt64) (args : Vector UInt64 6) :
    (trap caller number args).Respects Alike := by
  cases named : Syscall.nameOf? number with
  | none =>
    simp only [trap, named]
    exact (respects_tell _).bind fun _ => respects_pure _
  | some name =>
    cases decoded : Syscall.decode? number args with
    | none =>
      simp only [trap, named, decoded]
      exact (respects_tell _).bind fun _ => (respects_tell _).bind fun _ => respects_pure _
    | some c =>
      simp only [trap, named, decoded]
      exact (respects_call caller c).attempt.bind fun _ =>
        (respects_tell _).bind fun _ => respects_pure _

/-- Nothing that is asked of a kernel depends on the memory of users. -/
theorem respects_serve (q : Request) : (serve q).Respects Alike := by
  cases q with
  | registry p => exact (respects_onRegistry _).bind fun _ => respects_pure _
  | launch frame space => exact (respects_launch frame space).bind fun _ => respects_pure _
  | call caller c => exact (respects_call caller c).bind fun _ => respects_pure _
  | trap caller number args =>
    exact (respects_trap caller number args).bind fun _ => respects_pure _
  | arm facility =>
    refine (respects_onHost (respects_modify fun alike => ?_)).bind fun _ => respects_pure _
    exact ⟨rfl, alike.tasks, alike.released⟩

end Kernel
end ProcessLife
