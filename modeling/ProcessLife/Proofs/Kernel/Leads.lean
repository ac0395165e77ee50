import ProcessLife.Kernel.Service

/-!
# Where an operation leads

Of an operation on a kernel mostly two things matter: how it ended, and what it left. `Leads` leaves
out what was told on the way, so that where a longer operation leads can be put together from where
its parts lead. The parts that touch the host end in one of two ways: the host was armed to fail
there, or it was not.
-/

namespace ProcessLife

namespace Operation

variable {σ τ ε δ α β : Type} {s s' s'' : σ} {x : Operation σ ε α} {a : α} {why : Stop}
  {e : Errno}

/-- The operation ends with `result` and leaves `s'`, whatever it tells. -/
def Leads (x : Operation σ ε α) (s : σ) (result : Except Stop α) (s' : σ) : Prop :=
  ∃ events, x.run s = ⟨result, s', events⟩

theorem leads_run (x : Operation σ ε α) (s : σ) : x.Leads s (x.run s).result (x.run s).state :=
  ⟨_, rfl⟩

theorem leads_pure : (pure a : Operation σ ε α).Leads s (.ok a) s :=
  ⟨_, run_pure s a⟩

theorem leads_fail : (fail e : Operation σ ε α).Leads s (.error (.failed e)) s :=
  ⟨_, run_fail s e⟩

theorem leads_stop : (stop why : Operation σ ε α).Leads s (.error why) s :=
  ⟨_, run_stop s why⟩

theorem leads_emit (event : ε) : (emit event : Operation σ ε Unit).Leads s (.ok ()) s :=
  ⟨_, run_emit s event⟩

theorem leads_tell (events : List ε) : (tell events : Operation σ ε Unit).Leads s (.ok ()) s :=
  ⟨_, run_tell s events⟩

theorem leads_current : (current : Operation σ ε σ).Leads s (.ok s) s :=
  ⟨_, run_current s⟩

theorem Leads.bind {next : α → Operation σ ε β} {result : Except Stop β}
    (first : x.Leads s (.ok a) s') (second : (next a).Leads s' result s'') :
    (x >>= next).Leads s result s'' := by
  obtain ⟨told, first⟩ := first
  obtain ⟨events, second⟩ := second
  exact ⟨told ++ events, by rw [run_bind, first, Reply.andThen_ok, second, Reply.after_mk]⟩

theorem Leads.bind_error {next : α → Operation σ ε β} (first : x.Leads s (.error why) s') :
    (x >>= next).Leads s (.error why) s' := by
  obtain ⟨told, first⟩ := first
  exact ⟨told, by rw [run_bind, first, Reply.andThen_error]⟩

/-- An operation that tells why it fails. -/
theorem leads_emit_fail (event : ε) :
    (emit event >>= fun _ => (fail e : Operation σ ε α)).Leads s (.error (.failed e)) s :=
  (leads_emit event).bind leads_fail

/-- An operation whose answer is wrapped. -/
theorem Leads.wrap {result : Except Stop α} (first : x.Leads s result s') (wrap : α → β) :
    (x >>= fun a => (pure (wrap a) : Operation σ ε β)).Leads s (result.map wrap) s' := by
  cases result with
  | ok a => exact first.bind leads_pure
  | error why => exact first.bind_error

theorem Leads.attempt_ok (first : x.Leads s (.ok a) s') : x.attempt.Leads s (.ok (.ok a)) s' := by
  obtain ⟨events, first⟩ := first
  exact ⟨events, by rw [run, attempt, first]⟩

theorem Leads.attempt_failed (first : x.Leads s (.error (.failed e)) s') :
    x.attempt.Leads s (.ok (.error e)) s' := by
  obtain ⟨events, first⟩ := first
  exact ⟨events, by rw [run, attempt, first]⟩

theorem Leads.attempt_error (first : x.Leads s (.error why) s')
    (other : ∀ e, why ≠ .failed e) : x.attempt.Leads s (.error why) s' := by
  obtain ⟨events, first⟩ := first
  refine ⟨events, ?_⟩
  rw [run, attempt, first]
  cases why with
  | failed e => exact absurd rfl (other e)
  | _ => rfl

theorem Leads.zoom {part : τ → σ} {put : σ → τ → τ} {wrap : ε → δ} {t : τ}
    {result : Except Stop α} (first : x.Leads (part t) result s') :
    (x.zoom part put wrap).Leads t result (put s' t) := by
  obtain ⟨events, first⟩ := first
  exact ⟨events.map wrap, by rw [run_zoom, first]⟩

theorem Leads.unique {result result' : Except Stop α} (first : x.Leads s result s')
    (second : x.Leads s result' s'') : result = result' ∧ s' = s'' := by
  obtain ⟨_, first⟩ := first
  obtain ⟨_, second⟩ := second
  rw [first, Reply.mk.injEq] at second
  exact ⟨second.1, second.2.1⟩

end Operation

open Operation

namespace Host

variable {ε : Type} {h : Host} {facility : Facility} {e : Errno} {task : Task} {pid : Pid}
  {p : UserPtr} {word : Int32}

def disarm (h : Host) : Host :=
  { h with armed := none }

theorem leads_failIfArmed (armed : h.armed = some facility) :
    (failIfArmed facility e : Operation Host ε Unit).Leads h (.error (.failed e)) h.disarm :=
  ⟨[], by simp [failIfArmed, armed, disarm]⟩

theorem leads_passed (ready : h.armed ≠ some facility) :
    (failIfArmed facility e : Operation Host ε Unit).Leads h (.ok ()) h :=
  ⟨[], by simp [failIfArmed, ready]⟩

def stored (p : UserPtr) (word : Int32) (h : Host) : Host :=
  if p.isNull then h else { h with memory := h.memory.insert p.address word }

def Writable (p : UserPtr) : Prop :=
  p.isNull = true ∨ leastUserAddress ≤ p.address

instance (p : UserPtr) : Decidable (Writable p) :=
  inferInstanceAs (Decidable (_ ∨ _))

theorem leads_store (given : p.isNull = false) (writable : Writable p) :
    (store p word : Operation Host ε Unit).Leads h (.ok ()) (h.stored p word) := by
  have legal : ¬ p.address < leastUserAddress := by
    simpa [Writable, given] using writable
  exact ⟨[], by simp [store, given, legal, stored]⟩

theorem leads_store_illegal (illegal : ¬ Writable p) :
    (store p word : Operation Host ε Unit).Leads h (.error (.failed .efault)) h := by
  rw [Writable, not_or, UInt64.not_le] at illegal
  exact ⟨[], by simp [store, illegal.2]⟩

end Host

namespace Kernel

variable {α : Type} {k : Kernel} {result : Except Stop α} {task : Task} {pid : Pid}

theorem leads_onRegistry {x : Operation Registry Registry.Event α} {r' : Registry}
    (first : x.Leads k.registry result r') :
    (onRegistry x).Leads k result { k with registry := r' } :=
  first.zoom

theorem leads_onHost {x : Operation Host Event α} {h' : Host} (first : x.Leads k.host result h') :
    (onHost x).Leads k result { k with host := h' } :=
  first.zoom

theorem leads_copySpace (ready : k.host.armed ≠ some .copySpace) :
    (onHost (Host.copySpace pid)).Leads k (.ok ⟨pid⟩) k :=
  leads_onHost ((Host.leads_passed ready).bind leads_pure)

theorem leads_copyFrame (ready : k.host.armed ≠ some .copyFrame) (frame : TrapFrame)
    (value : UInt64) :
    (onHost (Host.copyFrame frame value)).Leads k (.ok { frame with result := value }) k :=
  leads_onHost ((Host.leads_passed ready).bind leads_pure)

theorem leads_startTask (ready : k.host.armed ≠ some .startTask) (task : Task) :
    (attempt (onHost (Host.startTask task))).Leads k (.ok (.ok ()))
      { k with host := { k.host with tasks := k.host.tasks.push task } } :=
  (leads_onHost ((Host.leads_passed ready).bind ⟨_, run_modify _ _⟩)).attempt_ok

theorem leads_startTask_armed (armed : k.host.armed = some .startTask) (task : Task) :
    (attempt (onHost (Host.startTask task))).Leads k (.ok (.error .eagain))
      { k with host := k.host.disarm } :=
  (leads_onHost (Host.leads_failIfArmed armed).bind_error).attempt_failed

theorem leads_releaseSpace (ready : k.host.armed ≠ some .releaseSpace) (pid : Pid) :
    (attempt (onHost (Host.releaseSpace pid))).Leads k (.ok (.ok ()))
      { k with host := { k.host with released := k.host.released.push pid } } :=
  (leads_onHost ((Host.leads_passed ready).bind ⟨_, run_modify _ _⟩)).attempt_ok

theorem leads_releaseSpace_armed (armed : k.host.armed = some .releaseSpace) (pid : Pid) :
    (attempt (onHost (Host.releaseSpace pid))).Leads k (.ok (.error .eio))
      { k with host := k.host.disarm } :=
  (leads_onHost (Host.leads_failIfArmed armed).bind_error).attempt_failed

theorem leads_store {p : UserPtr} (given : p.isNull = false) (writable : Host.Writable p)
    (word : Int32) :
    (attempt (onHost (Host.store p word))).Leads k (.ok (.ok ()))
      { k with host := k.host.stored p word } :=
  (leads_onHost (Host.leads_store given writable)).attempt_ok

theorem leads_store_illegal {p : UserPtr} (illegal : ¬ Host.Writable p) (word : Int32) :
    (attempt (onHost (Host.store p word))).Leads k (.ok (.error .efault)) k :=
  (leads_onHost (Host.leads_store_illegal illegal)).attempt_failed

/-- The trace of a call makes no difference. -/
theorem leads_call {caller : Pid} {c : Syscall} {k' : Kernel} {result : Except Stop Int64}
    (run : (perform caller c).Leads k result k') : (call caller c).Leads k result k' := by
  cases result with
  | ok value => exact run.attempt_ok.bind ((leads_tell _).bind leads_pure)
  | error why =>
    cases why with
    | failed e => exact run.attempt_failed.bind ((leads_tell _).bind leads_fail)
    | broken | exited | asleep => exact (run.attempt_error (by simp)).bind_error

end Kernel
end ProcessLife
