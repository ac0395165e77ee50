import ProcessLife.Proofs.Kernel.Outcome
import ProcessLife.Proofs.Registry.Apart

/-!
# Runs of a kernel

Whatever is asked of a kernel, what it does to its registry is what some request to the registry
would do: `Outcome.onRegistry`. So all that lasts in a registry lasts in a kernel. Of the requests
only waits fall asleep.
-/

namespace ProcessLife.Kernel

abbrev Turn := ProcessLife.Turn Kernel Request

abbrev Step := ProcessLife.Step service

namespace Turn

def result (t : Turn) : Except Stop Answer :=
  (t.reply service).result

def after (t : Turn) : Kernel :=
  (t.reply service).state

theorem outcome (t : Turn) (sound : t.before.registry.Sound) :
    Outcome t.before t.request t.result t.after := by
  obtain ⟨result, k', ⟨events, run⟩, outcome⟩ := exists_outcome sound t.request
  have reply : t.reply service = ⟨result, k', events⟩ := run
  rw [Turn.result, Turn.after, reply]
  exact outcome

end Turn

def Request.call? : Request → Option (Pid × Syscall)
  | .call caller c => some (caller, c)
  | .trap caller number args => (Syscall.decode? number args).map (caller, ·)
  | _ => none

/-- The request does not go past the kernel to its registry. -/
def Request.System (q : Request) : Prop :=
  ∀ p, q ≠ .registry p

instance (q : Request) : Decidable q.System :=
  match q with
  | .registry p => .isFalse fun system => system p rfl
  | .launch _ _ => .isTrue (by simp [Request.System])
  | .call _ _ => .isTrue (by simp [Request.System])
  | .trap _ _ _ => .isTrue (by simp [Request.System])
  | .arm _ => .isTrue (by simp [Request.System])

/-- The request is a call of `caller` that waits for `pid`, in a form that is accepted. -/
def Request.Awaits (q : Request) (caller pid : Pid) : Prop :=
  ∃ c child status, q.call? = some (caller, c) ∧ c.Waits child status 0 ∧ 0 < child ∧
    child.toUInt32 = pid

/-- What the request can ask of the registry on behalf of its caller: to exit, to wait for a child,
or to enter a process. -/
def Request.Asks (q : Request) : Registry.Request → Prop
  | .exit pid code => ∃ c, q.call? = some (pid, c) ∧ c.Ends code
  | .wait parent child => q.Awaits parent child
  | .rollBack _ => False
  | .addRoot _ | .fork _ => True

variable {config : Config} {k k₀ k' : Kernel} {first last : Session Kernel Request}
  {turns : List Turn} {q : Request} {result : Except Stop Answer} {caller : Pid} {c : Syscall}
  {r : Registry}

theorem Request.system_of_call {made : Pid × Syscall} (makes : q.call? = some made) :
    q.System := by
  rintro p rfl
  cases makes

/-- The registry stays as it is, as it does where a request is refused. -/
theorem outcome_refl (r : Registry) :
    Registry.Outcome r (.fork noParent) (.error (.failed .esrch)) r :=
  .refused (by simp) (by simp)

theorem Started.onRegistry {p : Registry.Request} {task : Task} {result : Except Stop Pid}
    (started : Started k p task result k') (q : Request) :
    ∃ p result, q.Asks p ∧ Registry.Outcome k.registry p result k'.registry := by
  have enters {p answer pid} (registers : p.Registers (.ok answer) pid) : q.Asks p := by
    rcases registers with ⟨rfl, -⟩ | ⟨_, rfl, -⟩ <;> trivial
  cases started with
  | started _ outcome registers => exact ⟨_, _, enters registers, outcome⟩
  | undone _ next range => exact ⟨.fork noParent, _, trivial, .exhausted next range⟩
  | stuck _ outcome registers => exact ⟨_, _, enters registers, outcome⟩

theorem Performed.onRegistry {result : Except Stop Int64}
    (performed : Performed k caller c result k') (makes : q.call? = some (caller, c)) :
    ∃ p result, q.Asks p ∧ Registry.Outcome k.registry p result k'.registry := by
  cases performed with
  | told | refused => exact ⟨.fork noParent, _, trivial, outcome_refl _⟩
  | forked _ forked =>
    cases forked with
    | unregistered | full | short => exact ⟨.fork noParent, _, trivial, outcome_refl _⟩
    | exhausted next range => exact ⟨.fork noParent, _, trivial, .exhausted next range⟩
    | begun started => exact started.onRegistry q
  | ended ends ended =>
    cases ended with
    | exited _ outcome => exact ⟨.exit _ _, _, ⟨c, makes, ends⟩, outcome⟩
    | stranded _ outcome => exact ⟨.exit _ _, _, ⟨c, makes, ends⟩, outcome⟩
    | brokenOff _ outcome => exact ⟨.exit _ _, _, ⟨c, makes, ends⟩, outcome⟩
  | waited waits waited =>
    cases waited with
    | unsupported | unnamed | unregistered | stranger | slept =>
      exact ⟨.fork noParent, _, trivial, outcome_refl _⟩
    | fetched plain positive outcome =>
      exact ⟨.wait _ _, _, ⟨c, _, _, makes, plain ▸ waits, positive, rfl⟩, outcome⟩
    | lost plain positive outcome =>
      exact ⟨.wait _ _, _, ⟨c, _, _, makes, plain ▸ waits, positive, rfl⟩, outcome⟩

/-- What a request does to the registry is what some request to the registry would do: the one that
it passes on, or one that it makes itself. -/
theorem Outcome.onRegistry (outcome : Outcome k q result k') :
    ∃ p result, (q = .registry p ∨ q.Asks p) ∧
      Registry.Outcome k.registry p result k'.registry := by
  have own (asked : ∃ p result, q.Asks p ∧ Registry.Outcome k.registry p result k'.registry) :
      ∃ p result, (q = .registry p ∨ q.Asks p) ∧
        Registry.Outcome k.registry p result k'.registry := by
    obtain ⟨p, result, asks, outcome⟩ := asked
    exact ⟨p, result, Or.inr asks, outcome⟩
  cases outcome with
  | registry outcome => exact ⟨_, _, Or.inl rfl, outcome⟩
  | launched launched =>
    cases launched with
    | refused => exact own ⟨.fork noParent, _, trivial, outcome_refl _⟩
    | begun started => exact own (started.onRegistry _)
  | called performed => exact own (performed.onRegistry rfl)
  | trapped decoded performed =>
    exact own (performed.onRegistry (by simp [Request.call?, decoded]))
  | unprovided => exact own ⟨.fork noParent, _, trivial, outcome_refl _⟩
  | armed => exact own ⟨.fork noParent, _, trivial, outcome_refl _⟩

theorem Outcome.sound (sound : k.registry.Sound) (outcome : Outcome k q result k') :
    k'.registry.Sound := by
  obtain ⟨q, result, -, outcome⟩ := outcome.onRegistry
  exact outcome.sound sound

theorem Outcome.apart (apart : k.registry.Apart) (outcome : Outcome k q result k') :
    k'.registry.Apart := by
  obtain ⟨q, result, -, outcome⟩ := outcome.onRegistry
  exact outcome.apart apart

/-- What a request that is a system call comes to. -/
theorem Outcome.performed (outcome : Outcome k q result k') (makes : q.call? = some (caller, c)) :
    ∃ end', Performed k caller c end' k' ∧
      (result = end'.map .value ∨ result = (returned end').map .value) := by
  cases outcome with
  | registry => cases makes
  | launched => cases makes
  | called performed =>
    cases makes
    exact ⟨_, performed, Or.inl rfl⟩
  | trapped decoded performed =>
    simp only [Request.call?, decoded, Option.map_some, Option.some.injEq, Prod.mk.injEq] at makes
    obtain ⟨rfl, rfl⟩ := makes
    exact ⟨_, performed, Or.inr rfl⟩
  | unprovided unprovided => simp [Request.call?, unprovided] at makes
  | armed => cases makes

theorem map_eq_error {α β : Type} {x : Except Stop α} {f : α → β} {why : Stop} :
    x.map f = .error why ↔ x = .error why := by
  cases x <;> simp [Except.map]

theorem map_eq_ok {α β : Type} {x : Except Stop α} {f : α → β} {b : β} :
    x.map f = .ok b ↔ ∃ a, x = .ok a ∧ f a = b := by
  cases x <;> simp [Except.map]

theorem returned_eq_asleep {x : Except Stop Int64} :
    returned x = .error .asleep ↔ x = .error .asleep := by
  match x with
  | .ok _ | .error (.failed _) | .error (.broken _) | .error (.exited _) | .error .asleep =>
    simp [returned]

theorem Started.ne_asleep {q : Registry.Request} {task : Task} {result : Except Stop Pid}
    (started : Started k q task result k') : result ≠ .error .asleep := by
  cases started <;> simp

theorem Forked.ne_asleep {result : Except Stop Pid} (forked : Forked k caller result k') :
    result ≠ .error .asleep := by
  cases forked with
  | begun started => exact started.ne_asleep
  | unregistered | full | short | exhausted => simp

theorem Ended.ne_asleep {code : Int32} {why : Stop} (ended : Ended k caller code why k') :
    why ≠ .asleep := by
  cases ended <;> simp

/-- A call falls asleep only if it waits for a live child, and then it changes nothing. -/
theorem Performed.of_asleep {result : Except Stop Int64}
    (performed : Performed k caller c result k') (slept : result = .error .asleep) :
    k' = k ∧ ∃ child status, c.Waits child status 0 ∧ 0 < child ∧
      Registry.Outcome k.registry (.wait caller child.toUInt32) (.error .asleep) k.registry := by
  cases performed with
  | told => cases slept
  | refused => cases slept
  | forked _ forked => exact absurd (map_eq_error.mp slept) forked.ne_asleep
  | ended _ ended => exact absurd (Except.error.inj slept) ended.ne_asleep
  | waited waits waited =>
    rw [map_eq_error] at slept
    cases waited with
    | slept plain positive outcome => exact ⟨rfl, _, _, plain ▸ waits, positive, outcome⟩
    | unsupported | unnamed | unregistered | stranger | fetched | lost => simp at slept

/-- Of the system calls only waits fall asleep. -/
theorem Outcome.of_asleep (outcome : Outcome k q result k') (system : q.System)
    (slept : result = .error .asleep) :
    k' = k ∧ ∃ caller pid, q.Awaits caller pid ∧
      Registry.Outcome k.registry (.wait caller pid) (.error .asleep) k.registry := by
  cases outcome with
  | @registry p => exact absurd rfl (system p)
  | launched launched =>
    rw [map_eq_error] at slept
    cases launched with
    | refused => simp at slept
    | begun started => exact absurd slept started.ne_asleep
  | called performed =>
    obtain ⟨same, child, status, waits, positive, found⟩ :=
      performed.of_asleep (map_eq_error.mp slept)
    exact ⟨same, _, _, ⟨_, child, status, rfl, waits, positive, rfl⟩, found⟩
  | trapped decoded performed =>
    obtain ⟨same, child, status, waits, positive, found⟩ :=
      performed.of_asleep (returned_eq_asleep.mp (map_eq_error.mp slept))
    exact ⟨same, _, _, ⟨_, child, status, by simp [Request.call?, decoded], waits, positive, rfl⟩,
      found⟩
  | unprovided => cases slept
  | armed => cases slept

/-- What comes of a request that is a wait. -/
theorem Outcome.waited (outcome : Outcome k q result k') (makes : q.call? = some (caller, c))
    {child : Int32} {status : UserPtr} {options : UInt32}
    (waits : c.Waits child status options) :
    ∃ found, Waited k caller child status options found k' ∧
      (result = (found.map ofPid).map .value ∨
        result = (returned (found.map ofPid)).map .value) := by
  obtain ⟨result', performed, same⟩ := outcome.performed makes
  obtain ⟨found, rfl, waited⟩ := performed.waited_of waits
  exact ⟨found, waited, same⟩

/-- A new kernel has a new registry, and a host of which nothing was asked. -/
theorem new_eq_ok (new : Kernel.new config = .ok k₀) :
    Registry.new config.limits = .ok k₀.registry ∧ k₀.host = {} ∧ k₀.config = config := by
  obtain ⟨registry, begun, made⟩ := exists_of_bind_eq_ok new
  cases made
  exact ⟨begun, rfl, rfl⟩

theorem apart_new (new : Kernel.new config = .ok k₀) (apart : config.limits.ReaperApart) :
    k₀.registry.Apart :=
  Registry.apart_new (new_eq_ok new).1 apart

def Patient (sleepers : List (Sleeper Request)) : Prop :=
  ∀ w ∈ sleepers, ∃ caller pid, w.request.Awaits caller pid

namespace Step

theorem outcome (s : Step) (sound : s.first.state.registry.Sound) :
    Outcome s.first.state s.turn.request (Turn.result s.turn) s.next.state := by
  have before := s.before_turn
  rw [← before] at sound ⊢
  rw [s.state_next]
  exact Turn.outcome s.turn sound

def System (s : Step) : Prop :=
  ∀ id q, s.move = .call id q → q.System

instance (s : Step) : Decidable s.System :=
  match move : s.move with
  | .call _ q => decidable_of_iff q.System (by simp [System, move])
  | .wake _ => .isTrue (by simp [System, move])

/-- A turn is that of a new call, or that of a sleeper, who waits. -/
theorem arrives_or_awaits (s : Step) (patient : Patient s.first.sleepers) :
    (∃ id, s.move = .call id s.turn.request) ∨
      ∃ caller pid, s.turn.request.Awaits caller pid := by
  rcases s.cases with ⟨id, q, call, turn, -⟩ | ⟨front, w, back, -, sleepers, -, turn, -⟩
  · exact Or.inl ⟨id, by rw [call, turn]⟩
  · rw [turn]
    exact Or.inr (patient w (by simp [sleepers]))

theorem patient_next (s : Step) (sound : s.first.state.registry.Sound)
    (patient : Patient s.first.sleepers) (system : s.System) : Patient s.next.sleepers := by
  intro w member
  rcases s.mem_next member with earlier | slept
  · exact patient w earlier
  obtain ⟨asleep, call, -⟩ := s.of_mem_asleep slept
  have request : w.request = s.turn.request := congrArg Prod.snd call
  rw [request]
  rcases s.arrives_or_awaits patient with ⟨id, arrives⟩ | awaits
  · obtain ⟨-, caller, pid, awaits, -⟩ :=
      (s.outcome sound).of_asleep (system id _ arrives) asleep
    exact ⟨caller, pid, awaits⟩
  · exact awaits

end Step

/-- With a reaper apart, the registry stays in order, and all who sleep wait. -/
theorem apart_of_history {steps : List Step} (history : History service first steps last)
    (apart : first.state.registry.Apart) (patient : Patient first.sleepers)
    (system : ∀ s ∈ steps, Step.System s) :
    (∀ s ∈ steps, s.first.state.registry.Apart ∧ Patient s.first.sleepers) ∧
      last.state.registry.Apart := by
  have both := history.invariant
    (fun session => session.state.registry.Apart ∧ Patient session.sleepers) ⟨apart, patient⟩
    fun s member ⟨apart, patient⟩ => ⟨(Step.outcome s apart.sound).apart apart,
      Step.patient_next s apart.sound patient (system s member)⟩
  exact ⟨both.1, both.2.1⟩

end ProcessLife.Kernel
