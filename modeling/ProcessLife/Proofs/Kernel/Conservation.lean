import ProcessLife.Proofs.Kernel.Run

/-!
# Tasks are conserved

The host starts a task for each process, and takes its memory back when the process exits. A process
is registered before its task is started and has exited before its memory is given back, so either
can fail in between. With a reaper apart the account is balanced all the same: for each identifier,
the tasks started are those whose memory was given back, those whose exit failed to do so, and the
one that lives: `tasks_conserved`.
-/

namespace ProcessLife

namespace Registry

variable {r r' : Registry} {q : Request} {result : Except Stop Answer} {pid parent x : Pid}

/-- A registered process lives from then on, and did not before. -/
theorem Outcome.isAlive_of_registers (outcome : Outcome r q result r')
    (registers : q.Registers result pid) :
    r.table.get? pid = none ∧ pid ≠ noParent ∧
      ∀ x, r'.table.isAlive x = (decide (x = pid) || r.table.isAlive x) := by
  cases outcome with
  | registered _ registers' named free live _ _ look =>
    obtain rfl := registers.unique registers'
    refine ⟨free, named, fun x => ?_⟩
    rw [Table.isAlive, look]
    split
    · rename_i same
      simp [same, Record.isAlive, live]
    · rename_i other
      simp [other, Table.isAlive]
  | _ => rcases registers with ⟨⟨⟩, ⟨⟩⟩ | ⟨_, ⟨⟩, ⟨⟩⟩

/-- A wait takes out a zombie at most. -/
theorem Outcome.isAlive_wait (outcome : Outcome r (.wait parent pid) result r') (x : Pid) :
    r'.table.isAlive x = r.table.isAlive x := by
  cases outcome with
  | refused | slept => rfl
  | registered _ registers => simp [Request.Registers] at registers
  | reaped found dead _ _ look =>
    rw [Table.isAlive, look]
    split
    · rename_i same
      simp [same, Table.isAlive, found, Record.isAlive, dead]
    · rfl

/-- With a reaper apart, the exit of a live process succeeds, and all others live on. -/
theorem Outcome.isAlive_exit {code : Int32} (apart : r.Apart)
    (outcome : Outcome r (.exit pid code) result r') (alive : r.table.isAlive pid = true) :
    result = .ok .done ∧ ∀ x, r'.table.isAlive x = (decide (x ≠ pid) && r.table.isAlive x) := by
  cases outcome with
  | refused _ spared => simp [spared pid code rfl] at alive
  | untracked missing => simp [Table.isAlive, missing] at alive
  | registered _ registers => exact absurd rfl (registers.ne_exit pid code)
  | exited _ _ _ _ look =>
    refine ⟨rfl, fun x => ?_⟩
    rw [Bool.eq_iff_iff, isAlive_exited_iff look]
    simp
  | brokenOff _ _ knot => exact absurd knot apart.forest.free

end Registry

namespace Kernel

def started (k : Kernel) (pid : Pid) : Nat :=
  k.host.tasks.countP (·.pid = pid)

def released (k : Kernel) (pid : Pid) : Nat :=
  k.host.released.count pid

def living (k : Kernel) (pid : Pid) : Nat :=
  (k.registry.table.isAlive pid).toNat

/-- The process has exited, but its address space was not given back. -/
def strandsBy (pid : Pid) : Stop → Bool
  | .broken (.spaceNotReleased own _) => own == pid
  | _ => false

def strands {α : Type} (pid : Pid) : Except Stop α → Bool
  | .ok _ => false
  | .error why => strandsBy pid why

/-- Between two states tasks were started, processes have exited and address spaces were given
back, and the account of `pid` is even if `lost` of its address spaces were not given back. -/
def Balanced (k k' : Kernel) (pid : Pid) (lost : Nat) : Prop :=
  k'.started pid + k.released pid + k.living pid =
    k.started pid + k'.released pid + k'.living pid + lost

/-- A call comes in the name of a live process, and does not go past the kernel. -/
def Request.Lawful (k : Kernel) : Request → Prop
  | .registry _ => False
  | .launch _ _ | .arm _ => True
  | .call caller _ | .trap caller _ _ => k.registry.table.isAlive caller = true

variable {config : Config} {k k₀ k' : Kernel} {first last : Session Kernel Request}
  {q : Request} {result : Except Stop Answer} {caller x : Pid} {c : Syscall} {steps : List Step}

theorem Request.Lawful.system (lawful : q.Lawful k) : q.System := by
  rintro p rfl
  exact lawful

theorem Request.Lawful.isAlive (lawful : q.Lawful k) (makes : q.call? = some (caller, c)) :
    k.registry.table.isAlive caller = true := by
  cases q with
  | registry | launch | arm => cases makes
  | call => cases makes; exact lawful
  | trap _ number args =>
    obtain ⟨_, -, same⟩ := Option.map_eq_some_iff.mp makes
    cases same
    exact lawful

/-- Nothing changes that counts. -/
theorem balanced_of_same (tasks : k'.host.tasks = k.host.tasks)
    (released : k'.host.released = k.host.released)
    (alive : k'.registry.table.isAlive x = k.registry.table.isAlive x) : Balanced k k' x 0 := by
  simp only [Balanced, started, Kernel.released, living, tasks, released, alive]
  omega

/-- A registered process gets a task, or is taken back. -/
theorem Started.balanced {q : Registry.Request} {task : Task} {result : Except Stop Pid}
    (apart : k.registry.Apart) (started : Started k q task result k') (x : Pid) :
    Balanced k k' x 0 := by
  cases started with
  | started _ outcome registers =>
    obtain ⟨free, -, alive⟩ := outcome.isAlive_of_registers registers
    have dead : k.registry.table.isAlive task.pid = false := by simp [Table.isAlive, free]
    simp only [Balanced, Kernel.started, released, living, alive, Array.countP_push]
    by_cases own : x = task.pid
    · subst own
      simp [dead]
      omega
    · simp [own, eq_comm (a := task.pid)]
  | undone => exact balanced_of_same rfl rfl rfl
  | stuck _ outcome registers child =>
    obtain ⟨free, named, -⟩ := outcome.isAlive_of_registers registers
    have alive := apart.attended.alive child named
    simp [Table.isAlive, free] at alive

/-- An exit gives the address space back, or loses it. -/
theorem Ended.balanced {code : Int32} {why : Stop} (apart : k.registry.Apart)
    (ended : Ended k caller code why k') (alive : k.registry.table.isAlive caller = true)
    (x : Pid) : Balanced k k' x (strandsBy x why).toNat := by
  have gone {result : Except Stop Registry.Answer} {r' : Registry}
      (outcome : Registry.Outcome k.registry (.exit caller code) result r') :=
    outcome.isAlive_exit apart alive
  cases ended with
  | exited _ outcome =>
    obtain ⟨-, others⟩ := gone outcome
    simp only [Balanced, started, released, living, others, Array.count_push, strandsBy]
    by_cases own : x = caller
    · subst own
      simp [alive]
      omega
    · simp [own, eq_comm (a := caller)]
  | stranded _ outcome =>
    obtain ⟨-, others⟩ := gone outcome
    simp only [Balanced, started, released, living, others, strandsBy, Host.disarm]
    by_cases own : x = caller
    · subst own
      simp [alive]
    · simp [own, eq_comm (a := caller)]
  | brokenOff _ outcome => exact absurd (gone outcome).1 (by simp)

/-- A wait touches neither tasks nor the living. -/
theorem Waited.balanced {child : Int32} {status : UserPtr} {options : UInt32}
    {result : Except Stop Pid} (waited : Waited k caller child status options result k')
    (x : Pid) : Balanced k k' x 0 := by
  cases waited with
  | unsupported | unnamed | unregistered | stranger | slept => exact balanced_of_same rfl rfl rfl
  | lost _ _ outcome => exact balanced_of_same rfl rfl (outcome.isAlive_wait x)
  | fetched _ _ outcome =>
    have same (h : Host) (word : Int32) : (h.stored status word).tasks = h.tasks ∧
        (h.stored status word).released = h.released := by
      unfold Host.stored
      split <;> exact ⟨rfl, rfl⟩
    exact balanced_of_same (same _ _).1 (same _ _).2 (outcome.isAlive_wait x)

theorem strands_map {α β : Type} (x : Pid) (result : Except Stop α) (f : α → β) :
    strands x (result.map f) = strands x result := by
  cases result <;> rfl

theorem strands_returned (x : Pid) (result : Except Stop Int64) :
    strands x (returned result) = strands x result := by
  match result with
  | .ok _ | .error (.failed _) | .error (.broken _) | .error (.exited _) | .error .asleep => rfl

/-- The call of a live process, or a wait, keeps the account even. -/
theorem Performed.balanced {result : Except Stop Int64} (apart : k.registry.Apart)
    (performed : Performed k caller c result k')
    (may : k.registry.table.isAlive caller = true ∨
      ∃ child status options, c.Waits child status options) (x : Pid) :
    Balanced k k' x (strands x result).toNat := by
  cases performed with
  | told => exact balanced_of_same rfl rfl rfl
  | refused => exact balanced_of_same rfl rfl rfl
  | forked _ forked =>
    rw [strands_map]
    cases forked with
    | unregistered | full | short | exhausted => exact balanced_of_same rfl rfl rfl
    | begun started =>
      have even := started.balanced apart x
      cases started with
      | started | undone | stuck => exact even
  | ended ends ended =>
    rcases may with alive | ⟨child, status, options, waits⟩
    · exact ended.balanced apart alive x
    · exact absurd ends waits.not_ends
  | waited _ waited =>
    rw [strands_map]
    have even := waited.balanced x
    cases waited with
    | unsupported | unnamed | unregistered | stranger | slept | fetched | lost => exact even

theorem Outcome.balanced (apart : k.registry.Apart) (outcome : Outcome k q result k')
    (may : q.Lawful k ∨ ∃ caller pid, q.Awaits caller pid) (x : Pid) :
    Balanced k k' x (strands x result).toNat := by
  have call {caller : Pid} {c : Syscall} (makes : q.call? = some (caller, c)) :
      k.registry.table.isAlive caller = true ∨
        ∃ child status options, c.Waits child status options := by
    refine may.imp (fun lawful => lawful.isAlive makes) ?_
    rintro ⟨caller', pid, c', child, status, same, waits, -⟩
    rw [makes] at same
    cases same
    exact ⟨child, status, 0, waits⟩
  cases outcome with
  | registry =>
    rcases may with lawful | ⟨_, _, _, _, _, ⟨⟩, -⟩
    exact lawful.elim
  | launched launched =>
    rw [strands_map]
    cases launched with
    | refused cause =>
      rcases cause with rfl | rfl <;> exact balanced_of_same rfl rfl rfl
    | begun started =>
      have even := started.balanced apart x
      cases started with
      | started | undone | stuck => exact even
  | called performed =>
    rw [strands_map]
    exact performed.balanced apart (call rfl) x
  | trapped decoded performed =>
    rw [strands_map, strands_returned]
    exact performed.balanced apart (call (by simp [Request.call?, decoded])) x
  | unprovided => exact balanced_of_same rfl rfl rfl
  | armed => exact balanced_of_same rfl rfl rfl

/-- A task is started only for a process that is registered with it. -/
def TaskBegins (k k' : Kernel) : Prop :=
  ∃ task, k'.host.tasks = k.host.tasks.push task ∧ k.registry.table.get? task.pid = none ∧
    k'.registry.table.isAlive task.pid = true

theorem Started.tasks {q : Registry.Request} {task : Task} {result : Except Stop Pid}
    (started : Started k q task result k') :
    k'.host.tasks = k.host.tasks ∨ TaskBegins k k' := by
  cases started with
  | started _ outcome registers =>
    obtain ⟨free, -, alive⟩ := outcome.isAlive_of_registers registers
    exact Or.inr ⟨task, rfl, free, by simp [alive]⟩
  | undone | stuck => exact Or.inl rfl

theorem tasks_stored (p : UserPtr) (word : Int32) (h : Host) :
    (h.stored p word).tasks = h.tasks := by
  unfold Host.stored
  split <;> rfl

theorem Performed.tasks {result : Except Stop Int64} (performed : Performed k caller c result k') :
    k'.host.tasks = k.host.tasks ∨ TaskBegins k k' := by
  cases performed with
  | told | refused => exact Or.inl rfl
  | forked _ forked =>
    cases forked with
    | unregistered | full | short | exhausted => exact Or.inl rfl
    | begun started => exact started.tasks
  | ended _ ended =>
    cases ended with
    | exited | stranded | brokenOff => exact Or.inl rfl
  | waited _ waited =>
    cases waited with
    | fetched => exact Or.inl (tasks_stored _ _ _)
    | unsupported | unnamed | unregistered | stranger | slept | lost => exact Or.inl rfl

theorem Outcome.tasks (outcome : Outcome k q result k') :
    k'.host.tasks = k.host.tasks ∨ TaskBegins k k' := by
  cases outcome with
  | registry | unprovided | armed => exact Or.inl rfl
  | launched launched =>
    cases launched with
    | refused => exact Or.inl rfl
    | begun started => exact started.tasks
  | called performed => exact performed.tasks
  | trapped _ performed => exact performed.tasks

def Step.Lawful (s : Step) : Prop :=
  ∀ id q, s.move = .call id q → q.Lawful s.first.state

instance (q : Request) (k : Kernel) : Decidable (q.Lawful k) :=
  match q with
  | .registry _ => .isFalse id
  | .launch _ _ | .arm _ => .isTrue trivial
  | .call caller _ | .trap caller _ _ =>
    inferInstanceAs (Decidable (k.registry.table.isAlive caller = true))

instance (s : Step) : Decidable s.Lawful :=
  match move : s.move with
  | .call _ q => decidable_of_iff (q.Lawful s.first.state) (by simp [Step.Lawful, move])
  | .wake _ => .isTrue (by simp [Step.Lawful, move])

theorem balanced_of_history (history : History service first steps last) {x : Pid}
    (even : ∀ s ∈ steps, Balanced s.first.state s.next.state x
      (strands x (Turn.result s.turn)).toNat) :
    Balanced first.state last.state x (steps.countP fun s => strands x (Turn.result s.turn)) := by
  induction history with
  | stay => simp [Balanced]
  | step s _ ih =>
    rw [List.forall_mem_cons] at even
    have rest := ih even.2
    have own := even.1
    rw [List.countP_cons, Balanced] at *
    cases h : strands x (Turn.result s.turn) <;> simp [h] at own ⊢ <;> omega

/-- Tasks are conserved. As long as only live processes make calls, and with a reaper apart, at any
time and for each identifier the tasks that were started are as many as the address spaces given
back, the exits that failed to give one back, and one more if the process lives. In particular each
live process has a task; and no task is started but for a process that is registered in the same
step and not taken back. -/
theorem tasks_conserved (new : Kernel.new config = .ok k₀) (apart : config.limits.ReaperApart)
    (history : History service { state := k₀ } steps last) (lawful : ∀ s ∈ steps, Step.Lawful s) :
    (∀ x, last.state.started x =
      last.state.released x + (steps.countP fun s => strands x (Turn.result s.turn)) +
        last.state.living x) ∧
    (∀ x, last.state.registry.table.isAlive x = true →
      ∃ task ∈ last.state.host.tasks, task.pid = x) ∧
    ∀ s ∈ steps, s.next.state.host.tasks = s.first.state.host.tasks ∨
      TaskBegins s.first.state s.next.state := by
  have system (s) (member : s ∈ steps) : Step.System s := fun id q arrives =>
    (lawful s member id q arrives).system
  obtain ⟨throughout, -⟩ := apart_of_history history (apart_new new apart)
    (fun _ member => (List.not_mem_nil member).elim) system
  have even (x : Pid) := balanced_of_history (x := x) history fun s member => by
    obtain ⟨apart, patient⟩ := throughout s member
    refine (Step.outcome s apart.sound).balanced apart ?_ x
    refine (Step.arrives_or_awaits s patient).imp_left ?_
    rintro ⟨id, arrives⟩
    exact lawful s member id _ arrives
  have account (x : Pid) : last.state.started x =
      last.state.released x + (steps.countP fun s => strands x (Turn.result s.turn)) +
        last.state.living x := by
    obtain ⟨new, host, -⟩ := new_eq_ok new
    have empty : k₀.registry.table = .empty := (Registry.new_eq_ok new).1
    have even := even x
    simp only [Balanced, started, released, living, host, empty, Table.isAlive,
      Table.get?_empty] at even ⊢
    simp at even
    omega
  refine ⟨account, fun x alive => ?_, fun s member => ?_⟩
  · have some : 0 < last.state.started x := by
      rw [account, living, alive]
      simp
    simpa [started, Array.countP_pos_iff] using some
  · exact (Step.outcome s (throughout s member).1.sound).tasks

/-- Of two children that have exited, only one got its address space taken back. -/
theorem tasks_conserved_stranded :
    ∃ k₀ steps last, Kernel.new {} = .ok k₀ ∧ History service { state := k₀ } steps last ∧
      (∀ s ∈ steps, Step.Lawful s) ∧
      (∀ x, last.state.started x =
        last.state.released x + (steps.countP fun s => strands x (Turn.result s.turn)) +
          last.state.living x) ∧
      [1, 2, 3].map last.state.started = [1, 1, 1] ∧
      [1, 2, 3].map last.state.released = [0, 1, 0] ∧
      [1, 2, 3].map last.state.living = [1, 0, 0] := by
  have recorded : service.record (Kernel.new {}) [.call 0 (.launch .zero ⟨1⟩),
    .call 1 (.trap 1 57 #v[0, 0, 0, 0, 0, 0]), .call 2 (.trap 1 57 #v[0, 0, 0, 0, 0, 0]),
    .call 3 (.arm .releaseSpace), .call 4 (.trap 3 60 #v[7, 0, 0, 0, 0, 0]),
    .call 5 (.trap 2 60 #v[7, 0, 0, 0, 0, 0])] = .ok ([_, _, _, _, _, _], _) := rfl
  obtain ⟨k₀, new, history⟩ := service.history_of_record recorded
  have conserved := tasks_conserved new (fun _ none => nomatch none) history (by decide +kernel)
  exact ⟨k₀, _, _, new, history, by decide +kernel, conserved.1, by decide +kernel,
    by decide +kernel, by decide +kernel⟩

end Kernel
end ProcessLife
