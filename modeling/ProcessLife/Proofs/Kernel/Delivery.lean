import ProcessLife.Proofs.Kernel.Run
import ProcessLife.Proofs.Kernel.Unread
import ProcessLife.Proofs.Registry.Standing
import ProcessLife.Proofs.Session.Lockstep

/-!
# Where a status goes

A wait says where it wants the status of its child, and where it wants to be told of the use of
resources. Which of its turns comes when, whether it sleeps, what it takes out of the registry and
what everybody else is answered does not depend on that. Two runs that differ in these places alone
go in lockstep, and all that comes of the places is the answer once the child is out of the registry
and a word in the memory of users: `wait_blind_to_places`.
-/

namespace ProcessLife

theorem Host.word?_stored (h : Host) (place : UserPtr) (word : Int32) (address : UInt64) :
    (h.stored place word).word? address =
      if place.address ≠ 0 ∧ address = place.address then some word else h.word? address := by
  by_cases null : place.address = 0
  · simp [Host.stored, UserPtr.isNull, null]
  · simp only [Host.stored, Host.word?, UserPtr.isNull, null, beq_iff_eq, if_false, ne_eq,
      not_false_eq_true, true_and, Std.ExtTreeMap.getElem?_insert,
      Std.LawfulEqCmp.compare_eq_iff_eq]
    simp only [eq_comm]

theorem Host.word?_of_memory {h h' : Host} (same : h'.memory = h.memory) (address : UInt64) :
    h'.word? address = h.word? address := by
  rw [Host.word?, same, Host.word?]

theorem Host.exists_memory_stored (h : Host) (place : UserPtr) (word : Int32) :
    ∃ memory, h.stored place word = { h with memory } := by
  unfold Host.stored
  split
  · exact ⟨h.memory, rfl⟩
  · exact ⟨_, rfl⟩

namespace Kernel

open Operation

structure Wait where
  id : Nat
  caller : Pid
  child : Int32
  options : UInt32

/-- Where a call wants the status of its child, and where it wants to be told of the use of
resources. -/
structure Places where
  status : UserPtr
  rusage : UInt64

/-- A status was stored at the address: a wait that wants it there was answered with its child. -/
def Request.Stores (q : Request) (result : Except Stop Answer) (address : UInt64) : Prop :=
  ∃ caller c child options, q.call? = some (caller, c) ∧ c.Waits child ⟨address⟩ options ∧
    result = .ok (.value (ofPid child.toUInt32))

namespace Wait

def pid (w : Wait) : Pid :=
  w.child.toUInt32

def call (w : Wait) (places : Places) : Nat × Request :=
  (w.id, .call w.caller (.wait4 w.child places.status w.options places.rusage))

def answer (w : Wait) (status : UserPtr) : Except Stop Answer :=
  if status.address = 0 ∨ 0x1000 ≤ status.address then .ok (.value (ofPid w.pid))
  else .error (.failed .efault)

/-- The child has exited and is still there for its parent, which is the caller. -/
def Finds (w : Wait) (r : Registry) (found : ExitStatus) : Prop :=
  r.table.get? w.pid = some ⟨w.pid, w.caller, some found⟩

def Reaps (w : Wait) (s : Step) : Prop :=
  (∃ found, w.Finds s.first.state.registry found) ∧ s.next.state.registry.table.get? w.pid = none

/-- The calls are the same, or each is the wait with its own places. -/
def Twin (w : Wait) (one other : Places) (c c' : Nat × Request) : Prop :=
  c' = c ∨ c = w.call one ∧ c' = w.call other

/-- Two steps in the same place of two runs that differ in the places of a wait. But for the memory
of users they find and leave the same, and their turns are answered alike, unless they are those of
the wait and it has reaped its child. -/
structure Follows (w : Wait) (one other : Places) (s s' : Step) : Prop extends
    Step.Paired Alike (w.Twin one other) s s' where
  same : s'.turn.call = s.turn.call → Turn.result s'.turn = Turn.result s.turn
  reaped : s.turn.call = w.call one → s'.turn.call = w.call other → w.Reaps s →
    Turn.result s.turn = w.answer one.status ∧ Turn.result s'.turn = w.answer other.status
  unreaped : s.turn.call = w.call one → s'.turn.call = w.call other → ¬ w.Reaps s →
    ∃ why, Turn.result s.turn = .error why ∧ Turn.result s'.turn = .error why

/-- What the turn of a wait does to the memory of users. It changes one word at most, and that only
if the call is answered with the child and has named a place; then the status of the child is found
there as long as nothing else is stored there. -/
structure Delivers (w : Wait) (places : Places) (s : Step) (later : List Step) : Prop where
  confined : ∀ address, s.next.state.host.word? address ≠ s.first.state.host.word? address →
    address = places.status.address ∧ address ≠ 0 ∧
      Turn.result s.turn = .ok (.value (ofPid w.pid))
  readable : Turn.result s.turn = .ok (.value (ofPid w.pid)) → places.status.address ≠ 0 →
    ∃ found, w.Finds s.first.state.registry found ∧ ∀ quiet rest, later = quiet ++ rest →
      (∀ t ∈ quiet, ¬ t.turn.request.Stores (Turn.result t.turn) places.status.address) →
      ∀ t ∈ s :: quiet, t.next.state.host.word? places.status.address = some found.raw

end Wait

variable {k k' : Kernel} {first last : Session Kernel Request} {q : Request} {w : Wait}
  {one other places : Places} {result : Except Stop Answer}

section turn

/-- A wait that reaps no child leaves the kernel as it is, and one that does takes the child out of
the registry. -/
theorem reap_cases (sound : k.registry.Sound) (caller : Pid) (child : Int32) (options : UInt32) :
    (∃ why, (reap caller child options).Leads k (.error why) k) ∨
      ∃ found r', (reap caller child options).Leads k (.ok found) { k with registry := r' } ∧
        Registry.Outcome k.registry (.wait caller child.toUInt32) (.ok (.reaped found)) r' := by
  by_cases plain : options = 0
  case neg => exact Or.inl ⟨_, leads_reap_unsupported plain⟩
  subst plain
  by_cases positive : 0 < child
  case neg => exact Or.inl ⟨_, leads_reap_unnamed (Int32.not_lt.mp positive)⟩
  obtain ⟨result, r', wait, outcome⟩ :=
    sound.outcome_of (.wait caller child.toUInt32) .reaped rfl
  cases result with
  | ok found => exact Or.inr ⟨found, r', leads_reap positive wait, outcome⟩
  | error why =>
    obtain rfl : r' = k.registry := by
      cases outcome <;> rfl
    exact Or.inl ⟨why, leads_reap positive wait⟩

theorem Wait.answer_of_writable {status : UserPtr} (writable : Host.Writable status) :
    w.answer status = .ok (.value (ofPid w.pid)) := by
  rw [Host.Writable, UserPtr.isNull, beq_iff_eq] at writable
  exact if_pos writable

theorem Wait.answer_of_illegal {status : UserPtr} (illegal : ¬ Host.Writable status) :
    w.answer status = .error (.failed .efault) := by
  rw [Host.Writable, UserPtr.isNull, beq_iff_eq] at illegal
  exact if_neg illegal

theorem Wait.finds_of_reaped (w : Wait) {r r' : Registry} {found : ExitStatus} (sound : r.Sound)
    (outcome : Registry.Outcome r (.wait w.caller w.pid) (.ok (.reaped found)) r') :
    w.Finds r found ∧ r'.table.get? w.pid = none := by
  obtain ⟨⟨d, present, dead, parent⟩, -, ⟨gone, -⟩, -⟩ := outcome.fetches sound
  obtain ⟨pid, _, _⟩ := d
  cases dead
  cases parent
  cases sound.consistent.keyed present
  exact ⟨present, gone⟩

theorem Wait.leads_serve (w : Wait) (places : Places) {result : Except Stop Pid}
    (waits : (waitFor w.caller w.child places.status w.options).Leads k result k') :
    (serve (w.call places).2).Leads k ((result.map ofPid).map .value) k' := by
  have performed : (perform w.caller
      (.wait4 w.child places.status w.options places.rusage)).Leads k (result.map ofPid) k' :=
    waits.wrap ofPid
  exact (leads_call performed).wrap Answer.value

/-- Either the wait comes to nothing, whatever places it names, or it reaps its child, and then the
answer is the one that the place for the status allows, and nothing else depends on it. -/
theorem Wait.leads (w : Wait) (sound : k.registry.Sound) :
    (∃ why, ∀ places, (serve (w.call places).2).Leads k (.error why) k) ∨
      ∃ found r', w.Finds k.registry found ∧ r'.table.get? w.pid = none ∧ ∀ places, ∃ memory,
        (serve (w.call places).2).Leads k (w.answer places.status)
          { k with registry := r', host := { k.host with memory } } := by
  rcases reap_cases sound w.caller w.child w.options with
    ⟨why, reaping⟩ | ⟨found, r', reaping, outcome⟩
  · exact Or.inl ⟨why, fun places => w.leads_serve places (leads_waitFor_error reaping)⟩
  obtain ⟨finds, gone⟩ := w.finds_of_reaped sound outcome
  refine Or.inr ⟨found, r', finds, gone, fun places => ?_⟩
  by_cases writable : Host.Writable places.status
  · obtain ⟨memory, stored⟩ := k.host.exists_memory_stored places.status found.raw
    have delivered := leads_waitFor_ok reaping (leads_delivered writable)
    rw [stored] at delivered
    rw [w.answer_of_writable writable]
    exact ⟨memory, w.leads_serve places delivered⟩
  · have undelivered := leads_waitFor_ok reaping (leads_undelivered writable)
    rw [w.answer_of_illegal writable]
    exact ⟨k.host.memory, w.leads_serve places undelivered⟩

/-- The wait with one place on one kernel, and with another one on a kernel that differs in the
memory of users: neither reaps the child, or both do. -/
theorem Wait.serve_twin (w : Wait) (sound : k.registry.Sound) (alike : k.Alike k')
    (one other : Places) :
    let r := (serve (w.call one).2).run k
    let r' := (serve (w.call other).2).run k'
    r.state.Alike r'.state ∧
      ((∃ why, r.result = .error why ∧ r'.result = .error why ∧ r.state = k) ∨
        (∃ found, w.Finds k.registry found) ∧ r.state.registry.table.get? w.pid = none ∧
          r.result = w.answer one.status ∧ r'.result = w.answer other.status) := by
  intro r r'
  -- The other wait is first looked at on the same kernel, where only the places differ.
  obtain ⟨same, states⟩ := respects_serve (w.call other).2 alike
  rcases w.leads sound with ⟨why, refused⟩ | ⟨found, r₁, finds, gone, reaps⟩
  · obtain ⟨_, run⟩ := refused one
    obtain ⟨_, run'⟩ := refused other
    rw [run'] at same states
    rw [show r = _ from run]
    exact ⟨states, Or.inl ⟨why, rfl, same, rfl⟩⟩
  · obtain ⟨memory, _, run⟩ := reaps one
    obtain ⟨memory', _, run'⟩ := reaps other
    rw [run'] at same states
    rw [show r = _ from run]
    refine ⟨Alike.trans ?_ states, Or.inr ⟨⟨found, finds⟩, gone, rfl, same⟩⟩
    exact ⟨rfl, ⟨rfl, rfl, rfl⟩, rfl⟩

theorem Wait.answer_ne_asleep (status : UserPtr) : w.answer status ≠ .error .asleep := by
  unfold Wait.answer
  split <;> simp

end turn

structure AlikeAndSound (k k' : Kernel) : Prop where
  alike : k.Alike k'
  sound : k.registry.Sound

theorem Wait.lockstep (w : Wait) (one other : Places) :
    Lockstep service AlikeAndSound (w.Twin one other) where
  signal related := congrArg Registry.childExit related.alike.registry
  parks := by
    rintro k k' i j q q' ⟨alike, sound⟩ (same | ⟨first, second⟩)
    · cases same
      show ((serve q).run k').result = _ ↔ ((serve q).run k).result = _
      rw [(respects_serve q alike).result]
    · cases first
      cases second
      show ((serve (w.call other).2).run k').result = _ ↔ ((serve (w.call one).2).run k).result = _
      obtain ⟨-, ⟨why, refused, refused', -⟩ | ⟨-, -, answered, answered'⟩⟩ :=
        w.serve_twin sound alike one other
      · rw [refused, refused']
      · simp only [answered, answered', w.answer_ne_asleep]
  state := by
    rintro k k' i j q q' ⟨alike, sound⟩ same
    refine ⟨?_, (Turn.outcome ⟨i, q, k⟩ sound).sound sound⟩
    rcases same with same | ⟨first, second⟩
    · cases same
      exact (respects_serve q alike).state
    · cases first
      cases second
      exact (w.serve_twin sound alike one other).1

section memory

theorem Started.memory {p : Registry.Request} {task : Task} {result : Except Stop Pid}
    (started : Started k p task result k') : k'.host.memory = k.host.memory := by
  cases started <;> rfl

/-- A call leaves the memory of users alone, unless it is a wait that stores a status. -/
theorem Performed.memory {caller : Pid} {c : Syscall} {result : Except Stop Int64}
    (performed : Performed k caller c result k') :
    k'.host.memory = k.host.memory ∨
      ∃ child place options found, c.Waits child place options ∧
        result = .ok (ofPid child.toUInt32) ∧
        k'.host = k.host.stored place (ExitStatus.raw found) := by
  cases performed with
  | told | refused => exact Or.inl rfl
  | forked _ forked =>
    cases forked with
    | unregistered | full | short | exhausted => exact Or.inl rfl
    | begun started => exact Or.inl started.memory
  | ended _ ended => cases ended <;> exact Or.inl rfl
  | waited waits waited =>
    cases waited with
    | unsupported | unnamed | unregistered | stranger | slept | lost => exact Or.inl rfl
    | @fetched found => exact Or.inr ⟨_, _, _, found, waits, rfl, rfl⟩

/-- The word at an address lasts, unless a status was wanted there. -/
theorem Performed.word?_eq {caller : Pid} {c : Syscall} {result : Except Stop Int64}
    (performed : Performed k caller c result k') {address : UInt64}
    (spared : ∀ child options, c.Waits child ⟨address⟩ options →
      result ≠ .ok (ofPid child.toUInt32)) :
    k'.host.word? address = k.host.word? address := by
  rcases performed.memory with same | ⟨child, place, options, found, waits, answered, stored⟩
  · exact Host.word?_of_memory same address
  · rw [stored, Host.word?_stored, if_neg]
    rintro ⟨-, rfl⟩
    exact spared child options waits answered

/-- The word at an address lasts through a turn in which nothing is stored there. -/
theorem Outcome.word?_eq (outcome : Outcome k q result k') {address : UInt64}
    (spared : ¬ q.Stores result address) : k'.host.word? address = k.host.word? address := by
  cases outcome with
  | registry | unprovided | armed => rfl
  | launched launched =>
    cases launched with
    | refused => rfl
    | begun started => exact Host.word?_of_memory started.memory address
  | called performed =>
    refine performed.word?_eq fun child options waits answered => spared ?_
    exact ⟨_, _, child, options, rfl, waits, by rw [answered]; rfl⟩
  | @trapped caller _ _ c _ _ decoded performed =>
    refine performed.word?_eq fun child options waits answered => spared ?_
    exact ⟨caller, c, child, options, by simp [Request.call?, decoded], waits,
      by rw [answered]; rfl⟩

/-- Steps in which nothing is stored at an address. -/
theorem word?_of_history {steps : List Step} {address : UInt64}
    (history : History service first steps last) (sound : first.state.registry.Sound)
    (spared : ∀ s ∈ steps, ¬ s.turn.request.Stores (Turn.result s.turn) address) :
    ∀ s ∈ steps, s.next.state.host.word? address = first.state.host.word? address := by
  induction history with
  | stay => exact List.forall_mem_nil _
  | step s _ ih =>
    rw [List.forall_mem_cons] at spared ⊢
    have outcome := Step.outcome s sound
    have here := outcome.word?_eq spared.1
    exact ⟨here, fun t member => (ih (outcome.sound sound) spared.2 t member).trans here⟩

/-- What the turn of a wait does to the host. -/
theorem Wait.host_cases (w : Wait) (sound : k.registry.Sound)
    (outcome : Outcome k (w.call places).2 result k') :
    k'.host = k.host ∧ (∀ answer, result ≠ .ok answer) ∨
      ∃ found, w.Finds k.registry found ∧ result = .ok (.value (ofPid w.pid)) ∧
        k'.host = k.host.stored places.status found.raw := by
  cases outcome with
  | called performed =>
    obtain ⟨found, rfl, waited⟩ := performed.waited_of (Or.inr ⟨_, rfl⟩)
    cases waited with
    | unsupported | unnamed | unregistered | stranger | slept | lost =>
      exact Or.inl ⟨rfl, nofun⟩
    | @fetched status _ _ _ outcome =>
      exact Or.inr ⟨status, (w.finds_of_reaped sound outcome).1, rfl, rfl⟩

theorem Wait.delivers (w : Wait) {s : Step} {later : List Step}
    (sound : s.first.state.registry.Sound) (history : History service s.next later last)
    (call : s.turn.call = w.call places) : w.Delivers places s later := by
  have outcome := Step.outcome s sound
  have sound' := outcome.sound sound
  have request : s.turn.request = (w.call places).2 := congrArg Prod.snd call
  rw [request] at outcome
  rcases w.host_cases sound outcome with ⟨same, failed⟩ | ⟨found, finds, answer, stored⟩
  · exact ⟨fun address changed => absurd (congrArg (·.word? address) same) changed,
      fun answered => absurd answered (failed _)⟩
  constructor
  · intro address changed
    rw [stored, Host.word?_stored] at changed
    split at changed
    · rename_i there
      obtain ⟨named, rfl⟩ := there
      exact ⟨rfl, named, answer⟩
    · exact absurd rfl changed
  · rintro - named
    refine ⟨found, finds, ?_⟩
    rintro quiet rest rfl spared
    have here : s.next.state.host.word? places.status.address = some found.raw := by
      rw [stored, Host.word?_stored, if_pos ⟨named, rfl⟩]
    obtain ⟨_, front, -⟩ := history.split
    rw [List.forall_mem_cons]
    exact ⟨here, fun t member => (word?_of_history front sound' spared t member).trans here⟩

end memory

variable {config : Config} {k₀ : Kernel} {here : Session Kernel Request} {past : List Step}

theorem sound_of_history {steps : List Step} (history : History service first steps last)
    (sound : first.state.registry.Sound) :
    (∀ s ∈ steps, s.first.state.registry.Sound) ∧ last.state.registry.Sound :=
  history.invariant (·.state.registry.Sound) sound fun s _ sound =>
    (Step.outcome s sound).sound sound

theorem Step.served (s : Step) (request : s.turn.request = q) :
    Turn.result s.turn = ((serve q).run s.first.state).result ∧
      s.next.state = ((serve q).run s.first.state).state := by
  subst request
  rw [s.state_next, ← s.before_turn]
  exact ⟨rfl, rfl⟩

/-- Steps that are paired are answered alike, up to what each of the two places allows. -/
theorem Wait.follows (w : Wait) {s s' : Step}
    (paired : Step.Paired AlikeAndSound (w.Twin one other) s s') : w.Follows one other s s' := by
  obtain ⟨alike, sound⟩ := paired.first.state
  have twin (call : s.turn.call = w.call one) (call' : s'.turn.call = w.call other) :
      (∃ why, Turn.result s.turn = .error why ∧ Turn.result s'.turn = .error why ∧
          s.next.state = s.first.state) ∨
        w.Reaps s ∧ Turn.result s.turn = w.answer one.status ∧
          Turn.result s'.turn = w.answer other.status := by
    obtain ⟨result, next⟩ := Step.served s (congrArg Prod.snd call)
    obtain ⟨result', -⟩ := Step.served s' (congrArg Prod.snd call')
    rw [Reaps, result, result', next]
    rcases (w.serve_twin sound alike one other).2 with refused | ⟨finds, gone, answers⟩
    · exact Or.inl refused
    · exact Or.inr ⟨⟨finds, gone⟩, answers⟩
  refine { paired with
    first := paired.first.mono AlikeAndSound.alike
    next := paired.next.mono AlikeAndSound.alike
    same := fun call => ?_, reaped := fun call call' reaps => ?_
    unreaped := fun call call' spared => ?_ }
  · obtain ⟨result, -⟩ := Step.served s rfl
    obtain ⟨result', -⟩ := Step.served s' (congrArg Prod.snd call)
    rw [result, result', (respects_serve _ alike).result]
  · rcases twin call call' with ⟨-, -, -, same⟩ | ⟨-, answers⟩
    · obtain ⟨⟨found, finds⟩, gone⟩ := reaps
      rw [same] at gone
      cases finds.symm.trans gone
    · exact answers
  · rcases twin call call' with ⟨why, refused, refused', -⟩ | ⟨reaps, -⟩
    · exact ⟨why, refused, refused'⟩
    · exact absurd reaps spared

/-- The places that a wait names do not matter to the registry, nor to anybody else. Whatever calls
sleep when it comes in, and whatever moves are made then, a run with one pair of places and a run
with another go in lockstep: the same moves can be made, the same calls sleep and are answered
alike, and the kernels are the same but for the memory of users. The wait itself sleeps and fails
alike, too. Only once it has reaped its child it is answered as its own place for the status allows.
There it stores the status, and nowhere else, if it is answered with the child and has named a
place; and there the status stays until another wait stores one at the same address. -/
theorem wait_blind_to_places (new : Kernel.new config = .ok k₀)
    (history : History service { state := k₀ } past here) (w : Wait) (one other : Places)
    (moves : List (Move Request)) :
    let run (places : Places) := here.record service (.call w.id (w.call places).2 :: moves)
    List.Forall₂ (w.Follows one other) (run one).1 (run other).1 ∧
      Session.Paired Alike (w.Twin one other) (run one).2 (run other).2 ∧
      ∀ places before s later, (run places).1 = before ++ s :: later →
        s.turn.call = w.call places → w.Delivers places s later := by
  intro run
  have sound := (sound_of_history history (Registry.sound_new (new_eq_ok new).1)).2
  have start : Session.Paired AlikeAndSound (w.Twin one other) here here := {
    state := ⟨.refl _, sound⟩
    sleepers := List.forall₂_same.mpr fun _ _ => ⟨Or.inl rfl, rfl, rfl⟩ }
  have moved : List.Forall₂ (Move.Paired (w.Twin one other))
      (.call w.id (w.call one).2 :: moves) (.call w.id (w.call other).2 :: moves) :=
    .cons (.call (Or.inr ⟨rfl, rfl⟩)) (Move.forall₂_paired fun _ _ _ _ _ => Or.inl rfl)
  obtain ⟨steps, ended⟩ := (w.lockstep one other).record start moved
  refine ⟨steps.imp fun _ _ => w.follows, ended.mono AlikeAndSound.alike, ?_⟩
  intro places before s later split call
  have recorded := History.of_record service (.call w.id (w.call places).2 :: moves) here
  rw [show (here.record service _).1 = _ from split] at recorded
  obtain ⟨front, back⟩ := recorded.cut
  exact w.delivers (sound_of_history front sound).2 back call

/-- The wait sleeps behind another one for the same child, and wakes first. The address 8 belongs to
nobody, so there the status is lost. -/
theorem wait_blind_to_places_behind_another :
    ∃ (k₀ : Kernel) (past : List Step) (here : Session Kernel Request),
      Kernel.new {} = .ok k₀ ∧ History service { state := k₀ } past here ∧
      let w : Wait := ⟨3, 1, 2, 0⟩
      let run (places : Places) := here.record service (.call w.id (w.call places).2 ::
        [.call 4 (.call 2 (.exit 7)), .wake 1, .wake 0])
      (run ⟨⟨8⟩, 0⟩).1.map (Turn.result ·.turn) = [.error .asleep, .error (.exited 7),
          .error (.failed .efault), .error (.failed .esrch)] ∧
        (run ⟨⟨0x4000⟩, 64⟩).1.map (Turn.result ·.turn) = [.error .asleep, .error (.exited 7),
          .ok (.value 2), .error (.failed .esrch)] ∧
        (run ⟨⟨0x4000⟩, 64⟩).2.state.host.word? 0x4000 = some 0x700 ∧
        List.Forall₂ (w.Follows ⟨⟨8⟩, 0⟩ ⟨⟨0x4000⟩, 64⟩) (run ⟨⟨8⟩, 0⟩).1
          (run ⟨⟨0x4000⟩, 64⟩).1 ∧
        Session.Paired Alike (w.Twin ⟨⟨8⟩, 0⟩ ⟨⟨0x4000⟩, 64⟩) (run ⟨⟨8⟩, 0⟩).2
          (run ⟨⟨0x4000⟩, 64⟩).2 := by
  have recorded : service.record (Kernel.new {}) [.call 0 (.launch .zero ⟨1⟩),
    .call 1 (.call 1 .fork), .call 2 (.call 1 (.wait4 2 ⟨0x2000⟩ 0 0))] = .ok ([_, _, _], _) := rfl
  obtain ⟨k₀, new, history⟩ := service.history_of_record recorded
  obtain ⟨steps, ended, -⟩ := wait_blind_to_places new history ⟨3, 1, 2, 0⟩ ⟨⟨8⟩, 0⟩ ⟨⟨0x4000⟩, 64⟩
    [.call 4 (.call 2 (.exit 7)), .wake 1, .wake 0]
  exact ⟨k₀, _, _, new, history, by decide +kernel, by decide +kernel, by decide +kernel, steps,
    ended⟩

end Kernel
end ProcessLife
