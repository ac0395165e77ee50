import ProcessLife.Operation
import ProcessLife.Session.Signal

/-! Calls that share a state and may have to wait. A call that cannot be answered yet goes to sleep
and leaves the state alone. When an operation has ended, all who were notified in it try again from
the start, those who came first going first; each of them is answered or goes back to sleep.
Without a notification nobody tries: `wake_of_seen`. -/

namespace ProcessLife

/-- How the requests on a shared state are served. An attempt that has to wait changes nothing, and
is made again after a notification. -/
structure Service (σ ρ ε α : Type) where
  /-- What sleeping calls wait for. -/
  signal : σ → Signal
  /-- What a call tells when it comes in, and does not repeat when it wakes. -/
  announce : ρ → List ε
  attempt : ρ → Operation σ ε α

/-- A call that sleeps: the signal as it found it, and how often it was woken in vain. -/
structure Sleeper (ρ : Type) where
  id : Nat
  request : ρ
  seen : Signal
  wakeups : Nat

structure Woken (α : Type) where
  id : Nat
  wakeups : Nat
  result : Except Stop α

structure Session (σ ρ : Type) where
  state : σ
  /-- Those who came first stand first. -/
  sleepers : List (Sleeper ρ) := []

structure Round (σ ρ ε α : Type) where
  state : σ
  woken : List (Woken α)
  sleepers : List (Sleeper ρ)
  events : List ε

/-- The outcome of an operation: its own result, the calls it woke, and what all of them told. -/
structure Report (σ ρ ε α β : Type) where
  result : Except Stop β
  woken : List (Woken α)
  events : List ε
  session : Session σ ρ

variable {σ ρ ε α β : Type}

/-- Lets the notified ones among the sleepers try again, one after the other. -/
def Service.wake (service : Service σ ρ ε α) : List (Sleeper ρ) → σ → Round σ ρ ε α
  | [], s => ⟨s, [], [], []⟩
  | w :: others, s =>
    if w.seen = service.signal s then
      let rest := service.wake others s
      { rest with sleepers := w :: rest.sleepers }
    else
      let reply := (service.attempt w.request).run s
      let rest := service.wake others reply.state
      let events := reply.events ++ rest.events
      match reply.result with
      | .error .asleep =>
        let again := { w with seen := service.signal reply.state, wakeups := w.wakeups + 1 }
        { rest with sleepers := again :: rest.sleepers, events }
      | result =>
        { rest with woken := ⟨w.id, w.wakeups + 1, result⟩ :: rest.woken, events }

namespace Session

/-- Carries out an operation, then lets the notified calls run. -/
def perform (service : Service σ ρ ε α) (x : Operation σ ε β) (session : Session σ ρ) :
    Report σ ρ ε α β :=
  let reply := x.run session.state
  let round := service.wake session.sleepers reply.state
  ⟨reply.result, round.woken, reply.events ++ round.events, ⟨round.state, round.sleepers⟩⟩

/-- Serves a request. If it goes to sleep, it is known by `id` from then on. -/
def submit (service : Service σ ρ ε α) (id : Nat) (request : ρ) (session : Session σ ρ) :
    Report σ ρ ε α α :=
  let report := session.perform service do
    Operation.tell (service.announce request)
    service.attempt request
  match report.result with
  | .error .asleep =>
    let state := report.session.state
    let sleeper := ⟨id, request, service.signal state, 0⟩
    { report with session := ⟨state, report.session.sleepers ++ [sleeper]⟩ }
  | _ => report

/-- Serves requests one after the other, each known by the number beside it. -/
def run (service : Service σ ρ ε α) :
    List (Nat × ρ) → Session σ ρ → List (Report σ ρ ε α α) × Session σ ρ
  | [], session => ([], session)
  | (id, request) :: others, session =>
    let report := session.submit service id request
    let (reports, last) := run service others report.session
    (report :: reports, last)

end Session

theorem Service.wake_of_seen {service : Service σ ρ ε α} {sleepers : List (Sleeper ρ)} {s : σ}
    (h : ∀ w ∈ sleepers, w.seen = service.signal s) :
    service.wake sleepers s = ⟨s, [], sleepers, []⟩ := by
  induction sleepers with
  | nil => rfl
  | cons w others ih =>
    rw [List.forall_mem_cons] at h
    simp [wake, h.1, ih h.2]

theorem Session.run_append (service : Service σ ρ ε α) (first others : List (Nat × ρ))
    (session : Session σ ρ) :
    session.run service (first ++ others) =
      ((session.run service first).1 ++
          ((session.run service first).2.run service others).1,
        ((session.run service first).2.run service others).2) := by
  induction first generalizing session with
  | nil => rfl
  | cons q first ih => simp [run, ih]

end ProcessLife
