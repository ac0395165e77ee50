import ProcessLife.Proofs.Session.History
import Mathlib.Data.List.Forall2

/-!
# Sessions in lockstep

Two sessions on one service that begin in states which look alike, and in which the same calls sleep
but for some that stand in for each other. If calls that correspond fall asleep together and leave
states that look alike, then the same moves can be made in both, and whoever sleeps in the one has
its counterpart in the same place in the other: `Lockstep.record`.
-/

namespace ProcessLife

variable {σ ρ ε α : Type} {service : Service σ ρ ε α} {states : σ → σ → Prop}
  {calls : Nat × ρ → Nat × ρ → Prop}

structure Sleeper.Paired (calls : Nat × ρ → Nat × ρ → Prop) (w w' : Sleeper ρ) : Prop where
  call : calls w.call w'.call
  seen : w'.seen = w.seen
  wakeups : w'.wakeups = w.wakeups

structure Session.Paired (states : σ → σ → Prop) (calls : Nat × ρ → Nat × ρ → Prop)
    (s s' : Session σ ρ) : Prop where
  state : states s.state s'.state
  sleepers : List.Forall₂ (Sleeper.Paired calls) s.sleepers s'.sleepers

/-- The less the states are to have in common, the more sessions are paired. -/
theorem Session.Paired.mono {states' : σ → σ → Prop} {s s' : Session σ ρ}
    (weaker : ∀ {k k'}, states k k' → states' k k') (paired : Session.Paired states calls s s') :
    Session.Paired states' calls s s' :=
  { paired with state := weaker paired.state }

/-- Calls that correspond come in, or whoever stands in the same place gets its turn. -/
inductive Move.Paired (calls : Nat × ρ → Nat × ρ → Prop) : Move ρ → Move ρ → Prop
  | call {i j : Nat} {q q' : ρ} (same : calls (i, q) (j, q')) :
      Paired calls (.call i q) (.call j q')
  | wake (place : Nat) : Paired calls (.wake place) (.wake place)

/-- The same moves may be made on both sides, if the calls among them correspond to themselves. -/
theorem Move.forall₂_paired {moves : List (Move ρ)}
    (same : ∀ m ∈ moves, ∀ i q, m = .call i q → calls (i, q) (i, q)) :
    List.Forall₂ (Move.Paired calls) moves moves := by
  refine List.forall₂_same.mpr fun m member => ?_
  cases m with
  | call i q => exact .call (same _ member i q rfl)
  | wake place => exact .wake place

structure Step.Paired (states : σ → σ → Prop) (calls : Nat × ρ → Nat × ρ → Prop)
    (s s' : Step service) : Prop where
  first : Session.Paired states calls s.first s'.first
  move : Move.Paired calls s.move s'.move
  turn : calls s.turn.call s'.turn.call
  next : Session.Paired states calls s.next s'.next

/-- What the service has to do for two sessions on it to go in lockstep. -/
structure Lockstep (service : Service σ ρ ε α) (states : σ → σ → Prop)
    (calls : Nat × ρ → Nat × ρ → Prop) : Prop where
  signal : ∀ {s s'}, states s s' → service.signal s' = service.signal s
  parks : ∀ {s s' i j q q'}, states s s' → calls (i, q) (j, q') →
    (((service.attempt q').run s').result = .error .asleep ↔
      ((service.attempt q).run s).result = .error .asleep)
  state : ∀ {s s' i j q q'}, states s s' → calls (i, q) (j, q') →
    states ((service.attempt q).run s).state ((service.attempt q').run s').state

namespace Lockstep

/-- Turns of calls that correspond put both callers to sleep or neither. -/
theorem asleep (lockstep : Lockstep service states calls) (t t' : Turn σ ρ)
    (before : states t.before t'.before) (same : calls t.call t'.call) (wakeups : Nat) :
    List.Forall₂ (Sleeper.Paired calls) (t.asleep service wakeups)
      (t'.asleep service wakeups) := by
  have parks : (t'.reply service).result = .error .asleep ↔
      (t.reply service).result = .error .asleep := lockstep.parks before same
  have signal : service.signal (t'.reply service).state = service.signal (t.reply service).state :=
    lockstep.signal (lockstep.state before same)
  by_cases slept : (t.reply service).result = .error .asleep
  · rw [Turn.asleep_of_slept slept, Turn.asleep_of_slept (parks.mpr slept)]
    exact .cons ⟨same, signal, rfl⟩ .nil
  · rw [Turn.asleep_of_ended slept, Turn.asleep_of_ended (slept ∘ parks.mp)]
    exact .nil

variable {s s' : Session σ ρ} {m m' : Move ρ}

/-- Moves that correspond can be made in both sessions or in neither. -/
theorem move (lockstep : Lockstep service states calls) (paired : Session.Paired states calls s s')
    (same : Move.Paired calls m m') :
    s.move service m = none ∧ s'.move service m' = none ∨
      ∃ (t t' : Turn σ ρ) (next next' : Session σ ρ), s.move service m = some (t, next) ∧
        s'.move service m' = some (t', next') ∧ calls t.call t'.call ∧
        Session.Paired states calls next next' := by
  cases same with
  | @call i j q q' same =>
    let t : Turn σ ρ := ⟨i, q, s.state⟩
    let t' : Turn σ ρ := ⟨j, q', s'.state⟩
    have slept := lockstep.asleep t t' paired.state same 0
    exact Or.inr ⟨t, t', _, _, rfl, rfl, same, lockstep.state paired.state same,
      List.rel_append paired.sleepers slept⟩
  | wake place =>
    have signal := lockstep.signal paired.state
    simp only [Session.move]
    cases at' : s.sleepers[place]? with
    | none =>
      have missing : s'.sleepers[place]? = none := by
        rw [List.getElem?_eq_none_iff] at at' ⊢
        exact paired.sleepers.length_eq ▸ at'
      rw [missing]
      exact Or.inl ⟨rfl, rfl⟩
    | some w =>
      obtain ⟨inside, rfl⟩ := List.getElem?_eq_some_iff.mp at'
      have inside' : place < s'.sleepers.length := paired.sleepers.length_eq ▸ inside
      have pair := paired.sleepers.get inside inside'
      rw [List.get_eq_getElem, List.get_eq_getElem] at pair
      rw [List.getElem?_eq_getElem inside']
      by_cases seen : s.sleepers[place].seen = service.signal s.state
      · simp only [pair.seen, signal, seen, if_true, true_or, and_self]
      · let t : Turn σ ρ := ⟨s.sleepers[place].id, s.sleepers[place].request, s.state⟩
        let t' : Turn σ ρ := ⟨s'.sleepers[place].id, s'.sleepers[place].request, s'.state⟩
        have slept := lockstep.asleep t t' paired.state pair.call
          (s.sleepers[place].wakeups + 1)
        simp only [pair.seen, pair.wakeups, signal, seen, if_false]
        exact Or.inr ⟨t, t', _, _, rfl, rfl, pair.call, lockstep.state paired.state pair.call,
          List.rel_append (List.forall₂_take _ paired.sleepers)
            (List.rel_append slept (List.forall₂_drop _ paired.sleepers))⟩

theorem record {moves moves' : List (Move ρ)} (lockstep : Lockstep service states calls)
    (paired : Session.Paired states calls s s')
    (same : List.Forall₂ (Move.Paired calls) moves moves') :
    List.Forall₂ (Step.Paired states calls) (s.record service moves).1
        (s'.record service moves').1 ∧
      Session.Paired states calls (s.record service moves).2 (s'.record service moves').2 := by
  induction same generalizing s s' with
  | nil => exact ⟨.nil, paired⟩
  | cons pair _ ih =>
    rcases lockstep.move paired pair with
      ⟨stuck, stuck'⟩ | ⟨t, t', next, next', moved, moved', turn, ahead⟩
    · rw [Session.record_of_stuck stuck, Session.record_of_stuck stuck']
      exact ih paired
    · obtain ⟨steps, last⟩ := ih ahead
      rw [Session.record_of_moved moved, Session.record_of_moved moved']
      exact ⟨.cons ⟨paired, pair, turn, ahead⟩ steps, last⟩

end Lockstep
end ProcessLife
