import ProcessLife.Proofs.Session.History

/-!
# The course of one call

A call has a first turn when it comes in, and one more for each time it is let in again. If its
number is its own, those are the turns under that number. All of them make the request of the call,
and all but the last fall asleep: `History.turns_of_call`.
-/

namespace ProcessLife

variable {σ ρ ε α : Type} {service : Service σ ρ ε α}

namespace Session

def numbered (session : Session σ ρ) (id : Nat) : List (Sleeper ρ) :=
  session.sleepers.filter (·.id = id)

/-- At most one call sleeps under the number, and it is one that makes this request. -/
def Serving (session : Session σ ρ) (id : Nat) (request : ρ) : Prop :=
  session.numbered id = [] ∨ ∃ w, session.numbered id = [w] ∧ w.request = request

end Session

variable {first last : Session σ ρ} {steps past rest : List (Step service)} {s call : Step service}
  {id : Nat} {request : ρ}

namespace Step

theorem filter_asleep (s : Step service) (id : Nat) :
    s.asleep.filter (·.id = id) = if s.turn.id = id then s.asleep else [] := by
  have own : ∀ w ∈ s.asleep, w.id = s.turn.id := fun w slept =>
    congrArg Prod.fst (s.of_mem_asleep slept).2.1
  split
  · rename_i same
    exact List.filter_eq_self.mpr fun w slept => decide_eq_true ((own w slept).trans same)
  · rename_i other
    refine List.filter_eq_nil_iff.mpr fun w slept => ?_
    rw [decide_eq_true_eq, own w slept]
    exact other

theorem numbered_next_of_ne (other : s.turn.id ≠ id) :
    s.next.numbered id = s.first.numbered id := by
  rcases s.cases with ⟨_, _, -, -, -, next⟩ | ⟨front, w, back, -, sleepers, -, turn, -, next⟩
  · simp only [Session.numbered, next, List.filter_append, s.filter_asleep, if_neg other,
      List.append_nil]
  · have stranger : ¬ w.id = id := by
      rw [turn] at other
      exact other
    simp only [Session.numbered, next, sleepers, List.filter_append, s.filter_asleep, if_neg other,
      List.nil_append, List.filter_cons, decide_eq_false stranger]
    rfl

/-- A turn under the number that is not that of a new call is that of a sleeper. -/
theorem sleeper_of_own (own : s.turn.id = id) (foreign : ¬ s.Calls id) :
    ∃ front w back, s.first.sleepers = front ++ w :: back ∧ w.id = id ∧
      s.turn.request = w.request ∧ s.next.sleepers = front ++ (s.asleep ++ back) := by
  rcases s.cases with
    ⟨number, _, call, turn, -, -⟩ | ⟨front, w, back, -, sleepers, -, turn, -, next⟩
  · rw [turn] at own
    subst own
    exact absurd ⟨_, call⟩ foreign
  · rw [turn] at own ⊢
    exact ⟨front, w, back, sleepers, own, rfl, next⟩

/-- The turn of a sleeper under the number makes the request of the sleeper, who then sleeps again
or is gone. -/
theorem numbered_next_of_own (serving : s.first.Serving id request) (own : s.turn.id = id)
    (foreign : ¬ s.Calls id) : s.turn.request = request ∧ s.next.numbered id = s.asleep := by
  obtain ⟨front, w, back, sleepers, same, asks, next⟩ := sleeper_of_own own foreign
  have number : s.first.numbered id =
      front.filter (·.id = id) ++ w :: back.filter (·.id = id) := by
    rw [Session.numbered, sleepers, List.filter_append, List.filter_cons_of_pos (by simpa)]
  rcases serving with none | ⟨v, one, makes⟩
  · simp [none] at number
  · rw [one, eq_comm, List.append_eq_singleton_iff] at number
    rcases number with ⟨before, behind⟩ | ⟨-, none⟩
    · rw [List.cons.injEq] at behind
      obtain ⟨rfl, behind⟩ := behind
      refine ⟨asks.trans makes, ?_⟩
      simp only [Session.numbered, next, List.filter_append, s.filter_asleep, if_pos own, before,
        behind, List.nil_append, List.append_nil]
    · cases none

/-- Nobody comes back under a number under which nobody sleeps, unless by a new call. -/
theorem numbered_next_of_nil (none : s.first.numbered id = []) (foreign : ¬ s.Calls id) :
    s.turn.id ≠ id ∧ s.next.numbered id = [] := by
  have other : s.turn.id ≠ id := by
    intro own
    obtain ⟨front, w, back, sleepers, same, -, -⟩ := sleeper_of_own own foreign
    have absent := List.filter_eq_nil_iff.mp none w (by simp [sleepers])
    simp [same] at absent
  exact ⟨other, (numbered_next_of_ne other).trans none⟩

theorem asleep_eq_nil_or (s : Step service) :
    s.asleep = [] ∨ ∃ w, s.asleep = [w] ∧ w.request = s.turn.request := by
  by_cases slept : (s.turn.reply service).result = .error .asleep
  · obtain ⟨wakeups, found⟩ := s.exists_asleep
    exact Or.inr ⟨_, found.trans (Turn.asleep_of_slept slept), rfl⟩
  · exact Or.inl (asleep_of_ended slept)

theorem serving_next (serving : s.first.Serving id request) (foreign : ¬ s.Calls id) :
    s.next.Serving id request := by
  by_cases own : s.turn.id = id
  · obtain ⟨makes, number⟩ := numbered_next_of_own serving own foreign
    rw [Session.Serving, number, ← makes]
    exact s.asleep_eq_nil_or
  · rw [Session.Serving, numbered_next_of_ne own]
    exact serving

/-- A call that comes in under a free number. -/
theorem numbered_next_of_call (arrives : s.move = .call id request)
    (free : s.first.numbered id = []) :
    s.turn.id = id ∧ s.turn.request = request ∧ s.next.numbered id = s.asleep := by
  obtain ⟨turn, -, next⟩ := of_call arrives
  have own : s.turn.id = id := by rw [turn]
  have makes : s.turn.request = request := by rw [turn]
  refine ⟨own, makes, ?_⟩
  rw [Session.numbered] at free
  rw [Session.numbered, next, List.filter_append, free, s.filter_asleep, if_pos own,
    List.nil_append]

end Step

namespace History

theorem silent (history : History service first steps last) (none : first.numbered id = [])
    (foreign : ∀ s ∈ steps, ¬ s.Calls id) :
    (∀ s ∈ steps, s.turn.id ≠ id) ∧ last.numbered id = [] := by
  induction history with
  | stay => exact ⟨fun _ h => (List.not_mem_nil h).elim, none⟩
  | step s _ ih =>
    rw [List.forall_mem_cons] at foreign
    obtain ⟨other, none⟩ := Step.numbered_next_of_nil none foreign.1
    obtain ⟨others, done⟩ := ih none foreign.2
    exact ⟨List.forall_mem_cons.mpr ⟨other, others⟩, done⟩

/-- While one call is served under a number, every turn under it makes the request, and has fallen
asleep if another one follows. -/
theorem turns_of_serving (history : History service first steps last)
    (serving : first.Serving id request) (foreign : ∀ s ∈ steps, ¬ s.Calls id)
    {front back : List (Step service)} (parts : steps = front ++ s :: back)
    (own : s.turn.id = id) :
    s.turn.request = request ∧
      ((∃ t ∈ back, t.turn.id = id) → (s.turn.reply service).result = .error .asleep) := by
  subst parts
  obtain ⟨before, after⟩ := history.cut
  rw [List.forall_mem_append, List.forall_mem_cons] at foreign
  have serving := (before.invariant (·.Serving id request) serving fun t member serving =>
    Step.serving_next serving (foreign.1 t member)).2
  obtain ⟨makes, number⟩ := Step.numbered_next_of_own serving own foreign.2.1
  refine ⟨makes, fun ⟨t, member, again⟩ => Classical.byContradiction fun ended => ?_⟩
  rw [Step.asleep_of_ended ended] at number
  exact (after.silent number foreign.2.2).1 t member again

/-- All turns of a call whose number is its own make its request, and all but the last fall
asleep. -/
theorem turns_of_call (history : History service first (past ++ call :: rest) last)
    (free : first.numbered id = []) (arrives : call.move = .call id request)
    (foreign : ∀ s ∈ past ++ rest, ¬ s.Calls id) {front back : List (Step service)}
    (parts : call :: rest = front ++ s :: back) (own : s.turn.id = id) :
    s.turn.request = request ∧
      ((∃ t ∈ back, t.turn.id = id) → (s.turn.reply service).result = .error .asleep) := by
  obtain ⟨before, after⟩ := history.cut
  rw [List.forall_mem_append] at foreign
  obtain ⟨-, free⟩ := before.silent free foreign.1
  obtain ⟨-, makes, number⟩ := Step.numbered_next_of_call arrives free
  cases front with
  | nil =>
    cases parts
    refine ⟨makes, fun ⟨t, member, again⟩ => Classical.byContradiction fun ended => ?_⟩
    rw [Step.asleep_of_ended ended] at number
    exact (after.silent number foreign.2).1 t member again
  | cons _ front =>
    cases parts
    have serving : call.next.Serving id request := by
      rw [Session.Serving, number, ← makes]
      exact call.asleep_eq_nil_or
    exact after.turns_of_serving serving foreign.2 rfl own

end History
end ProcessLife
