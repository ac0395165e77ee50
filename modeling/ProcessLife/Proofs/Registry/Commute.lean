import ProcessLife.Proofs.Registry.Apart

/-!
# Exits in either order

Of two processes that exit one after the other it does not matter which goes first, as long as the
reaper stands apart. What is there in between does differ: a child is the zombie of its parent if it
goes first, and left to itself or handed over if its parent does; and who is let go by a child of
the reaper, or by anybody else, comes to the reaper first or to nobody at once if the reaper is the
other one. That all this ends in the same place is shown for one record at a time.
-/

namespace ProcessLife

def Record.fate (heir : Option Pid) (pid : Pid) (status : ExitStatus) (q : Pid) (p : Record) :
    Option Record :=
  let p := if q = pid then { p with status := some status } else p
  if p.parent = pid then p.released heir
  else if q = pid ∧ p.parent = noParent then none
  else some p

theorem Table.exited_eq_bind (t : Table) (heir : Option Pid) (pid : Pid) (status : ExitStatus)
    (q : Pid) : t.exited heir pid status q = (t.get? q).bind (Record.fate heir pid status q) :=
  rfl

namespace Record

variable {heir heir' last : Option Pid} {pid q a b : Pid} {x y : ExitStatus} {p : Record}

theorem fate_other (other : q ≠ pid) :
    p.fate heir pid x q = if p.parent = pid then p.released heir else some p := by
  simp [fate, other]

/-- The process itself becomes a zombie, or is gone if it has no parent. -/
theorem fate_self (stranger : p.parent ≠ pid) :
    p.fate heir pid x pid =
      if p.parent = noParent then none else some { p with status := some x } := by
  simp [fate, stranger]

/-- Who is let go may come to `b`, and is let go again by `b`. It ends where it would have come at
once if `b` had been gone. -/
theorem released_again (named : b ≠ noParent) (other : q ≠ b) (p : Record) :
    (p.released heir).bind (fate (heir.filter (· ≠ b)) b y q) =
      p.released (heir.filter (· ≠ b)) := by
  cases heir with
  | none =>
    simp only [Option.filter_none]
    cases kept : p.released none with
    | none => rfl
    | some s =>
      have stranger : s.parent ≠ b := by
        rw [Registry.parent_released kept]
        exact named.symm
      rw [Option.bind_some, fate_other other, if_neg stranger]
  | some reaper =>
    rw [released, Option.bind_some, fate_other other]
    by_cases same : reaper = b
    · have gone : (some reaper).filter (· ≠ b) = none := by simp [same]
      rw [gone, if_pos same]
      rfl
    · have stays : (some reaper).filter (· ≠ b) = some reaper := by simp [same]
      rw [stays, if_neg same, released]

/-- A process that was let go exits. If its exit had come first, it would have been let go as a
zombie, and nothing else is different in the end. -/
theorem released_zombie (named : a ≠ noParent) (heirs : heir ≠ some noParent)
    (live : p.status = none) :
    (p.released heir).bind (fate (heir.filter (· ≠ a)) a x a) =
      { p with status := some x }.released (heir.filter (· ≠ a)) := by
  cases heir with
  | none => simp [released, isZombie, live, fate_self, named.symm]
  | some reaper =>
    by_cases same : reaper = a
    · have gone : (some reaper).filter (· ≠ a) = none := by simp [same]
      rw [gone]
      simp [released, isZombie, fate, same]
    · have stays : (some reaper).filter (· ≠ a) = some reaper := by simp [same]
      have parent : reaper ≠ noParent := fun h => heirs (congrArg some h)
      rw [stays]
      simp [released, fate_self, same, parent]

section comm

variable (other : a ≠ b) (aNamed : a ≠ noParent) (bNamed : b ≠ noParent)
  (both : heir.filter (· ≠ b) = heir'.filter (· ≠ a))

include other aNamed bNamed both

theorem fate_comm_self (heirs : heir' ≠ some noParent) (stranger : p.parent ≠ a)
    (live : p.status = none) :
    (p.fate heir a x a).bind (fate (heir'.filter (· ≠ a)) b y a) =
      (p.fate heir' b y a).bind (fate (heir.filter (· ≠ b)) a x a) := by
  by_cases child : p.parent = b
  · have owned : p.parent ≠ noParent := child ▸ bNamed
    rw [fate_self stranger, if_neg owned, Option.bind_some, fate_other other, if_pos child,
      fate_other other, if_pos child, both, released_zombie aNamed heirs live]
  · rw [fate_other other, if_neg child, Option.bind_some, fate_self stranger, fate_self stranger]
    split
    · rfl
    · rw [Option.bind_some, fate_other other, if_neg child]

theorem fate_comm_other (aOther : q ≠ a) (bOther : q ≠ b) :
    (p.fate heir a x q).bind (fate (heir'.filter (· ≠ a)) b y q) =
      (p.fate heir' b y q).bind (fate (heir.filter (· ≠ b)) a x q) := by
  rw [fate_other aOther, fate_other bOther]
  by_cases first : p.parent = a
  · have second : p.parent ≠ b := first ▸ other
    rw [if_pos first, if_neg second, ← both, released_again bNamed bOther, Option.bind_some,
      fate_other aOther, if_pos first]
  · rw [if_neg first, Option.bind_some, fate_other bOther]
    split
    · rw [both, released_again aNamed aOther]
    · rw [Option.bind_some, fate_other aOther, if_neg first]

/-- What becomes of a record once both have exited does not depend on who goes first. -/
theorem fate_comm (aHeirs : heir ≠ some noParent) (bHeirs : heir' ≠ some noParent)
    (stranger : p.parent ≠ q) (live : q = a ∨ q = b → p.status = none) :
    (p.fate heir a x q).bind (fate (heir'.filter (· ≠ a)) b y q) =
      (p.fate heir' b y q).bind (fate (heir.filter (· ≠ b)) a x q) := by
  by_cases first : q = a
  · subst first
    exact fate_comm_self other aNamed bNamed both bHeirs stranger (live (Or.inl rfl))
  by_cases second : q = b
  · subst second
    exact (fate_comm_self other.symm bNamed aNamed both.symm aHeirs stranger
      (live (Or.inr rfl))).symm
  · exact fate_comm_other other aNamed bNamed both first second

end comm

end Record

namespace Registry

open Operation

variable {config : Config} {r : Registry} {t : Table} {a b : Pid} {status : ExitStatus}

theorem Sound.heirOf_ne_noParent (sound : r.Sound) : r.heirOf a ≠ some noParent := by
  intro heirs
  exact sound.ne_of_isAlive (heirOf_eq_some_iff.mp heirs).2.2 rfl

/-- Once `a` has exited it is nobody's heir, and nothing else has changed about the heirs. -/
theorem heirOf_exited (look : ∀ q, t.get? q = r.table.exited (r.heirOf a) a status q)
    (childExit : Signal) :
    { r with table := t, childExit }.heirOf b = (r.heirOf b).filter (· ≠ a) := by
  apply Option.ext
  intro z
  rw [heirOf_eq_some_iff, Option.filter_eq_some_iff, heirOf_eq_some_iff, decide_eq_true_eq]
  change r.reaper = some z ∧ z ≠ b ∧ t.isAlive z = true ↔ _
  rw [isAlive_exited_iff look]
  constructor
  · rintro ⟨reaper, other, gone, alive⟩
    exact ⟨⟨reaper, other, alive⟩, gone⟩
  · rintro ⟨⟨reaper, other, alive⟩, gone⟩
    exact ⟨reaper, other, gone, alive⟩

/-- Whoever is the heir of both. -/
theorem heirOf_comm (r : Registry) (a b : Pid) :
    (r.heirOf a).filter (· ≠ b) = (r.heirOf b).filter (· ≠ a) := by
  apply Option.ext
  intro z
  simp only [Option.filter_eq_some_iff, heirOf_eq_some_iff, decide_eq_true_eq]
  constructor
  · rintro ⟨⟨reaper, first, alive⟩, second⟩
    exact ⟨⟨reaper, second, alive⟩, first⟩
  · rintro ⟨⟨reaper, first, alive⟩, second⟩
    exact ⟨⟨reaper, second, alive⟩, first⟩

theorem Apart.run_exit_exit (apart : r.Apart) (first : r.table.isAlive a = true)
    (second : r.table.isAlive b = true) (other : a ≠ b) (x y : Int32) :
    ∃ t events, (do exit a x; exit b y : Operation Registry Event Unit).run r =
        ⟨.ok (), { r with table := t, childExit := r.childExit.notify.notify }, events⟩ ∧
      t.Consistent ∧
      ∀ q, t.get? q = (r.table.get? q).bind fun p => (p.fate (r.heirOf a) a (.ofCode x) q).bind
        (Record.fate ((r.heirOf b).filter (· ≠ a)) b (.ofCode y) q) := by
  obtain ⟨t, events, run, -, look⟩ := apart.run_exit first x
  let between : Registry := { r with table := t, childExit := r.childExit.notify }
  have apart' : between.Apart := by
    obtain ⟨_, _, _, served, outcome⟩ := apart.sound.outcome (.exit a x)
    cases served.symm.trans (run_serve run)
    exact outcome.apart apart
  have alive : between.table.isAlive b = true := isAlive_of_exited other.symm look second
  obtain ⟨u, told, run', consistent, look'⟩ := apart'.run_exit alive y
  refine ⟨u, events ++ told, ?_, consistent, fun q => ?_⟩
  · rw [run_bind, run, Reply.andThen_ok, run', Reply.after_mk]
  · rw [look', Table.exited_eq_bind, heirOf_exited look, look, Table.exited_eq_bind,
      Option.bind_assoc]

/-- If the reaper stands apart, then in whatever state two processes exit one after the other, both
exits end as they should, and it does not matter who goes first. -/
theorem exits_commute (reachable : Reachable config r) (standsApart : config.ReaperApart)
    (first : r.table.isAlive a = true) (second : r.table.isAlive b = true) (other : a ≠ b)
    (x y : Int32) :
    let oneWay := (do exit a x; exit b y : Operation Registry Event Unit).run r
    let otherWay := (do exit b y; exit a x : Operation Registry Event Unit).run r
    oneWay.result = .ok () ∧ otherWay.result = .ok () ∧ oneWay.state = otherWay.state := by
  have apart := reachable.apart standsApart
  obtain ⟨t, _, run, consistent, look⟩ := apart.run_exit_exit first second other x y
  obtain ⟨u, _, run', consistent', look'⟩ := apart.run_exit_exit second first other.symm y x
  have same : t = u := by
    apply consistent.ext consistent'.toInStep
    intro q
    rw [look, look']
    cases found : r.table.get? q with
    | none => rfl
    | some p =>
      have stranger : p.parent ≠ q := (apart.ne_parent (Table.parentOf_of_get? found)).symm
      have live : q = a ∨ q = b → p.status = none := by
        rintro (rfl | rfl)
        · exact Table.status_of_isAlive first found
        · exact Table.status_of_isAlive second found
      exact Record.fate_comm other (apart.sound.ne_of_isAlive first)
        (apart.sound.ne_of_isAlive second) (heirOf_comm r a b) apart.sound.heirOf_ne_noParent
        apart.sound.heirOf_ne_noParent stranger live
  rw [run, run', same]
  exact ⟨rfl, rfl, rfl⟩

/-- The reaper and a child of it exit, which has a live child and a zombie of its own: both are
handed over in one order only. -/
theorem exits_commute_reaper_and_child :
    ∃ r, Reachable { reaper := some 1 } r ∧ r.table.isAlive 1 = true ∧ r.table.isAlive 2 = true ∧
      ((exit 2 7).run r).state.table.parentOf 3 = some 1 ∧
      ((exit 1 0).run r).state.table.parentOf 3 = some 2 ∧
      ((do exit 2 7; exit 1 0 : Operation Registry Event Unit).run r).state =
        ((do exit 1 0; exit 2 7 : Operation Registry Event Unit).run r).state := by
  have new : Registry.new { reaper := some 1 } = .ok _ := rfl
  have standsApart : Config.ReaperApart { reaper := some 1 } := by
    rintro _ ⟨⟩
    decide
  have reachable := reachable_run new
    [(0, .addRoot 1), (1, .fork 1), (2, .fork 2), (3, .fork 2), (4, .exit 4 5)]
  have exits := exits_commute reachable standsApart (a := 2) (b := 1) rfl rfl (by decide) 7 0
  exact ⟨_, reachable, rfl, rfl, rfl, rfl, exits.2.2⟩

end Registry
end ProcessLife
