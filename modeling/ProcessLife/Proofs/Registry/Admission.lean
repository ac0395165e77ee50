import ProcessLife.Proofs.Registry.Run

/-!
# Who is admitted

A fork looks at three things in a fixed order: whether the parent lives, whether there is room for
one record more, and whether an identifier is free. The first that fails names the error, and then
nothing has changed, also where the whole ring was searched. Otherwise one record is entered, and
that is all: `fork_decides`.
-/

namespace ProcessLife

structure Table.Enters (t : Table) (p : Record) (u : Table) : Prop where
  free : t.get? p.pid = none
  look : ∀ q, u.get? q = if q = p.pid then some p else t.get? q
  children : ∀ a c, c ∈ u.children a ↔
    p.parent ≠ noParent ∧ a = p.parent ∧ c = p.pid ∨ c ∈ t.children a
  size : u.size = t.size + 1

theorem Table.enters_of_insert {t u : Table} {p : Record} (done : t.insert p = .ok u) :
    t.Enters p u := by
  have free := free_of_insert done
  refine ⟨free, get?_insert done, fun a c => ?_, ?_⟩
  · rw [children, children, ChildIndex.mem_children, ChildIndex.mem_children]
    exact mem_family_insert done
  · rw [insert_of_none free] at done
    cases done
    have missing : p.pid ∉ t.records := by
      rw [Std.ExtTreeMap.mem_iff_isSome_getElem?]
      simpa [get?] using free
    simp [size, Std.ExtTreeMap.size_insert, missing]

/-- The first condition that holds comes with the error `e`. -/
def FirstMet : List (Prop × Errno) → Errno → Prop
  | [], _ => False
  | (holds, error) :: others, e => holds ∧ e = error ∨ ¬ holds ∧ FirstMet others e

section firstMet

variable {list others : List (Prop × Errno)} {e e' : Errno}

theorem FirstMet.exists_met (met : FirstMet list e) : ∃ o ∈ list, o.1 := by
  induction list with
  | nil => exact met.elim
  | cons o list ih =>
    rcases met with ⟨holds, -⟩ | ⟨-, met⟩
    · exact ⟨o, List.mem_cons_self, holds⟩
    · obtain ⟨o', member, holds⟩ := ih met
      exact ⟨o', List.mem_cons_of_mem _ member, holds⟩

theorem FirstMet.unique (met : FirstMet list e) (met' : FirstMet list e') : e = e' := by
  induction list with
  | nil => exact met.elim
  | cons o list ih =>
    rcases met with ⟨holds, rfl⟩ | ⟨fails, met⟩
    · rcases met' with ⟨-, rfl⟩ | ⟨fails, -⟩
      · rfl
      · exact absurd holds fails
    · rcases met' with ⟨holds, -⟩ | ⟨-, met'⟩
      · exact absurd holds fails
      · exact ih met met'

theorem FirstMet.append (met : FirstMet list e) : FirstMet (list ++ others) e := by
  induction list with
  | nil => exact met.elim
  | cons o list ih => exact met.imp_right (And.imp_right ih)

theorem FirstMet.behind (none : ∀ o ∈ list, ¬ o.1) (met : FirstMet others e) :
    FirstMet (list ++ others) e := by
  induction list with
  | nil => exact met
  | cons o list ih =>
    rw [List.forall_mem_cons] at none
    exact Or.inr ⟨none.1, ih none.2⟩

end firstMet

namespace Registry

/-- The conditions under which a registry refuses a fork, in the order in which they are looked at,
and the errors. -/
def refusals (config : Config) (t : Table) (parent : Pid) : List (Prop × Errno) :=
  [(t.isAlive parent = false, .esrch),
    (config.capacity ≤ t.size, .eagain),
    (t.Occupied config.firstPid config.lastPid, .enospc)]

variable {config : Config} {r r' : Registry} {parent child : Pid} {why : Stop}

theorem Admission.refused (admission : Admission r parent (.error why) r')
    (follows : r.Follows config) :
    r' = r ∧ ∃ e, why = .failed e ∧ FirstMet (refusals config r.table parent) e := by
  obtain ⟨first, last, capacity, -⟩ := follows
  rw [refusals, ← capacity, ← first, ← last]
  cases admission with
  | unregistered dead => exact ⟨rfl, _, rfl, Or.inl ⟨dead, rfl⟩⟩
  | full alive full => exact ⟨rfl, _, rfl, Or.inr ⟨by simp [alive], Or.inl ⟨full, rfl⟩⟩⟩
  | crowded alive room taken =>
    exact ⟨rfl, _, rfl, Or.inr ⟨by simp [alive],
      Or.inr ⟨Nat.not_le.mpr room, Or.inl ⟨taken, rfl⟩⟩⟩⟩

theorem Admission.not_refused (admission : Admission r parent (.ok child) r')
    (follows : r.Follows config) : ∀ o ∈ refusals config r.table parent, ¬ o.1 := by
  obtain ⟨first, last, capacity, -⟩ := follows
  rw [refusals, ← capacity, ← first, ← last]
  cases admission with
  | admitted alive room inside done =>
    have free := Table.not_occupied (Table.free_of_insert done) inside.1 inside.2
    simp [alive, room, free]

/-- A fork is refused just if the parent does not live, or else the registry is full, or else all
identifiers are held; then nothing at all has changed. Otherwise the child gets an identifier of the
range that nobody held, and but for its record, its place in the index and the ring nothing has
changed. -/
theorem fork_decides (reachable : Reachable config r) (parent : Pid) :
    let reply := (fork parent).run r
    (reply.result = .error (.failed .esrch) ↔ r.table.isAlive parent = false) ∧
    (reply.result = .error (.failed .eagain) ↔
      r.table.isAlive parent = true ∧ config.capacity ≤ r.table.size) ∧
    (reply.result = .error (.failed .enospc) ↔
      r.table.isAlive parent = true ∧ r.table.size < config.capacity ∧
        r.table.Occupied config.firstPid config.lastPid) ∧
    ((∃ c, reply.result = .ok c) ↔
      r.table.isAlive parent = true ∧ r.table.size < config.capacity ∧
        ¬ r.table.Occupied config.firstPid config.lastPid) ∧
    (∀ why, reply.result = .error why → reply.state = r) ∧
    ∀ c, reply.result = .ok c →
      config.firstPid ≤ c ∧ c ≤ config.lastPid ∧ c ≠ noParent ∧
      ∃ t next, reply.state = { r with table := t, pids := { r.pids with next } } ∧
        r.table.Enters { pid := c, parent } t ∧ t.size ≤ config.capacity := by
  obtain ⟨first, last, capacity, -⟩ := reachable.follows
  obtain ⟨result, r', events, run, admission⟩ := reachable.sound.admission parent
  rw [← first, ← last, ← capacity, run]
  cases admission with
  | unregistered dead => simp [dead]
  | full alive full => simp [alive, full, Nat.not_lt.mpr full]
  | crowded alive room taken => simp [alive, room, taken, Nat.not_le.mpr room]
  | @admitted child next t alive room inside done =>
    have enters := Table.enters_of_insert done
    have free := Table.not_occupied enters.free inside.1 inside.2
    refine ⟨by simp [alive], by simp [Nat.not_le.mpr room], by simp [free],
      by simp [alive, room, free], by simp, ?_⟩
    rintro c ⟨⟩
    refine ⟨inside.1, inside.2, PidRange.ne_noParent_of_mem inside, t, next, rfl, enters, ?_⟩
    rw [enters.size]
    exact room

/-- A live child, a zombie and a root hold the three identifiers. The search begins at the second of
them, goes round and ends there. -/
theorem fork_decides_in_vain :
    ∃ r, Reachable { firstPid := 2, lastPid := 4 } r ∧ r.table.isAlive 1 = true ∧
      r.table.isZombie 2 = true ∧ r.table.isAlive 3 = true ∧ r.table.isAlive 4 = true ∧
      r.pids.next = 3 ∧ ((fork 1).run r).result = .error (.failed .enospc) ∧
      ((fork 1).run r).state = r := by
  have new : Registry.new { firstPid := 2, lastPid := 4 } = .ok _ := rfl
  have reachable := reachable_run new
    [(0, .addRoot 1), (1, .addRoot 3), (2, .fork 1), (3, .fork 1), (4, .exit 2 7)]
  obtain ⟨-, -, crowded, -, kept, -⟩ := fork_decides reachable 1
  have refused := crowded.mpr ⟨rfl, by decide, ?_⟩
  · exact ⟨_, reachable, rfl, rfl, rfl, rfl, rfl, refused, kept _ refused⟩
  · intro pid lower upper
    have cases : pid = 2 ∨ pid = 3 ∨ pid = 4 := by
      simp only [UInt32.le_iff_toNat_le, ← UInt32.toNat_inj] at *
      simp at *
      omega
    rcases cases with rfl | rfl | rfl <;> rfl

end Registry
end ProcessLife
