import ProcessLife.Table.ChildIndex
import ProcessLife.Table.Record

/-! The process table: the records by identifier, and beside them the index of children. Every
operation that changes a parent keeps the two in step; only `replace` leaves that to its caller.
A table is known by what `get?` finds in it and by the families of its index: `ext_get?`. -/

namespace ProcessLife

structure Table where
  records : Std.ExtTreeMap Pid Record
  index : ChildIndex
deriving DecidableEq

namespace Table

def empty : Table :=
  ⟨∅, .empty⟩

def get? (t : Table) (pid : Pid) : Option Record :=
  t.records[pid]?

def contains (t : Table) (pid : Pid) : Bool :=
  t.records.contains pid

def size (t : Table) : Nat :=
  t.records.size

def isEmpty (t : Table) : Bool :=
  t.records.isEmpty

def toList (t : Table) : List (Pid × Record) :=
  t.records.toList

def isAlive (t : Table) (pid : Pid) : Bool :=
  (t.get? pid).any (·.isAlive)

def isZombie (t : Table) (pid : Pid) : Bool :=
  (t.get? pid).any (·.isZombie)

def children (t : Table) (parent : Pid) : List Pid :=
  t.index.children parent

def leastChild? (t : Table) (parent : Pid) : Option Pid :=
  t.index.leastChild? parent

def insert (p : Record) (t : Table) : Except Fault Table :=
  if t.contains p.pid then .error (.alreadyRegistered p.pid)
  else .ok ⟨t.records.insert p.pid p, t.index.link p.parent p.pid⟩

/-- Puts another record in the place of the one under `pid`, whatever parent it names. -/
def replace (pid : Pid) (p : Record) (t : Table) : Table :=
  { t with records := t.records.insert pid p }

def reparent (pid parent : Pid) (t : Table) : Except Fault Table :=
  match t.get? pid with
  | none => .error (.reparentingUnknown pid)
  | some p =>
    .ok ⟨t.records.insert pid { p with parent }, (t.index.unlink p.parent pid).link parent pid⟩

/-- Takes a record out, if there is one. That the process had no children is checked only after
the record is gone. -/
def remove (pid : Pid) (t : Table) : Except Fault (Option Record) × Table :=
  match t.get? pid with
  | none => (.ok none, t)
  | some p =>
    let rest : Table := ⟨t.records.erase pid, t.index.unlink p.parent pid⟩
    if rest.index.hasChildren pid then (.error (.stillHasChildren pid), rest)
    else (.ok (some p), rest)

theorem ext_get? {t u : Table} (records : ∀ pid, t.get? pid = u.get? pid)
    (families : ∀ p c, c ∈ t.index.family p ↔ c ∈ u.index.family p) : t = u := by
  have : t.records = u.records := Std.ExtTreeMap.ext_getElem? (records ·)
  have : t.index = u.index := ChildIndex.ext_family families
  cases t
  cases u
  congr

@[simp]
theorem get?_empty (pid : Pid) : empty.get? pid = none := by
  simp [get?, empty]

theorem contains_eq_isSome (t : Table) (pid : Pid) : t.contains pid = (t.get? pid).isSome :=
  Std.ExtTreeMap.contains_eq_isSome_getElem?

theorem get?_replace (t : Table) (pid q : Pid) (p : Record) :
    (t.replace pid p).get? q = if q = pid then some p else t.get? q := by
  simp [get?, replace, Std.ExtTreeMap.getElem?_insert, eq_comm (a := q)]

@[simp]
theorem index_replace (t : Table) (pid : Pid) (p : Record) : (t.replace pid p).index = t.index :=
  rfl

theorem insert_of_none {t : Table} {p : Record} (h : t.get? p.pid = none) :
    t.insert p = .ok ⟨t.records.insert p.pid p, t.index.link p.parent p.pid⟩ := by
  simp [insert, contains_eq_isSome, h]

theorem insert_of_some {t : Table} {p q : Record} (h : t.get? p.pid = some q) :
    t.insert p = .error (.alreadyRegistered p.pid) := by
  simp [insert, contains_eq_isSome, h]

theorem get?_insert {t u : Table} {p : Record} (h : t.insert p = .ok u) (q : Pid) :
    u.get? q = if q = p.pid then some p else t.get? q := by
  unfold insert at h
  split at h <;> cases h
  simp [get?, Std.ExtTreeMap.getElem?_insert, eq_comm (a := q)]

theorem mem_family_insert {t u : Table} {p : Record} (h : t.insert p = .ok u) {q c : Pid} :
    c ∈ u.index.family q ↔
      (p.parent ≠ noParent ∧ q = p.parent ∧ c = p.pid) ∨ c ∈ t.index.family q := by
  unfold insert at h
  split at h <;> cases h
  exact ChildIndex.mem_family_link

theorem reparent_of_none {t : Table} {pid parent : Pid} (h : t.get? pid = none) :
    t.reparent pid parent = .error (.reparentingUnknown pid) := by
  simp [reparent, h]

theorem reparent_of_some {t : Table} {pid parent : Pid} {p : Record} (h : t.get? pid = some p) :
    t.reparent pid parent =
      .ok ⟨t.records.insert pid { p with parent },
        (t.index.unlink p.parent pid).link parent pid⟩ := by
  simp [reparent, h]

theorem get?_reparent {t u : Table} {pid parent : Pid} (h : t.reparent pid parent = .ok u)
    (q : Pid) :
    u.get? q = if q = pid then (t.get? pid).map ({ · with parent }) else t.get? q := by
  cases hp : t.get? pid with
  | none =>
    rw [reparent_of_none hp] at h
    cases h
  | some p =>
    rw [reparent_of_some hp] at h
    cases h
    simp [get?, Std.ExtTreeMap.getElem?_insert, eq_comm (a := q)]

theorem mem_family_reparent {t u : Table} {pid parent : Pid} (h : t.reparent pid parent = .ok u)
    {p : Record} (hp : t.get? pid = some p) {q c : Pid} :
    c ∈ u.index.family q ↔
      (parent ≠ noParent ∧ q = parent ∧ c = pid) ∨
        c ∈ t.index.family q ∧ ¬(p.parent ≠ noParent ∧ q = p.parent ∧ c = pid) := by
  rw [reparent_of_some hp] at h
  cases h
  simp

theorem remove_of_none {t : Table} {pid : Pid} (h : t.get? pid = none) :
    t.remove pid = (.ok none, t) := by
  simp [remove, h]

theorem remove_of_some {t : Table} {pid : Pid} {p : Record} (h : t.get? pid = some p) :
    t.remove pid =
      (if (t.index.unlink p.parent pid).hasChildren pid then .error (.stillHasChildren pid)
        else .ok (some p),
        ⟨t.records.erase pid, t.index.unlink p.parent pid⟩) := by
  simp only [remove, h]
  split <;> rfl

theorem get?_remove (t : Table) (pid q : Pid) :
    (t.remove pid).2.get? q = if q = pid then none else t.get? q := by
  cases h : t.get? pid with
  | none =>
    rw [remove_of_none h]
    split
    · simp [*]
    · rfl
  | some p =>
    simp [remove_of_some h, get?, Std.ExtTreeMap.getElem?_erase, eq_comm (a := q)]

theorem mem_family_remove {t : Table} {pid : Pid} {p : Record} (h : t.get? pid = some p)
    {q c : Pid} :
    c ∈ (t.remove pid).2.index.family q ↔
      c ∈ t.index.family q ∧ ¬(p.parent ≠ noParent ∧ q = p.parent ∧ c = pid) := by
  simp [remove_of_some h]

end Table
end ProcessLife
