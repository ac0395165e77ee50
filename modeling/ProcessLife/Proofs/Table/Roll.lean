import ProcessLife.Proofs.Table.Consistency
import Mathlib.Data.List.Sort

/-!
# The table without its index

A roll is a plain map of records, in which the children of a process are found by going through all
of them. After the same edits a table holds the same records as a roll and has given the same
answers, so the index only saves the search. Nothing is asked of the edits: they may name no
process, or a process as its own parent, or a parent that is not registered, and they may break
rules and be followed by others.
-/

namespace ProcessLife

/-- A change to a table. -/
inductive Edit where
  | insert (p : Record)
  | reparent (pid parent : Pid)
  | remove (pid : Pid)
deriving DecidableEq

namespace Edit

/-- The record that was taken out, if any, or the rule that was broken. -/
abbrev Answer := Except Fault (Option Record)

/-- Makes the changes one after the other, also when one of them was refused. -/
def inTurn {σ : Type} (edit : σ → Edit → Answer × σ) : List Edit → σ → List Answer × σ
  | [], s => ([], s)
  | e :: others, s =>
    let (answer, next) := edit s e
    let (answers, last) := inTurn edit others next
    (answer :: answers, last)

end Edit

/-- What is refused without a trace leaves the table as it was. -/
def Table.settle (t : Table) : Except Fault Table → Edit.Answer × Table
  | .ok u => (.ok none, u)
  | .error fault => (.error fault, t)

def Table.edit (t : Table) : Edit → Edit.Answer × Table
  | .insert p => t.settle (t.insert p)
  | .reparent pid parent => t.settle (t.reparent pid parent)
  | .remove pid => t.remove pid

abbrev Roll := Std.ExtTreeMap Pid Record

namespace Roll

def children (roll : Roll) (parent : Pid) : List Pid :=
  if parent = noParent then [] else (roll.toList.filter (·.2.parent = parent)).map (·.1)

def edit (roll : Roll) : Edit → Edit.Answer × Roll
  | .insert p =>
    if roll.contains p.pid then (.error (.alreadyRegistered p.pid), roll)
    else (.ok none, roll.insert p.pid p)
  | .reparent pid parent =>
    match roll[pid]? with
    | none => (.error (.reparentingUnknown pid), roll)
    | some p => (.ok none, roll.insert pid { p with parent })
  | .remove pid =>
    match roll[pid]? with
    | none => (.ok none, roll)
    | some p =>
      let rest : Roll := roll.erase pid
      (if rest.children pid = [] then .ok (some p) else .error (.stillHasChildren pid), rest)

theorem mem_children {roll : Roll} {parent c : Pid} :
    c ∈ roll.children parent ↔ parent ≠ noParent ∧ ∃ p, roll[c]? = some p ∧ p.parent = parent := by
  unfold children
  split
  · simp [*]
  · simp [*, Std.ExtTreeMap.mem_toList_iff_getElem?_eq_some]

theorem children_ascending (roll : Roll) (parent : Pid) :
    (roll.children parent).Pairwise (· < ·) := by
  unfold children
  split
  · exact .nil
  · have sorted := Std.ExtTreeMap.ordered_keys_toList (t := roll)
    apply List.Pairwise.map _ _ (sorted.filter _)
    exact fun _ _ lt => Std.compare_eq_lt.mp lt

end Roll

namespace Table

variable {t : Table} {pid : Pid} {p : Record}

/-- The index finds what a search finds. -/
theorem InStep.children_eq (h : t.InStep) (parent : Pid) :
    t.children parent = Roll.children t.records parent := by
  apply (t.children_ascending parent).eq_of_mem_iff (Roll.children_ascending t.records parent)
  intro c
  rw [h.mem_children, Roll.mem_children, parentOf, Option.map_eq_some_iff]
  rfl

theorem InStep.edit (h : t.InStep) (e : Edit) : (t.edit e).2.InStep := by
  cases e with
  | insert p =>
    simp only [Table.edit]
    cases done : t.insert p with
    | error _ => exact h
    | ok u => exact h.insert done
  | reparent pid parent =>
    simp only [Table.edit]
    cases done : t.reparent pid parent with
    | error _ => exact h
    | ok u => exact h.reparent done
  | remove pid => exact h.remove

/-- An edit of the table is the same edit of its records. -/
theorem InStep.edit_records (h : t.InStep) (e : Edit) :
    Roll.edit t.records e = ((t.edit e).1, (t.edit e).2.records) := by
  cases e with
  | insert p =>
    have known : t.records.contains p.pid = (t.get? p.pid).isSome := t.contains_eq_isSome p.pid
    cases found : t.get? p.pid with
    | none => simp [Roll.edit, Table.edit, settle, known, found, insert_of_none found]
    | some q => simp [Roll.edit, Table.edit, settle, known, found, insert_of_some found]
  | reparent pid parent =>
    cases found : t.get? pid with
    | none =>
      have missing : t.records[pid]? = none := found
      simp [Roll.edit, Table.edit, settle, missing, reparent_of_none found]
    | some p =>
      have present : t.records[pid]? = some p := found
      simp [Roll.edit, Table.edit, settle, present, reparent_of_some found]
  | remove pid =>
    cases found : t.get? pid with
    | none =>
      have missing : t.records[pid]? = none := found
      simp [Roll.edit, Table.edit, missing, remove_of_none found]
    | some p =>
      have present : t.records[pid]? = some p := found
      -- The rule is checked on the index that is left, which is in step with the records left.
      have left : (t.remove pid).2.InStep := h.remove
      have rest := left.children_eq pid
      simp only [remove_of_some found] at rest
      have check : (t.index.unlink p.parent pid).hasChildren pid = true ↔
          ¬ Roll.children (t.records.erase pid) pid = [] := by
        rw [← rest]
        exact ChildIndex.hasChildren_iff_children
      simp only [Roll.edit, Table.edit, present, remove_of_some found, check, ite_not]

theorem InStep.inTurn (h : t.InStep) (edits : List Edit) :
    (Edit.inTurn Table.edit edits t).2.InStep ∧
      Edit.inTurn Roll.edit edits t.records =
        ((Edit.inTurn Table.edit edits t).1, (Edit.inTurn Table.edit edits t).2.records) := by
  induction edits generalizing t with
  | nil => exact ⟨h, rfl⟩
  | cons e others ih =>
    obtain ⟨after, same⟩ := ih (h.edit e)
    constructor
    · exact after
    · simp only [Edit.inTurn, h.edit_records e, same]

structure Searchable (t : Table) : Prop where
  keyed : ∀ {pid p}, t.get? pid = some p → p.pid = pid
  entries : ∀ {parent family}, t.index.entries[parent]? = some family ↔
    parent ≠ noParent ∧ family ≠ ∅ ∧ ∀ c, c ∈ family ↔ t.parentOf c = some parent
  children : ∀ parent, t.children parent = Roll.children t.records parent
  ascending : ∀ parent, (t.children parent).Pairwise (· < ·)
  least : ∀ {parent c}, t.leastChild? parent = some c ↔
    parent ≠ noParent ∧ t.parentOf c = some parent ∧ ∀ d, t.parentOf d = some parent → c ≤ d

/-- Which edits break a rule, and what they leave behind. Of a removal the record and its place in
the index are gone in any case. -/
structure Ruled (t : Table) : Prop where
  insert : ∀ {p fault}, (t.edit (.insert p)).1 = .error fault ↔
    t.contains p.pid = true ∧ fault = .alreadyRegistered p.pid
  reparent : ∀ {pid parent fault}, (t.edit (.reparent pid parent)).1 = .error fault ↔
    t.contains pid = false ∧ fault = .reparentingUnknown pid
  remove : ∀ {pid fault}, (t.edit (.remove pid)).1 = .error fault ↔
    t.contains pid = true ∧ pid ≠ noParent ∧ (∃ c, c ≠ pid ∧ t.parentOf c = some pid) ∧
      fault = .stillHasChildren pid
  traceless : ∀ {e fault}, (t.edit e).1 = .error fault → (∀ pid, e ≠ .remove pid) →
    (t.edit e).2 = t
  removed : ∀ pid q, (t.edit (.remove pid)).2.get? q = if q = pid then none else t.get? q
  struck : ∀ pid parent c, c ∈ (t.edit (.remove pid)).2.index.family parent ↔
    c ∈ t.index.family parent ∧ c ≠ pid

theorem InStep.searchable (h : t.InStep) : t.Searchable where
  keyed := h.keyed
  entries := by
    intro parent family
    have listed {c} : c ∈ t.index.family parent ↔
        parent ≠ noParent ∧ t.parentOf c = some parent := h.indexed
    rw [ChildIndex.getElem?_entries]
    constructor
    · intro entry
      split at entry
      · cases entry
      · rename_i nonempty
        cases entry
        have named : parent ≠ noParent := by
          rintro rfl
          exact nonempty (Std.ExtTreeSet.eq_empty_iff_forall_not_mem.mpr fun c member =>
            (listed.mp member).1 rfl)
        exact ⟨named, nonempty, fun c => listed.trans (and_iff_right named)⟩
    · rintro ⟨named, nonempty, members⟩
      have same : t.index.family parent = family := by
        apply Std.ExtTreeSet.ext_mem
        intro c
        rw [listed, members, and_iff_right named]
      rw [same, if_neg nonempty]
  children := h.children_eq
  ascending := t.children_ascending
  least := by
    intro parent c
    rw [leastChild?, ChildIndex.leastChild?, Std.ExtTreeSet.min?_eq_some_iff_mem_and_forall,
      h.indexed, and_assoc]
    refine and_congr_right fun named => and_congr_right fun _ => forall_congr' fun d => ?_
    rw [h.indexed, and_iff_right named, Std.isLE_compare]

theorem InStep.ruled (h : t.InStep) : t.Ruled where
  insert := by
    intro p fault
    rw [contains_eq_isSome]
    cases found : t.get? p.pid with
    | none => simp [Table.edit, settle, insert_of_none found]
    | some q => simp [Table.edit, settle, insert_of_some found, eq_comm (a := fault)]
  reparent := by
    intro pid parent fault
    rw [contains_eq_isSome]
    cases found : t.get? pid with
    | none => simp [Table.edit, settle, reparent_of_none found, eq_comm (a := fault)]
    | some p => simp [Table.edit, settle, reparent_of_some found]
  remove := by
    intro pid fault
    rw [contains_eq_isSome]
    cases found : t.get? pid with
    | none => simp [Table.edit, remove_of_none found]
    | some p =>
      have check := h.hasChildren_unlink found
      by_cases left : (t.index.unlink p.parent pid).hasChildren pid = true
      · obtain ⟨named, others⟩ := check.mp left
        simp [Table.edit, remove_of_some found, left, named, others, eq_comm (a := fault)]
      · have none : ¬ (pid ≠ noParent ∧ ∃ c, c ≠ pid ∧ t.parentOf c = some pid) :=
          mt check.mpr left
        constructor
        · intro refused
          simp [Table.edit, remove_of_some found, left] at refused
        · rintro ⟨-, named, others, -⟩
          exact absurd ⟨named, others⟩ none
  traceless := by
    intro e fault refused kept
    have settled {x : Except Fault Table} (h : (t.settle x).1 = .error fault) :
        (t.settle x).2 = t := by
      cases x with
      | ok u => cases h
      | error _ => rfl
    cases e with
    | insert p => exact settled refused
    | reparent pid parent => exact settled refused
    | remove pid => exact absurd rfl (kept pid)
  removed := t.get?_remove
  struck := by
    intro pid parent c
    have left : (t.remove pid).2.InStep := h.remove
    change c ∈ (t.remove pid).2.index.family parent ↔ _
    rw [left.indexed, h.indexed, parentOf, parentOf, get?_remove]
    split
    · simp [*]
    · simp [*]

/-- Whatever edits are made on a new table, it has given the answers of a plain map of records and
holds the same records, the index finds those whom a search of the records finds, and the next edit
is refused only if it breaks the rule of its kind. -/
theorem edits_agree_with_roll (edits : List Edit) :
    let (answers, t) := Edit.inTurn Table.edit edits empty
    Edit.inTurn Roll.edit edits ∅ = (answers, t.records) ∧ t.Searchable ∧ t.Ruled := by
  obtain ⟨inStep, same⟩ := inStep_empty.inTurn edits
  exact ⟨same, inStep.searchable, inStep.ruled⟩

/-- The removal of a parent is refused, but the parent is gone, and its child keeps its place. -/
example :
    let (answers, t) := Edit.inTurn Table.edit
      [.insert ⟨1, 0, none⟩, .insert ⟨2, 1, none⟩, .remove 1] empty
    answers = [.ok none, .ok none, .error (.stillHasChildren 1)] ∧
      t.toList.map (·.1) = [2] ∧ t.index.toList = [(1, [2])] :=
  ⟨rfl, rfl, rfl⟩

end Table
end ProcessLife
