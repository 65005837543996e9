import Mathlib.Logic.Function.Basic
import Mathlib.Data.Fintype.Defs
import Mathlib.Logic.Relation
import Mathlib.Tactic.Common

/-!
# A store with transactions and locks

Transactions named by an arbitrary type `ι` work on committed data of type `T`.  An open
transaction keeps its writes to itself and its locks to its end.  A statement says which
locks of others it awaits and which it takes; it waits while another transaction has one
of the former.

* `Store` and its operations: `start`, `execute`, `commit`, `rollback`.
* `Compatible`: no two transactions hold conflicting locks, as long as every statement
  awaits the locks that conflict with those it takes.
* `Deadlocked`: a transaction that waits in a circle; one without locks never does.
-/

namespace TcMuzi
namespace Lib

/-- What an open transaction has written, in order, and the locks it keeps. -/
structure Txn (U L : Type) where
  writes : List U
  locks : List L
deriving DecidableEq

/-- The committed data, the open transactions, the locks that a blocked statement awaits,
and the transactions that were committed with a write. -/
structure Store (ι T U L : Type) where
  committed : T
  txns : ι → Option (Txn U L)
  waiting : ι → Option (List L)
  successes : List ι

namespace Store

variable {ι T U L : Type}

/-! ## Locks -/

/-- The transaction keeps the lock. -/
def Holds (s : Store ι T U L) (i : ι) (l : L) : Prop :=
  ∃ txn, s.txns i = some txn ∧ l ∈ txn.locks

/-- Another transaction keeps a lock that the statement awaits. -/
def Blocked (s : Store ι T U L) (i : ι) (awaits : List L) : Prop :=
  ∃ j, j ≠ i ∧ ∃ l ∈ awaits, s.Holds j l

instance [DecidableEq L] (s : Store ι T U L) (i : ι) (l : L) : Decidable (s.Holds i l) :=
  match h : s.txns i with
  | none => .isFalse (by rintro ⟨txn, htxn, _⟩; rw [h] at htxn; cases htxn)
  | some txn =>
      decidable_of_iff (l ∈ txn.locks) ⟨fun hl => ⟨txn, h, hl⟩, by
        rintro ⟨txn', htxn, hl⟩
        rw [h] at htxn
        cases htxn
        exact hl⟩

instance [Fintype ι] [DecidableEq ι] [DecidableEq L] (s : Store ι T U L) (i : ι)
    (awaits : List L) : Decidable (s.Blocked i awaits) := by
  unfold Blocked
  infer_instance

/-- The blocked statement of a transaction waits for another transaction. -/
def WaitsFor (s : Store ι T U L) (i j : ι) : Prop :=
  j ≠ i ∧ ∃ awaits, s.waiting i = some awaits ∧ ∃ l ∈ awaits, s.Holds j l

/-- The transaction waits in a circle. -/
def Deadlocked (s : Store ι T U L) (i : ι) : Prop :=
  Relation.TransGen s.WaitsFor i i

/-- Nobody waits for a transaction without locks. -/
theorem not_deadlocked {s : Store ι T U L} {i : ι} (h : ∀ l, ¬ s.Holds i l) : ¬ s.Deadlocked i := by
  intro hdead
  obtain ⟨j, _, _, _, _, l, _, hheld⟩ := Relation.TransGen.tail'_iff.mp hdead
  exact h l hheld

/-- No two transactions hold conflicting locks. -/
def Compatible (conflict : L → L → Prop) (s : Store ι T U L) : Prop :=
  ∀ i j l l', i ≠ j → conflict l l' → s.Holds i l → ¬ s.Holds j l'

theorem Compatible.mono {conflict : L → L → Prop} {s s' : Store ι T U L}
    (h : s.Compatible conflict) (hle : ∀ i l, s'.Holds i l → s.Holds i l) :
    s'.Compatible conflict :=
  fun i j l l' hij hconflict hi hj => h i j l l' hij hconflict (hle i l hi) (hle j l' hj)

theorem holds_of_txns_eq {s s' : Store ι T U L} {i : ι} {l : L} (h : s'.txns i = s.txns i) :
    s'.Holds i l ↔ s.Holds i l := by
  rw [Holds, Holds, h]

/-! ## The operations -/

/-- The data with further writes. -/
def applyAll (apply : U → T → T) (writes : List U) (data : T) : T :=
  writes.foldl (fun t u => apply u t) data

/-- What the statements of a transaction see: the committed data and its own writes. -/
def view (apply : U → T → T) (s : Store ι T U L) (i : ι) : T :=
  match s.txns i with
  | none => s.committed
  | some txn => applyAll apply txn.writes s.committed

/-- All transactions are rolled back. -/
def abortAll (s : Store ι T U L) : Store ι T U L :=
  { s with
    txns := fun _ => none
    waiting := fun _ => none }

theorem Compatible.abortAll {conflict : L → L → Prop} {s : Store ι T U L}
    (h : s.Compatible conflict) :
    s.abortAll.Compatible conflict := by
  refine h.mono fun k l hk => ?_
  obtain ⟨txn, htxn, _⟩ := hk
  cases htxn

variable [DecidableEq ι]

/-- End the transaction and make its writes durable. -/
def commit (apply : U → T → T) (s : Store ι T U L) (i : ι) : Store ι T U L :=
  match s.txns i with
  | none => s
  | some txn =>
      { committed := applyAll apply txn.writes s.committed
        txns := Function.update s.txns i none
        waiting := Function.update s.waiting i none
        successes := if txn.writes.isEmpty then s.successes else i :: s.successes }

/-- End the transaction and forget its writes. -/
def rollback (s : Store ι T U L) (i : ι) : Store ι T U L :=
  { s with
    txns := Function.update s.txns i none
    waiting := Function.update s.waiting i none }

/-- Begin a transaction; an open one is committed first. -/
def start (apply : U → T → T) (s : Store ι T U L) (i : ι) : Store ι T U L :=
  let s := s.commit apply i
  { s with txns := Function.update s.txns i (some ⟨[], []⟩) }

/-- A statement that is not blocked takes its locks and writes.  Outside a transaction it
is one of its own. -/
def execute (apply : U → T → T) (s : Store ι T U L) (i : ι) (locks : List L) (writes : List U) :
    Store ι T U L :=
  match s.txns i with
  | none =>
      { s with
        committed := applyAll apply writes s.committed
        waiting := Function.update s.waiting i none
        successes := if writes.isEmpty then s.successes else i :: s.successes }
  | some txn =>
      { s with
        txns := Function.update s.txns i (some ⟨txn.writes ++ writes, locks ++ txn.locks⟩)
        waiting := Function.update s.waiting i none }

/-- A statement that has to wait. -/
def wait (s : Store ι T U L) (i : ι) (awaits : List L) : Store ι T U L :=
  { s with waiting := Function.update s.waiting i (some awaits) }

/-- A statement that waits no longer. -/
def wake (s : Store ι T U L) (i : ι) : Store ι T U L :=
  { s with waiting := Function.update s.waiting i none }

variable {apply : U → T → T} {s : Store ι T U L} {i j : ι}

theorem txns_commit_of_ne (h : j ≠ i) : (s.commit apply i).txns j = s.txns j := by
  unfold commit
  split
  · rfl
  · exact Function.update_of_ne h ..

theorem txns_commit_self : (s.commit apply i).txns i = none := by
  unfold commit
  split
  · assumption
  · exact Function.update_self ..

theorem txns_rollback_of_ne (h : j ≠ i) : (s.rollback i).txns j = s.txns j :=
  Function.update_of_ne h ..

@[simp] theorem txns_rollback_self : (s.rollback i).txns i = none := Function.update_self ..

theorem txns_start_of_ne (h : j ≠ i) : (s.start apply i).txns j = s.txns j :=
  (Function.update_of_ne h ..).trans (txns_commit_of_ne h)

@[simp] theorem txns_start_self : (s.start apply i).txns i = some ⟨[], []⟩ :=
  Function.update_self ..

theorem txns_execute_of_ne {locks : List L} {writes : List U} (h : j ≠ i) :
    (s.execute apply i locks writes).txns j = s.txns j := by
  unfold execute
  split
  · rfl
  · exact Function.update_of_ne h ..

/-- Inside a transaction. -/
theorem txns_execute_self {txn : Txn U L} (htxn : s.txns i = some txn) (locks : List L)
    (writes : List U) :
    (s.execute apply i locks writes).txns i = some ⟨txn.writes ++ writes, locks ++ txn.locks⟩ := by
  rw [execute, htxn]
  exact Function.update_self ..

theorem committed_execute {txn : Txn U L} (htxn : s.txns i = some txn) (locks : List L)
    (writes : List U) :
    (s.execute apply i locks writes).committed = s.committed ∧
      (s.execute apply i locks writes).successes = s.successes := by
  rw [execute, htxn]
  exact ⟨rfl, rfl⟩

/-- Beginning after the end of the last transaction commits nothing. -/
theorem committed_start (htxn : s.txns i = none) :
    (s.start apply i).committed = s.committed ∧ (s.start apply i).successes = s.successes := by
  rw [start, commit, htxn]
  exact ⟨rfl, rfl⟩

/-! ## The operations keep the locks compatible -/

/-- Other transactions keep theirs, and this one ends. -/
theorem Compatible.ends {conflict : L → L → Prop} {s' : Store ι T U L}
    (h : s.Compatible conflict) (hself : s'.txns i = none)
    (hother : ∀ j, j ≠ i → s'.txns j = s.txns j) : s'.Compatible conflict := by
  refine h.mono fun k l hk => ?_
  by_cases hki : k = i
  · subst hki
    obtain ⟨txn, htxn, _⟩ := hk
    rw [hself] at htxn
    cases htxn
  · exact (holds_of_txns_eq (hother k hki)).mp hk

theorem Compatible.commit {conflict : L → L → Prop} (h : s.Compatible conflict) :
    (s.commit apply i).Compatible conflict :=
  h.ends txns_commit_self fun _ => txns_commit_of_ne

theorem Compatible.rollback {conflict : L → L → Prop} (h : s.Compatible conflict) :
    (s.rollback i).Compatible conflict :=
  h.ends txns_rollback_self fun _ => txns_rollback_of_ne

theorem Compatible.start {conflict : L → L → Prop} (h : s.Compatible conflict) :
    (s.start apply i).Compatible conflict := by
  refine h.mono fun k l hk => ?_
  by_cases hki : k = i
  · subst hki
    obtain ⟨txn, htxn, hl⟩ := hk
    rw [txns_start_self] at htxn
    cases htxn
    cases hl
  · exact (holds_of_txns_eq (txns_start_of_ne hki)).mp hk

/-- A statement awaits what conflicts with the locks it takes. -/
theorem Compatible.execute {conflict : L → L → Prop} (hsymm : ∀ l l', conflict l l' → conflict l' l)
    (h : s.Compatible conflict) {locks awaits : List L} {writes : List U}
    (hawaits : ∀ l ∈ locks, ∀ l', conflict l l' → l' ∈ awaits) (hfree : ¬ s.Blocked i awaits) :
    (s.execute apply i locks writes).Compatible conflict := by
  have hnew : ∀ k l, (s.execute apply i locks writes).Holds k l →
      s.Holds k l ∨ (k = i ∧ l ∈ locks) := by
    rintro k l ⟨txn, htxn, hl⟩
    by_cases hki : k = i
    · subst hki
      cases hold : s.txns k with
      | none =>
          have hsame : (s.execute apply k locks writes).txns k = none := by
            rw [execute, hold]
            exact hold
          rw [hsame] at htxn
          cases htxn
      | some old =>
          rw [txns_execute_self hold] at htxn
          cases htxn
          rcases List.mem_append.mp hl with hl | hl
          · exact Or.inr ⟨rfl, hl⟩
          · exact Or.inl ⟨old, hold, hl⟩
    · rw [txns_execute_of_ne hki] at htxn
      exact Or.inl ⟨txn, htxn, hl⟩
  intro a b l l' hab hconflict ha hb
  rcases hnew a l ha with hold | ⟨hai, hl⟩
  · rcases hnew b l' hb with hold' | ⟨hbi, hl'⟩
    · exact h a b l l' hab hconflict hold hold'
    · have hne : a ≠ i := fun hai => hab (hai.trans hbi.symm)
      exact hfree ⟨a, hne, l, hawaits l' hl' l (hsymm l l' hconflict), hold⟩
  · rcases hnew b l' hb with hold' | ⟨hbi, _⟩
    · have hne : b ≠ i := fun hbi => hab (hai.trans hbi.symm)
      exact hfree ⟨b, hne, l', hawaits l hl l' hconflict, hold'⟩
    · exact hab (hai.trans hbi.symm)

/-! ## What each transaction relies on -/

section Each

variable {Q : Type} {agrees : ι → T → Option (Txn U L) → Q → Prop} {q : ι → Q}
  {s' : Store ι T U L}

/-- Every thread's protocol state agrees with the committed data and its own transaction. -/
def Each (agrees : ι → T → Option (Txn U L) → Q → Prop) (s : Store ι T U L) (q : ι → Q) : Prop :=
  ∀ i, agrees i s.committed (s.txns i) (q i)

/-- A step of one thread that the others do not notice. -/
theorem Each.update (h : s.Each agrees q) {p : Q} (hself : agrees i s'.committed (s'.txns i) p)
    (hother : ∀ j, j ≠ i → s'.txns j = s.txns j)
    (hkeep : ∀ j, j ≠ i → agrees j s.committed (s.txns j) (q j) →
      agrees j s'.committed (s.txns j) (q j)) :
    s'.Each agrees (Function.update q i p) := by
  intro j
  by_cases hj : j = i
  · subst hj
    rw [Function.update_self]
    exact hself
  · rw [Function.update_of_ne hj, hother j hj]
    exact hkeep j hj (h j)

/-- A step that commits nothing. -/
theorem Each.update_local (h : s.Each agrees q) {p : Q}
    (hcommitted : s'.committed = s.committed) (hself : agrees i s.committed (s'.txns i) p)
    (hother : ∀ j, j ≠ i → s'.txns j = s.txns j) : s'.Each agrees (Function.update q i p) := by
  refine h.update ?_ hother fun j _ hj => ?_
  · rw [hcommitted]
    exact hself
  · rw [hcommitted]
    exact hj

end Each

end Store
end Lib
end TcMuzi
