import Mathlib.Data.Fintype.Card
import Mathlib.Data.List.Nodup
import Mathlib.Tactic.Common

/-!
# A counter that stops at zero

Calls that add one, or take one away unless the counter is at zero.  `exists_order` says
which numbers the calls can leave when they are made one after another: what is added and
taken away, and anything up to all additions made last.
-/

namespace TcMuzi
namespace Lib

inductive CountOp
  | incr
  | decr
deriving DecidableEq

namespace CountOp

def apply : CountOp → Int → Int
  | incr, n => n + 1
  | decr, n => max 0 (n - 1)

variable {ι : Type} (op : ι → CountOp)

/-- The calls of the list, one after another. -/
def outcome (order : List ι) (n : Int) : Int := order.foldl (fun n i => (op i).apply n) n

@[simp] theorem outcome_cons (i : ι) (order : List ι) (n : Int) :
    outcome op (i :: order) n = outcome op order ((op i).apply n) := rfl

theorem outcome_append (order order' : List ι) (n : Int) :
    outcome op (order ++ order') n = outcome op order' (outcome op order n) :=
  List.foldl_append

/-- No addition is lost. -/
theorem le_outcome (order : List ι) (n : Int) :
    n + order.countP (op · = incr) - order.countP (op · = decr) ≤ outcome op order n := by
  induction order generalizing n with
  | nil => simp [outcome]
  | cons i order ih =>
      have hrest := ih ((op i).apply n)
      rw [outcome_cons, List.countP_cons, List.countP_cons]
      cases hop : op i with
      | incr =>
          rw [hop, apply] at hrest
          simp only [apply, decide_true, if_true, reduceCtorEq, decide_false, Bool.false_eq_true,
            if_false]
          omega
      | decr =>
          rw [hop, apply] at hrest
          simp only [apply, decide_true, if_true, reduceCtorEq, decide_false, Bool.false_eq_true,
            if_false]
          omega

theorem outcome_incrs {order : List ι} (h : ∀ i ∈ order, op i = incr) (n : Int) :
    outcome op order n = n + order.length := by
  induction order generalizing n with
  | nil => simp [outcome]
  | cons i order ih =>
      rw [List.forall_mem_cons] at h
      rw [outcome_cons, ih h.2, h.1, apply, List.length_cons]
      omega

theorem outcome_decrs {order : List ι} (h : ∀ i ∈ order, op i = decr) {n : Int} (hn : 0 ≤ n) :
    outcome op order n = max 0 (n - order.length) := by
  induction order generalizing n with
  | nil => simp [outcome, hn]
  | cons i order ih =>
      rw [List.forall_mem_cons] at h
      rw [outcome_cons, ih h.2 (by rw [h.1, apply]; omega), h.1, apply, List.length_cons]
      omega

variable [Fintype ι]

/-- How many of the calls are of this kind. -/
def total (o : CountOp) : Nat := (Finset.univ.filter fun i => op i = o).card

/-- A number between the two extremes is left by some order of all calls: so many
subtractions first that the others bring the counter there. -/
theorem exists_order {n m : Int} (hn : 0 ≤ n) (hm : 0 ≤ m)
    (hlo : n + total op incr - total op decr ≤ m)
    (hhi : m ≤ max 0 (n - total op decr) + total op incr) :
    ∃ order : List ι, order.Nodup ∧ (∀ i, i ∈ order) ∧ outcome op order n = m := by
  obtain ⟨decrs, hdecrs⟩ : ∃ l : List ι, l = (Finset.univ.filter fun i => op i = decr).toList :=
    ⟨_, rfl⟩
  obtain ⟨incrs, hincrs⟩ : ∃ l : List ι, l = (Finset.univ.filter fun i => op i = incr).toList :=
    ⟨_, rfl⟩
  have hmem : ∀ i, i ∈ decrs ↔ op i = decr := by simp [hdecrs]
  have hmem' : ∀ i, i ∈ incrs ↔ op i = incr := by simp [hincrs]
  have hlen : decrs.length = total op decr := by rw [hdecrs, Finset.length_toList, total]
  have hlen' : incrs.length = total op incr := by rw [hincrs, Finset.length_toList, total]
  obtain ⟨first, hfirst⟩ : ∃ k : Nat, k = min (total op decr)
      (m + total op decr - total op incr).toNat := ⟨_, rfl⟩
  refine ⟨decrs.take first ++ (incrs ++ decrs.drop first), ?_, ?_, ?_⟩
  · have hperm : List.Perm (decrs.take first ++ (incrs ++ decrs.drop first)) (decrs ++ incrs) := by
      refine (List.Perm.append_left _ List.perm_append_comm).trans ?_
      rw [← List.append_assoc, List.take_append_drop]
    rw [hperm.nodup_iff, List.nodup_append]
    refine ⟨hdecrs ▸ Finset.nodup_toList _, hincrs ▸ Finset.nodup_toList _, ?_⟩
    rintro i hi _ hi' rfl
    exact absurd (((hmem i).mp hi).symm.trans ((hmem' i).mp hi')) (by decide)
  · intro i
    cases hop : op i with
    | incr => simp [(hmem' i).mpr hop]
    | decr =>
        have hi := (hmem i).mpr hop
        rw [← List.take_append_drop first decrs, List.mem_append] at hi
        rw [List.mem_append, List.mem_append]
        exact hi.elim Or.inl fun hi => Or.inr (Or.inr hi)
  · have htake : ∀ i ∈ decrs.take first, op i = decr := fun i hi =>
      (hmem i).mp (List.mem_of_mem_take hi)
    have hdrop : ∀ i ∈ decrs.drop first, op i = decr := fun i hi =>
      (hmem i).mp (List.mem_of_mem_drop hi)
    have hincr : ∀ i ∈ incrs, op i = incr := fun i hi => (hmem' i).mp hi
    rw [outcome_append, outcome_append, outcome_decrs op htake hn, outcome_incrs op hincr,
      outcome_decrs op hdrop (by omega), List.length_take, List.length_drop, hlen, hlen']
    omega

end CountOp
end Lib
end TcMuzi
