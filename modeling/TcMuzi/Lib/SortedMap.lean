import Mathlib.Data.List.Sort
import Mathlib.Data.List.Nodup
import Mathlib.Tactic.Common

/-!
# A map as the sorted list of its entries

`std::map` as the list of its entries in the order of the keys, where keys are compared by
their image under `order`.

* `set` assigns to a key, `setAll` assigns entry after entry to an empty map.
* `find?_setAll`: the last assignment to a key is what is found.
* `setAll_eq_of_perm`: entries of different keys may be assigned in any order.
-/

namespace TcMuzi
namespace Lib
namespace SortedMap

variable {κ ν β : Type} [LinearOrder κ] (order : ν → κ)

/-- Assigns to a key: in its place, or over the value it has. -/
def set (key : ν) (value : β) : List (ν × β) → List (ν × β)
  | [] => [(key, value)]
  | e :: entries =>
      if order key < order e.1 then (key, value) :: e :: entries
      else if order e.1 < order key then e :: set key value entries
      else (key, value) :: entries

/-- The entries are in the order of their keys. -/
def Sorted (entries : List (ν × β)) : Prop :=
  entries.Pairwise fun a b => order a.1 < order b.1

/-- Assigns the entries one after the other. -/
def setAll (entries done : List (ν × β)) : List (ν × β) :=
  entries.foldl (fun done e => set order e.1 e.2 done) done

variable {order}

theorem mem_of_mem_set {key : ν} {value : β} {entries : List (ν × β)} {e : ν × β}
    (h : e ∈ set order key value entries) : e = (key, value) ∨ e ∈ entries := by
  induction entries with
  | nil => exact .inl (List.mem_singleton.mp h)
  | cons head entries ih =>
      rw [set] at h
      split at h
      · exact List.mem_cons.mp h
      · split at h
        · rcases List.mem_cons.mp h with rfl | h
          · exact .inr List.mem_cons_self
          · exact (ih h).imp_right (List.mem_cons_of_mem head)
        · exact (List.mem_cons.mp h).imp_right (List.mem_cons_of_mem head)

theorem sorted_set {key : ν} {value : β} {entries : List (ν × β)} (h : Sorted order entries) :
    Sorted order (set order key value entries) := by
  induction entries with
  | nil => exact List.pairwise_singleton _ _
  | cons head entries ih =>
      obtain ⟨hhead, htail⟩ := List.pairwise_cons.mp h
      rw [set]
      split
      · rename_i hlt
        refine List.pairwise_cons.mpr ⟨fun e he => ?_, h⟩
        rcases List.mem_cons.mp he with rfl | he
        · exact hlt
        · exact hlt.trans (hhead e he)
      · rename_i hge
        split
        · rename_i hlt
          refine List.pairwise_cons.mpr ⟨fun e he => ?_, ih htail⟩
          rcases mem_of_mem_set he with rfl | he
          · exact hlt
          · exact hhead e he
        · rename_i hle
          have hsame : order key = order head.1 := le_antisymm (not_lt.mp hle) (not_lt.mp hge)
          refine List.pairwise_cons.mpr ⟨fun e he => ?_, htail⟩
          rw [hsame]
          exact hhead e he

theorem sorted_setAll (entries : List (ν × β)) {done : List (ν × β)} (h : Sorted order done) :
    Sorted order (setAll order entries done) := by
  induction entries generalizing done with
  | nil => exact h
  | cons e entries ih => exact ih (sorted_set h)

/-- A key behind all others is appended. -/
theorem set_eq_append {key : ν} (value : β) {entries : List (ν × β)}
    (h : ∀ e ∈ entries, order e.1 < order key) :
    set order key value entries = entries ++ [(key, value)] := by
  induction entries with
  | nil => rfl
  | cons head entries ih =>
      have hhead := h head List.mem_cons_self
      rw [set, if_neg hhead.asymm, if_pos hhead, ih fun e he => h e (List.mem_cons_of_mem head he)]
      rfl

/-- Sorted entries make themselves up. -/
theorem setAll_eq_append {entries done : List (ν × β)} (h : Sorted order (done ++ entries)) :
    setAll order entries done = done ++ entries := by
  induction entries generalizing done with
  | nil => exact (List.append_nil done).symm
  | cons e entries ih =>
      have hlast : ∀ d ∈ done, order d.1 < order e.1 := fun d hd =>
        (List.pairwise_append.mp h).2.2 d hd e List.mem_cons_self
      have hshape : done ++ e :: entries = (done ++ [e]) ++ entries := by simp
      rw [hshape] at h ⊢
      rw [← ih h, setAll, List.foldl_cons, set_eq_append e.2 hlast]
      rfl

section Find

variable [DecidableEq ν]

theorem find?_set_self (key : ν) (value : β)
    (entries : List (ν × β)) :
    (set order key value entries).find? (fun e => e.1 = key) = some (key, value) := by
  induction entries with
  | nil => simp [set]
  | cons head entries ih =>
      rw [set]
      split
      · simp
      · split
        · rename_i hlt
          have hne : head.1 ≠ key := fun h => lt_irrefl _ (h ▸ hlt)
          rw [List.find?_cons_of_neg (by simpa using hne)]
          exact ih
        · simp

theorem find?_set_ne (horder : Function.Injective order) {key other : ν} (hne : other ≠ key)
    (value : β) (entries : List (ν × β)) :
    (set order key value entries).find? (fun e => e.1 = other) =
      entries.find? (fun e => e.1 = other) := by
  induction entries with
  | nil => simp [set, hne.symm]
  | cons head entries ih =>
      rw [set]
      split
      · rw [List.find?_cons_of_neg (by simpa using hne.symm)]
      · rename_i hge
        split
        · rw [List.find?_cons, List.find?_cons, ih]
        · rename_i hle
          have hhead : key = head.1 := horder (le_antisymm (not_lt.mp hle) (not_lt.mp hge))
          rw [List.find?_cons_of_neg (by simpa using hne.symm),
            List.find?_cons_of_neg (by simpa [← hhead] using hne.symm)]

/-- The last assignment to a key is the one that is found. -/
theorem find?_setAll (horder : Function.Injective order) (key : ν) (entries done : List (ν × β)) :
    (setAll order entries done).find? (fun e => e.1 = key) =
      (entries.reverse.find? fun e => e.1 = key).or (done.find? fun e => e.1 = key) := by
  induction entries generalizing done with
  | nil => simp [setAll]
  | cons e entries ih =>
      have hstep : setAll order (e :: entries) done =
          setAll order entries (set order e.1 e.2 done) := rfl
      rw [hstep, ih, List.reverse_cons, List.find?_append, Option.or_assoc]
      by_cases hkey : e.1 = key
      · subst hkey
        rw [find?_set_self]
        simp
      · rw [find?_set_ne horder (Ne.symm hkey)]
        simp [hkey]

/-- Of entries with different keys the first and the last one of a key are the same. -/
theorem find?_reverse {entries : List (ν × β)} (hnodup : (entries.map Prod.fst).Nodup) {key : ν} :
    entries.reverse.find? (fun e => e.1 = key) = entries.find? fun e => e.1 = key := by
  induction entries with
  | nil => rfl
  | cons e entries ih =>
      rw [List.map_cons, List.nodup_cons] at hnodup
      rw [List.reverse_cons, List.find?_append, ih hnodup.2, List.find?_cons]
      by_cases hkey : e.1 = key
      · have hnone : entries.find? (fun e => e.1 = key) = none := by
          refine List.find?_eq_none.mpr fun e' he' heq => hnodup.1 ?_
          rw [hkey, ← of_decide_eq_true heq]
          exact List.mem_map_of_mem he'
        simp [hkey, hnone]
      · simp [hkey]

end Find

theorem perm_set (horder : Function.Injective order) {key : ν} (value : β)
    {entries : List (ν × β)} (h : ∀ e ∈ entries, e.1 ≠ key) :
    (set order key value entries).Perm ((key, value) :: entries) := by
  induction entries with
  | nil => exact .refl _
  | cons head entries ih =>
      rw [set]
      split
      · exact .refl _
      · rename_i hge
        split
        · exact ((ih fun e he => h e (List.mem_cons_of_mem head he)).cons head).trans (.swap ..)
        · rename_i hle
          exact absurd (horder (le_antisymm (not_lt.mp hge) (not_lt.mp hle)))
            (h head List.mem_cons_self)

/-- Different keys are all kept. -/
theorem perm_setAll (horder : Function.Injective order) {entries done : List (ν × β)}
    (h : ((entries ++ done).map Prod.fst).Nodup) :
    (setAll order entries done).Perm (entries ++ done) := by
  induction entries generalizing done with
  | nil => exact .refl _
  | cons e entries ih =>
      rw [List.cons_append, List.map_cons, List.nodup_cons] at h
      have hdone : ∀ d ∈ done, d.1 ≠ e.1 := fun d hd heq =>
        h.1 (List.mem_map.mpr ⟨d, List.mem_append_right entries hd, heq⟩)
      have hset := perm_set horder e.2 hdone
      have hmove : (entries ++ set order e.1 e.2 done).Perm (e :: (entries ++ done)) :=
        (hset.append_left entries).trans List.perm_middle
      refine (ih ((hmove.map Prod.fst).nodup_iff.mpr ?_)).trans hmove
      exact List.nodup_cons.mpr h

/-- Entries of different keys may be assigned in any order. -/
theorem setAll_eq_of_perm (horder : Function.Injective order) {entries entries' : List (ν × β)}
    (hperm : entries.Perm entries') (hnodup : (entries.map Prod.fst).Nodup) :
    setAll order entries [] = setAll order entries' [] := by
  have hnodup' : (entries'.map Prod.fst).Nodup := (hperm.map Prod.fst).nodup_iff.mp hnodup
  have hleft := perm_setAll horder (by simpa using hnodup : ((entries ++ []).map Prod.fst).Nodup)
  have hright := perm_setAll horder (by simpa using hnodup' : ((entries' ++ []).map Prod.fst).Nodup)
  rw [List.append_nil] at hleft hright
  exact ((hleft.trans hperm).trans hright.symm).eq_of_pairwise
    (fun a b _ _ hab hba => absurd hba hab.asymm)
    (sorted_setAll entries List.Pairwise.nil) (sorted_setAll entries' List.Pairwise.nil)

end SortedMap
end Lib
end TcMuzi
