import Mathlib.Data.List.Infix

/-!
# The first occurrence of a text in another

`find` is the search that `strstr` and `std::search` do.  `Clear needle before rest` says
that no occurrence in `before ++ rest` starts before `rest`.
-/

namespace TcMuzi
namespace Lib
namespace Search

variable {α : Type} {needle hay before rest found : List α}

/-! ## Where no occurrence starts -/

/-- No occurrence starts in the first text. -/
def Clear (needle : List α) : List α → List α → Prop
  | [], _ => True
  | b :: before, rest => ¬ needle <+: b :: (before ++ rest) ∧ Clear needle before rest

/-- An occurrence that does not reach over an element the needle does not have. -/
theorem isPrefix_of_barrier {c : α} (hc : c ∉ needle) {x y : List α}
    (h : needle <+: x ++ c :: y) : needle <+: x := by
  induction needle generalizing x with
  | nil => exact List.nil_prefix
  | cons a needle ih =>
      cases x with
      | nil =>
          obtain rfl : a = c := (List.cons_prefix_cons.mp h).1
          exact absurd List.mem_cons_self hc
      | cons b x =>
          obtain ⟨rfl, htail⟩ := List.cons_prefix_cons.mp h
          exact List.cons_prefix_cons.mpr
            ⟨rfl, ih (fun hmem => hc (List.mem_cons_of_mem a hmem)) htail⟩

/-- A text without the needle, then an element that the needle does not have. -/
theorem clear_append_cons {c : α} {x y : List α} (hc : c ∉ needle) (hne : needle ≠ [])
    (hx : ¬ needle <:+: x) (hy : Clear needle y rest) : Clear needle (x ++ c :: y) rest := by
  induction x with
  | nil =>
      refine ⟨fun h => hne ?_, hy⟩
      exact List.prefix_nil.mp (isPrefix_of_barrier (x := []) hc h)
  | cons b x ih =>
      rw [List.infix_cons_iff, not_or] at hx
      refine ⟨fun h => hx.1 ?_, ih hx.2⟩
      have happend : b :: (x ++ c :: y ++ rest) = (b :: x) ++ c :: (y ++ rest) := by
        rw [List.append_assoc]
        rfl
      exact isPrefix_of_barrier (x := b :: x) hc (happend ▸ h)

theorem clear_of_notMem {c : α} (h : c ∉ before) : Clear (c :: needle) before rest := by
  induction before with
  | nil => trivial
  | cons b before ih =>
      rw [List.mem_cons, not_or] at h
      exact ⟨fun hpre => h.1 (List.cons_prefix_cons.mp hpre).1, ih h.2⟩

theorem clear_append {x y : List α} (hx : Clear needle x (y ++ rest))
    (hy : Clear needle y rest) : Clear needle (x ++ y) rest := by
  induction x with
  | nil => exact hy
  | cons b x ih =>
      refine ⟨fun h => hx.1 ?_, ih hx.2⟩
      rwa [← List.append_assoc]

/-! ## The first occurrence -/

variable [DecidableEq α]

/-- The text from the first occurrence on. -/
def find (needle : List α) : List α → Option (List α)
  | [] => if needle = [] then some [] else none
  | b :: hay => if needle.isPrefixOf (b :: hay) then some (b :: hay) else find needle hay

theorem find_of_prefix (h : needle <+: hay) : find needle hay = some hay := by
  cases hay with
  | nil => simp [find, List.prefix_nil.mp h]
  | cons b hay => rw [find, if_pos (by simpa using h)]

theorem find_append (h : Clear needle before rest) :
    find needle (before ++ rest) = find needle rest := by
  induction before with
  | nil => rfl
  | cons b before ih =>
      rw [List.cons_append, find, if_neg (by simpa using h.1)]
      exact ih h.2

/-- What is found starts with the needle, and nothing before it does. -/
theorem find_eq_some_iff :
    find needle hay = some found ↔
      needle <+: found ∧ ∃ before, hay = before ++ found ∧ Clear needle before found := by
  constructor
  · intro h
    induction hay with
    | nil =>
        rw [find] at h
        split at h
        case isTrue hnil =>
          obtain rfl := Option.some.inj h
          exact ⟨by simp [hnil], [], rfl, trivial⟩
        case isFalse => cases h
    | cons b hay ih =>
        rw [find] at h
        split at h
        case isTrue hpre =>
          obtain rfl := Option.some.inj h
          exact ⟨by simpa using hpre, [], rfl, trivial⟩
        case isFalse hpre =>
          obtain ⟨hfound, before, rfl, hclear⟩ := ih h
          exact ⟨hfound, b :: before, rfl, by simpa using hpre, hclear⟩
  · rintro ⟨hfound, before, rfl, hclear⟩
    rw [find_append hclear, find_of_prefix hfound]

theorem find_eq_none_iff : find needle hay = none ↔ ¬ needle <:+: hay := by
  induction hay with
  | nil =>
      rw [find, List.infix_nil]
      split <;> simp [*]
  | cons b hay ih =>
      rw [find, List.infix_cons_iff]
      split
      case isTrue hpre => simp [List.isPrefixOf_iff_prefix.mp hpre]
      case isFalse hpre =>
        rw [ih]
        simp [List.isPrefixOf_iff_prefix] at hpre
        simp [hpre]

theorem isSome_find_iff : (find needle hay).isSome ↔ needle <:+: hay := by
  rw [← not_iff_not, ← find_eq_none_iff, Option.not_isSome_iff_eq_none]

/-! ## The pieces between the occurrences -/

/-- The texts up to the next occurrence, each looked for behind the occurrence before it. -/
def pieces (needle : List α) : Nat → List α → List (List α)
  | 0, _ => []
  | fuel + 1, hay =>
      match find needle hay with
      | none => []
      | some found =>
          hay.take (hay.length - found.length) :: pieces needle fuel (found.drop needle.length)

theorem length_lt_of_find (hne : needle ≠ []) (h : find needle hay = some found) :
    (found.drop needle.length).length < hay.length := by
  obtain ⟨⟨tail, rfl⟩, before, rfl, _⟩ := find_eq_some_iff.mp h
  have := List.length_pos_iff.mpr hne
  simp only [List.length_drop, List.length_append]
  omega

/-- Every occurrence of a needle that is not empty takes something of the text. -/
theorem pieces_congr (hne : needle ≠ []) {m n : Nat} (hm : hay.length < m)
    (hn : hay.length < n) : pieces needle m hay = pieces needle n hay := by
  induction m generalizing n hay with
  | zero => omega
  | succ m ih =>
      obtain ⟨n, rfl⟩ : ∃ k, n = k + 1 := ⟨n - 1, by omega⟩
      rw [pieces, pieces]
      cases hfind : find needle hay with
      | none => rfl
      | some found =>
          have hlt := length_lt_of_find hne hfind
          have hrest : pieces needle m (found.drop needle.length) =
              pieces needle n (found.drop needle.length) := ih (by omega) (by omega)
          simp only [hrest]

/-- A piece, then the needle. -/
theorem pieces_append {piece : List α} {fuel : Nat} (hclear : Clear needle piece (needle ++ rest)) :
    pieces needle (fuel + 1) (piece ++ (needle ++ rest)) = piece :: pieces needle fuel rest := by
  have hfind : find needle (piece ++ (needle ++ rest)) = some (needle ++ rest) := by
    rw [find_append hclear, find_of_prefix (List.prefix_append needle rest)]
  rw [pieces, hfind]
  simp

end Search
end Lib
end TcMuzi
