import Mathlib.Data.List.TakeWhile

/-!
# Cutting a list at the first occurrence of an element

What `takeWhile`, `dropWhile` and `filter` leave of a list when they stop at one element, for
lists that do not have it in front of the cut.
-/

namespace TcMuzi
namespace Lib

variable {α : Type*} [DecidableEq α] {a : α} {before : List α}

section

variable (h : a ∉ before)
include h

theorem ne_of_mem_before : ∀ b ∈ before, decide (b ≠ a) = true := by
  intro b hb
  have : b ≠ a := fun heq => h (heq ▸ hb)
  simpa using this

theorem takeWhile_ne_self : before.takeWhile (· ≠ a) = before :=
  List.takeWhile_eq_self_iff.mpr (ne_of_mem_before h)

theorem takeWhile_ne_append_left (after : List α) :
    (before ++ after).takeWhile (· ≠ a) = before ++ after.takeWhile (· ≠ a) :=
  List.takeWhile_append_of_pos (ne_of_mem_before h)

theorem takeWhile_ne_append (after : List α) :
    (before ++ a :: after).takeWhile (· ≠ a) = before := by
  rw [takeWhile_ne_append_left h]
  simp

theorem dropWhile_ne_append (after : List α) :
    (before ++ a :: after).dropWhile (· ≠ a) = a :: after := by
  rw [List.dropWhile_append_of_pos (ne_of_mem_before h)]
  simp

theorem filter_ne_self : before.filter (· ≠ a) = before :=
  List.filter_eq_self.mpr (ne_of_mem_before h)

end

theorem takeWhile_ne_eq_self_iff : before.takeWhile (· ≠ a) = before ↔ a ∉ before := by
  constructor
  · intro h hmem
    rw [← h] at hmem
    simpa using List.mem_takeWhile_imp hmem
  · exact takeWhile_ne_self

end Lib
end TcMuzi
