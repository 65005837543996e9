import TcMuzi.Redis.Store

/-!
# The order of a sorted set

`zsetLe` is a linear order on members with their scores, so the ranks of a sorted set
depend on its members only: any list of them that is in descending order is what
`ZREVRANGE` reads.
-/

namespace TcMuzi
namespace Redis

open Base

/-! ## The order -/

theorem zsetLe_iff (a b : (_ : CString) × Int) :
    zsetLe a b ↔ a.2 < b.2 ∨ (a.2 = b.2 ∧ a.1.bytes ≤ b.1.bytes) := by
  rw [zsetLe, List.not_lt]

instance : Std.Total zsetLe where
  total a b := by
    rw [zsetLe_iff, zsetLe_iff]
    have hbytes := List.le_total a.1.bytes b.1.bytes
    rcases lt_trichotomy a.2 b.2 with hlt | heq | hgt
    · exact Or.inl (Or.inl hlt)
    · rcases hbytes with hle | hle
      · exact Or.inl (Or.inr ⟨heq, hle⟩)
      · exact Or.inr (Or.inr ⟨heq.symm, hle⟩)
    · exact Or.inr (Or.inl hgt)

instance : IsTrans _ zsetLe where
  trans a b c hab hbc := by
    rw [zsetLe_iff] at hab hbc ⊢
    rcases hab with hab | ⟨hab, hbytes⟩
    · refine Or.inl ?_
      rcases hbc with hbc | ⟨hbc, _⟩
      · omega
      · omega
    · rcases hbc with hbc | ⟨hbc, hbytes'⟩
      · exact Or.inl (by omega)
      · exact Or.inr ⟨hab.trans hbc, List.le_trans hbytes hbytes'⟩

theorem zsetLe_antisymm {a b : (_ : CString) × Int} (hab : zsetLe a b) (hba : zsetLe b a) :
    a = b := by
  rw [zsetLe_iff] at hab hba
  have hscore : a.2 = b.2 := by omega
  have hle : a.1.bytes ≤ b.1.bytes := by
    rcases hab with hlt | ⟨_, hle⟩
    · omega
    · exact hle
  have hge : b.1.bytes ≤ a.1.bytes := by
    rcases hba with hlt | ⟨_, hge⟩
    · omega
    · exact hge
  have hmember : a.1 = b.1 := CString.ext (List.le_antisymm hle hge)
  exact Sigma.ext hmember (heq_of_eq hscore)

/-! ## Ranks -/

/-- Any descending list of the members gives the ranks. -/
theorem zsetDesc_eq {members : ZSet} {items : List ((_ : CString) × Int)}
    (hperm : members.entries.Perm items) (hdesc : items.Pairwise fun a b => zsetLe b a) :
    zsetDesc members = items.map (·.1) := by
  have hsorted : members.entries.insertionSort zsetLe = items.reverse := by
    refine List.Perm.eq_of_pairwise (fun a b _ _ => zsetLe_antisymm)
      (List.pairwise_insertionSort zsetLe _) (List.pairwise_reverse.mpr hdesc) ?_
    exact (List.perm_insertionSort zsetLe _).trans (hperm.trans (List.reverse_perm items).symm)
  rw [zsetDesc, hsorted, List.map_reverse, List.reverse_reverse]

/-- A range that starts at a rank is a page. -/
theorem rangeOf_page (items : List CString) (start count : Nat) (hcount : 0 < count) :
    rangeOf start (start + count - 1) items = (items.drop start).take count := by
  have hstart : ¬ (start : Int) < 0 := by omega
  have hlast : ¬ (start + count - 1 : Int) < 0 := by omega
  have hfirst : max 0 (start : Int) = start := by omega
  have horder : ¬ (start + count - 1 : Int) < start := by omega
  have hlength : ((start : Int) + count - 1 - start + 1).toNat = count := by omega
  simp only [rangeOf, if_neg hstart, if_neg hlast, hfirst, if_neg horder, hlength, Int.toNat_natCast]

end Redis
end TcMuzi
