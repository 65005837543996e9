import TcMuzi.Lib.Table

/-!
# Counter columns

A table with a column that counts something for each key.  `advance k` is the table after
every row has counted `k` of its key further; writing the next value into the rows of one
key advances that key by one.
-/

namespace TcMuzi
namespace Lib

/-- The key column and the counting column of a row. -/
structure Counter (ρ κ : Type) where
  key : ρ → κ
  get : ρ → Int
  set : Int → ρ → ρ
  get_set : ∀ n row, get (set n row) = n
  set_get : ∀ row, set (get row) row = row
  set_set : ∀ n m row, set n (set m row) = set n row
  key_set : ∀ n row, key (set n row) = key row

namespace Counter

variable {ρ κ : Type} (c : Counter ρ κ)

def advance (k : κ → Nat) (rows : List ρ) : List ρ :=
  rows.map fun row => c.set (c.get row + k (c.key row)) row

theorem advance_zero (rows : List ρ) : c.advance (fun _ => 0) rows = rows := by
  refine (List.map_congr_left fun row _ => ?_).trans (List.map_id rows)
  show c.set (c.get row + ((0 : Nat) : Int)) row = row
  rw [Int.natCast_zero, Int.add_zero, c.set_get]

/-- The next value of a key is written into its rows. -/
theorem setWhere_advance [DecidableEq κ] {k k' : κ → Nat} {rows : List ρ} {p : ρ → Bool} {x : κ}
    {n : Int} (hp : ∀ row, p row ↔ c.key row = x)
    (hk : ∀ y, k' y = k y + if y = x then 1 else 0)
    (hn : ∀ row ∈ c.advance k rows, p row → n = c.get row + 1) :
    Table.setWhere p (c.set n) (c.advance k rows) = c.advance k' rows := by
  rw [Table.setWhere, advance, List.map_map]
  refine List.map_congr_left fun row hrow => ?_
  have hkey : p (c.set (c.get row + k (c.key row)) row) ↔ c.key row = x := by
    rw [hp, c.key_set]
  show (if p (c.set (c.get row + k (c.key row)) row) then _ else _) = _
  rw [hk]
  by_cases hx : c.key row = x
  · have hnext := hn _ (List.mem_map.mpr ⟨row, hrow, rfl⟩) (hkey.mpr hx)
    rw [c.get_set] at hnext
    rw [if_pos (hkey.mpr hx), if_pos hx, c.set_set, hnext, Int.natCast_add, Int.natCast_one,
      Int.add_assoc]
  · rw [if_neg fun hpos => hx (hkey.mp hpos), if_neg hx, Nat.add_zero]

/-- No row has gone, and none has counted back. -/
def NoDecrease (rows rows' : List ρ) : Prop :=
  List.Forall₂ (fun row row' => c.key row' = c.key row ∧ c.get row ≤ c.get row') rows rows'

theorem noDecrease_advance {k k' : κ → Nat} (hk : ∀ y, k y ≤ k' y) (rows : List ρ) :
    c.NoDecrease (c.advance k rows) (c.advance k' rows) := by
  rw [NoDecrease, advance, advance, List.forall₂_map_left_iff, List.forall₂_map_right_iff]
  refine List.forall₂_same.mpr fun row _ => ⟨?_, ?_⟩
  · rw [c.key_set, c.key_set]
  · rw [c.get_set, c.get_set]
    have := hk (c.key row)
    omega

end Counter
end Lib
end TcMuzi
