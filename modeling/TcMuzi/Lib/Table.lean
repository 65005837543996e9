import Mathlib.Algebra.GroupWithZero.Nat
import Mathlib.Data.List.Nodup
import Mathlib.Data.List.Count
import Mathlib.Tactic.Common

/-!
# Tables as lists of rows

The effect of `UPDATE … WHERE`, `DELETE … WHERE` and `INSERT` on a table kept
as the list of its rows, with the laws the proofs count rows by: how each
operation changes the number of rows satisfying a predicate, the membership of
a row, and the absence of repeated keys.  `pages` cuts the rows as a reader does who
asks for one `LIMIT` after the other.
-/

namespace TcMuzi
namespace Lib
namespace Table

variable {ρ κ : Type}

/-- `UPDATE … SET f WHERE p`. -/
def setWhere (p : ρ → Bool) (f : ρ → ρ) (rows : List ρ) : List ρ :=
  rows.map fun row => if p row then f row else row

/-- Rows that `setWhere` really changes: what MySQL counts as affected. -/
def changed [DecidableEq ρ] (p : ρ → Bool) (f : ρ → ρ) (rows : List ρ) : Nat :=
  rows.countP fun row => p row && decide (f row ≠ row)

/-- `DELETE … WHERE p`. -/
def deleteWhere (p : ρ → Bool) (rows : List ρ) : List ρ :=
  rows.filter fun row => !p row

/-- `INSERT`. -/
def insertRow (row : ρ) (rows : List ρ) : List ρ :=
  rows ++ [row]

@[simp] theorem countP_insertRow (q : ρ → Bool) (row : ρ) (rows : List ρ) :
    (insertRow row rows).countP q = rows.countP q + if q row then 1 else 0 := by
  rw [insertRow, List.countP_append, List.countP_singleton]

@[simp] theorem mem_insertRow (row r : ρ) (rows : List ρ) :
    r ∈ insertRow row rows ↔ r ∈ rows ∨ r = row := by
  simp [insertRow]

/-- An update that does not touch what `q` looks at keeps the count of `q`. -/
theorem countP_setWhere (p q : ρ → Bool) (f : ρ → ρ) (rows : List ρ)
    (hf : ∀ row, p row → q (f row) = q row) : (setWhere p f rows).countP q = rows.countP q := by
  rw [setWhere, List.countP_map]
  apply List.countP_congr
  intro row _
  by_cases hp : p row <;> simp [hp, hf]

/-- A row that the update really changes is an affected row. -/
theorem changed_pos [DecidableEq ρ] {p : ρ → Bool} {f : ρ → ρ} {row : ρ} {rows : List ρ}
    (hmem : row ∈ rows) (hp : p row) (hf : f row ≠ row) : 0 < changed p f rows := by
  apply List.countP_pos_iff.mpr
  exact ⟨row, hmem, by simp [hp, hf]⟩

theorem mem_setWhere (p : ρ → Bool) (f : ρ → ρ) (r : ρ) (rows : List ρ) :
    r ∈ setWhere p f rows ↔ (∃ row ∈ rows, p row ∧ f row = r) ∨ (r ∈ rows ∧ ¬ p r) := by
  simp only [setWhere, List.mem_map]
  constructor
  · rintro ⟨row, hrow, hr⟩
    by_cases hp : p row
    · exact Or.inl ⟨row, hrow, hp, by simpa [hp] using hr⟩
    · obtain rfl : row = r := by simpa [hp] using hr
      exact Or.inr ⟨hrow, hp⟩
  · rintro (⟨row, hrow, hp, rfl⟩ | ⟨hr, hp⟩)
    · exact ⟨row, hrow, by simp [hp]⟩
    · exact ⟨r, hr, by simp [hp]⟩

/-- An update that keeps a key keeps the list of keys. -/
theorem map_setWhere (p : ρ → Bool) (f : ρ → ρ) (key : ρ → κ) (rows : List ρ)
    (hf : ∀ row, p row → key (f row) = key row) : (setWhere p f rows).map key = rows.map key := by
  rw [setWhere, List.map_map]
  apply List.map_congr_left
  intro row _
  by_cases hp : p row <;> simp [hp, hf]

/-- The rows that satisfy `q` split into the surviving and the deleted ones. -/
theorem countP_deleteWhere_add (p q : ρ → Bool) (rows : List ρ) :
    (deleteWhere p rows).countP q + rows.countP (fun row => q row && p row) = rows.countP q := by
  induction rows with
  | nil => rfl
  | cons row rows ih =>
      simp only [deleteWhere, List.filter_cons, List.countP_cons] at ih ⊢
      cases hp : p row <;> cases hq : q row <;> simp [hq] <;> omega

@[simp] theorem mem_deleteWhere (p : ρ → Bool) (r : ρ) (rows : List ρ) :
    r ∈ deleteWhere p rows ↔ r ∈ rows ∧ ¬ p r := by
  simp [deleteWhere]

/-- Deleting nothing leaves the table alone. -/
theorem deleteWhere_eq_self (p : ρ → Bool) (rows : List ρ) (h : rows.countP p = 0) :
    deleteWhere p rows = rows := by
  rw [List.countP_eq_zero] at h
  apply List.filter_eq_self.mpr
  intro row hrow
  simpa using h row hrow

/-- An update that affects no row leaves the table alone. -/
theorem setWhere_of_changed_eq_zero [DecidableEq ρ] {p : ρ → Bool} {f : ρ → ρ} {rows : List ρ}
    (h : changed p f rows = 0) : setWhere p f rows = rows := by
  rw [changed, List.countP_eq_zero] at h
  rw [setWhere]
  refine (List.map_congr_left fun row hrow => ?_).trans (List.map_id rows)
  have hsame := h row hrow
  by_cases hp : p row
  · simpa [hp] using hsame
  · simp [hp]

/-- A deletion outside `q` keeps the count of `q`. -/
theorem countP_deleteWhere_of_disjoint (p q : ρ → Bool) (rows : List ρ)
    (h : ∀ row ∈ rows, q row → ¬ p row) : (deleteWhere p rows).countP q = rows.countP q := by
  have hnone : rows.countP (fun row => q row && p row) = 0 := by
    rw [List.countP_eq_zero]
    intro row hrow
    simpa using h row hrow
  have := countP_deleteWhere_add p q rows
  omega

/-- An update changes the rows of `q` exactly when it changes one of them. -/
theorem filter_setWhere_eq_iff {p q : ρ → Bool} {f : ρ → ρ} (hf : ∀ row, p row → q (f row) = q row)
    (rows : List ρ) :
    (setWhere p f rows).filter q = rows.filter q ↔ ∀ row ∈ rows, p row → q row → f row = row := by
  induction rows with
  | nil => simp [setWhere]
  | cons row rows ih =>
      rw [setWhere] at ih
      rw [setWhere, List.map_cons, List.forall_mem_cons, ← ih]
      by_cases hp : p row
      · by_cases hq : q row
        · simp [hp, hq, hf]
        · simp [hp, hq, hf]
      · by_cases hq : q row
        · simp [hp, hq]
        · simp [hp, hq]

/-- Setting a column changes the rows of `q` exactly when one of them had another value. -/
theorem filter_setWhere_ne_iff {p q : ρ → Bool} {f : ρ → ρ} {column : ρ → κ} {value : κ}
    (hf : ∀ row, p row → q (f row) = q row) (hset : ∀ row, f row = row ↔ column row = value)
    (rows : List ρ) :
    (setWhere p f rows).filter q ≠ rows.filter q ↔
      ∃ row ∈ rows, p row ∧ q row ∧ column row ≠ value := by
  rw [ne_eq, filter_setWhere_eq_iff hf]
  simp [hset]

/-- A deletion changes the rows of `q` exactly when it removes one of them. -/
theorem filter_deleteWhere_ne_iff {p q : ρ → Bool} (rows : List ρ) :
    (deleteWhere p rows).filter q ≠ rows.filter q ↔ ∃ row ∈ rows, q row ∧ p row := by
  have hcomm : (deleteWhere p rows).filter q = (rows.filter q).filter fun row => !p row := by
    rw [deleteWhere, List.filter_filter, List.filter_filter]
    exact List.filter_congr fun row _ => Bool.and_comm _ _
  rw [hcomm, ne_eq, List.filter_eq_self]
  simp [List.mem_filter]

theorem nodup_deleteWhere (p : ρ → Bool) (key : ρ → κ) {rows : List ρ}
    (h : (rows.map key).Nodup) : ((deleteWhere p rows).map key).Nodup :=
  h.sublist (List.Sublist.map key List.filter_sublist)

theorem nodup_insertRow (key : ρ → κ) {row : ρ} {rows : List ρ} (h : (rows.map key).Nodup)
    (hfresh : key row ∉ rows.map key) : ((insertRow row rows).map key).Nodup := by
  rw [insertRow, List.map_append, List.nodup_append]
  refine ⟨h, by simp, ?_⟩
  rintro k hk k' hk' rfl
  obtain rfl : k = key row := by simpa using hk'
  exact hfresh hk

/-- With unique keys at most one row has a given key. -/
theorem countP_key_le_one [DecidableEq κ] (key : ρ → κ) (k : κ) {rows : List ρ}
    (h : (rows.map key).Nodup) : rows.countP (fun row => decide (key row = k)) ≤ 1 := by
  have hcount := List.nodup_iff_count_le_one.mp h k
  rw [List.count, List.countP_map] at hcount
  refine Nat.le_trans (Nat.le_of_eq ?_) hcount
  apply List.countP_congr
  intro row _
  simp

/-- With unique keys a row that is present is the only one with its key. -/
theorem countP_key_eq_one [DecidableEq κ] (key : ρ → κ) (k : κ) {rows : List ρ}
    (h : (rows.map key).Nodup) (hmem : k ∈ rows.map key) :
    rows.countP (fun row => decide (key row = k)) = 1 := by
  have hle := countP_key_le_one key k h
  obtain ⟨row, hrow, hkey⟩ := List.mem_map.mp hmem
  have hpos : 0 < rows.countP (fun row => decide (key row = k)) :=
    List.countP_pos_iff.mpr ⟨row, hrow, by simp [hkey]⟩
  omega

/-- With unique keys two rows with one key are the same row. -/
theorem eq_of_key_eq (key : ρ → κ) {rows : List ρ} (h : (rows.map key).Nodup)
    {r r' : ρ} (hr : r ∈ rows) (hr' : r' ∈ rows) (hkey : key r = key r') : r = r' :=
  List.inj_on_of_nodup_map h hr hr' hkey

/-! ## Pages -/

/-- Consecutive pages of the given sizes. -/
def pages : List ρ → List Nat → List (List ρ)
  | _, [] => []
  | rows, count :: counts => rows.take count :: pages (rows.drop count) counts

/-- Pages that reach the end hold every row once, in order. -/
theorem flatten_pages {rows : List ρ} {counts : List Nat} (h : rows.length ≤ counts.sum) :
    (pages rows counts).flatten = rows := by
  induction counts generalizing rows with
  | nil =>
      have hempty : rows = [] := by simpa using h
      rw [hempty]
      rfl
  | cons count counts ih =>
      have hrest : (rows.drop count).length ≤ counts.sum := by
        rw [List.length_drop]
        rw [List.sum_cons] at h
        omega
      rw [pages, List.flatten_cons, ih hrest, List.take_append_drop]

end Table
end Lib
end TcMuzi
