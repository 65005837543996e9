import Mathlib.Data.List.AList
import TcMuzi.Lib.Table

/-!
# An index of a table

A second store keeps, under the key of every row of a table, one value computed from the
row.  `Indexes` says that it does; the lemmas keep the store in step with an `INSERT`, a
`DELETE` or an `UPDATE` of the table.  `insertAll` fills a store from the table.
-/

namespace TcMuzi
namespace Lib

variable {ρ κ β : Type} [DecidableEq κ]

/-- The store has exactly the keys of the rows, each with the value of its row. -/
def Indexes (key : ρ → κ) (val : ρ → β) (index : AList fun _ : κ => β) (rows : List ρ) : Prop :=
  ∀ k v, index.lookup k = some v ↔ ∃ row ∈ rows, key row = k ∧ val row = v

namespace Indexes

variable {key : ρ → κ} {val : ρ → β} {index : AList fun _ : κ => β} {rows : List ρ}

theorem mem_iff (h : Indexes key val index rows) (k : κ) :
    k ∈ index ↔ ∃ row ∈ rows, key row = k := by
  rw [← AList.lookup_isSome, Option.isSome_iff_exists]
  constructor
  · rintro ⟨v, hv⟩
    obtain ⟨row, hrow, hkey, _⟩ := (h k v).mp hv
    exact ⟨row, hrow, hkey⟩
  · rintro ⟨row, hrow, hkey⟩
    exact ⟨val row, (h k _).mpr ⟨row, hrow, hkey, rfl⟩⟩

/-- A row with a new key and its entry. -/
theorem insertRow (h : Indexes key val index rows) {row : ρ} (hfresh : ∀ r ∈ rows, key r ≠ key row) :
    Indexes key val (index.insert (key row) (val row)) (Table.insertRow row rows) := by
  intro k v
  by_cases hk : k = key row
  · subst hk
    rw [AList.lookup_insert, Option.some.injEq]
    constructor
    · intro hv
      exact ⟨row, (Table.mem_insertRow ..).mpr (Or.inr rfl), rfl, hv⟩
    · rintro ⟨r, hr, hkey, hv⟩
      rcases (Table.mem_insertRow ..).mp hr with hold | rfl
      · exact absurd hkey (hfresh r hold)
      · exact hv
  · rw [AList.lookup_insert_ne hk, h k v]
    constructor
    · rintro ⟨r, hr, hr'⟩
      exact ⟨r, (Table.mem_insertRow ..).mpr (Or.inl hr), hr'⟩
    · rintro ⟨r, hr, hkey, hv⟩
      rcases (Table.mem_insertRow ..).mp hr with hold | rfl
      · exact ⟨r, hold, hkey, hv⟩
      · exact absurd hkey.symm hk

/-- All rows of one key and its entry go. -/
theorem deleteWhere (h : Indexes key val index rows) {p : ρ → Bool} {k : κ}
    (hp : ∀ row ∈ rows, p row ↔ key row = k) :
    Indexes key val (index.erase k) (Table.deleteWhere p rows) := by
  intro k' v
  by_cases hk : k' = k
  · subst hk
    rw [AList.lookup_erase]
    constructor
    · intro hnone
      cases hnone
    · rintro ⟨r, hr, hkey, _⟩
      obtain ⟨hold, hnot⟩ := (Table.mem_deleteWhere ..).mp hr
      exact absurd ((hp r hold).mpr hkey) hnot
  · rw [AList.lookup_erase_ne hk, h k' v]
    constructor
    · rintro ⟨r, hr, hkey, hv⟩
      refine ⟨r, (Table.mem_deleteWhere ..).mpr ⟨hr, fun hpr => ?_⟩, hkey, hv⟩
      exact hk (hkey.symm.trans ((hp r hr).mp hpr))
    · rintro ⟨r, hr, hr'⟩
      exact ⟨r, ((Table.mem_deleteWhere ..).mp hr).1, hr'⟩

/-- An update that does not touch what is indexed. -/
theorem setWhere_same (h : Indexes key val index rows) {p : ρ → Bool} {f : ρ → ρ}
    (hkey : ∀ row, key (f row) = key row) (hval : ∀ row, val (f row) = val row) :
    Indexes key val index (Table.setWhere p f rows) := by
  intro k v
  rw [h k v]
  constructor
  · rintro ⟨r, hr, rfl, rfl⟩
    by_cases hpr : p r
    · exact ⟨f r, (Table.mem_setWhere ..).mpr (Or.inl ⟨r, hr, hpr, rfl⟩), hkey r, hval r⟩
    · exact ⟨r, (Table.mem_setWhere ..).mpr (Or.inr ⟨hr, hpr⟩), rfl, rfl⟩
  · rintro ⟨r, hr, rfl, rfl⟩
    rcases (Table.mem_setWhere ..).mp hr with ⟨old, hold, _, rfl⟩ | ⟨hold, _⟩
    · exact ⟨old, hold, (hkey old).symm, (hval old).symm⟩
    · exact ⟨r, hold, rfl, rfl⟩

/-- The one row of a key and its entry get a new value. -/
theorem setWhere (h : Indexes key val index rows) {p : ρ → Bool} {f : ρ → ρ} {row : ρ}
    (hrow : row ∈ rows) (hkey : key (f row) = key row)
    (hp : ∀ r ∈ rows, p r ↔ key r = key row) (honly : ∀ r ∈ rows, key r = key row → r = row) :
    Indexes key val (index.insert (key row) (val (f row))) (Table.setWhere p f rows) := by
  intro k v
  by_cases hk : k = key row
  · subst hk
    rw [AList.lookup_insert, Option.some.injEq]
    constructor
    · intro hv
      refine ⟨f row, (Table.mem_setWhere ..).mpr (Or.inl ⟨row, hrow, ?_, rfl⟩), hkey, hv⟩
      exact (hp row hrow).mpr rfl
    · rintro ⟨r, hr, hr', hv⟩
      rcases (Table.mem_setWhere ..).mp hr with ⟨old, hold, hpold, rfl⟩ | ⟨hold, hnot⟩
      · obtain rfl := honly old hold ((hp old hold).mp hpold)
        exact hv
      · exact absurd ((hp r hold).mpr hr') hnot
  · rw [AList.lookup_insert_ne hk, h k v]
    constructor
    · rintro ⟨r, hr, rfl, hv⟩
      exact ⟨r, (Table.mem_setWhere ..).mpr (Or.inr ⟨hr, fun hpr => hk ((hp r hr).mp hpr)⟩),
        rfl, hv⟩
    · rintro ⟨r, hr, rfl, hv⟩
      rcases (Table.mem_setWhere ..).mp hr with ⟨old, hold, hpold, rfl⟩ | ⟨hold, _⟩
      · obtain rfl := honly old hold ((hp old hold).mp hpold)
        exact absurd hkey hk
      · exact ⟨r, hold, rfl, hv⟩

end Indexes

/-! ## Filling the store -/

/-- One entry per row; a later row replaces an earlier one of its key. -/
def insertAll (key : ρ → κ) (val : ρ → β) (index : AList fun _ : κ => β) :
    List ρ → AList fun _ : κ => β
  | [] => index
  | row :: rows => insertAll key val (index.insert (key row) (val row)) rows

/-- The last row of a key gives its value. -/
theorem lookup_insertAll (key : ρ → κ) (val : ρ → β) (index : AList fun _ : κ => β) (rows : List ρ)
    (k : κ) :
    (insertAll key val index rows).lookup k =
      ((rows.reverse.find? fun row => key row = k).map val).or (index.lookup k) := by
  induction rows generalizing index with
  | nil => rfl
  | cons row rows ih =>
      rw [insertAll, ih, List.reverse_cons, List.find?_append]
      cases rows.reverse.find? fun row => key row = k with
      | some last => rfl
      | none =>
          by_cases hk : key row = k
          · subst hk
            simp
          · simp [hk, AList.lookup_insert_ne (Ne.symm hk)]

/-- Rows with keys of their own make one entry each. -/
theorem perm_entries_insertAll (key : ρ → κ) (val : ρ → β) {index : AList fun _ : κ => β}
    {rows : List ρ} (hkeys : (rows.map key).Nodup) (hfresh : ∀ row ∈ rows, key row ∉ index) :
    (insertAll key val index rows).entries.Perm
      ((rows.map fun row => ⟨key row, val row⟩) ++ index.entries) := by
  induction rows generalizing index with
  | nil => exact List.Perm.refl _
  | cons row rows ih =>
      rw [List.map_cons, List.nodup_cons] at hkeys
      have hrest : ∀ r ∈ rows, key r ∉ index.insert (key row) (val row) := by
        intro r hr hmem
        rcases (AList.mem_insert _).mp hmem with hsame | hold
        · exact hkeys.1 (hsame ▸ List.mem_map_of_mem hr)
        · exact hfresh r (List.mem_cons_of_mem row hr) hold
      refine (ih hkeys.2 hrest).trans ?_
      rw [AList.entries_insert_of_notMem (hfresh row List.mem_cons_self)]
      exact List.perm_middle

end Lib
end TcMuzi
