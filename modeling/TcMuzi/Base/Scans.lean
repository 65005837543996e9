import TcMuzi.Base.TcCommon

/-!
# Where the string helpers read and write

`QueryParseKeyValue` and `GetFileSuffix` by their pointers, as places in the string.  A
place is inside when it is not behind the terminator, which has the place `length`.
-/

namespace TcMuzi
namespace Base

/-! ## `QueryParseKeyValue` -/

/-- The place at which the scan for the value starts: one byte behind the key. -/
def valueStart (query key : CString) : Option Nat :=
  (strstr key.bytes query.bytes).map fun found =>
    query.length - found.length + key.length + 1

/-- The bytes from there to a `#`, a `&` or the end. -/
def valueBytes (query : CString) (start : Nat) : List UInt8 :=
  (query.bytes.drop start).takeWhile fun b => b ≠ 35 && b ≠ 38

/-- The scan ends at the terminator at the latest, and the value with its own terminator
fits into a buffer of this size. -/
def ScanFits (query key : CString) (size : Nat) : Prop :=
  ∀ start, valueStart query key = some start →
    start + (valueBytes query start).length ≤ query.length ∧
      (valueBytes query start).length < size

theorem strstr_eq_some_iff {needle hay found : List UInt8} :
    strstr needle hay = some found ↔
      needle <+: found ∧ ∃ before, hay = before ++ found ∧ Lib.Search.Clear needle before found := by
  rw [strstr_eq_find, Lib.Search.find_eq_some_iff]

/-- The value of the model is what is copied from the start of the scan. -/
theorem queryParseKeyValue_eq (query key : CString) :
    queryParseKeyValue query key = (valueStart query key).bind fun start =>
      if start ≤ query.length then some (CString.cStr (valueBytes query start)) else none := by
  unfold queryParseKeyValue valueStart
  cases hfound : strstr key.bytes query.bytes with
  | none => rfl
  | some found =>
      obtain ⟨⟨rest, hrest⟩, before, hquery, _⟩ := strstr_eq_some_iff.mp hfound
      have hdrop : found.drop key.length = rest := by
        rw [← hrest]
        exact List.drop_left
      have hlength : query.length = before.length + (key.length + rest.length) := by
        rw [CString.length, hquery, ← hrest]
        simp [CString.length]
      have hstart : query.length - found.length + key.length + 1 =
          (before ++ key.bytes).length + 1 := by
        rw [hlength, ← hrest]
        simp [CString.length]
      have hvalue : query.bytes.drop ((before ++ key.bytes).length + 1) = rest.drop 1 := by
        rw [hquery, ← hrest, ← List.append_assoc, ← List.drop_drop, List.drop_left]
      simp only [Option.map_some, Option.bind_some, hdrop, hstart, valueBytes, hvalue]
      have hplace : (before ++ key.bytes).length = before.length + key.length :=
        List.length_append
      cases rest with
      | nil =>
          rw [List.length_nil] at hlength
          rw [if_neg (by omega)]
      | cons b value =>
          rw [List.length_cons] at hlength
          rw [if_pos (by omega)]
          rfl

theorem zero_notMem_valueBytes (query : CString) (start : Nat) :
    (0 : UInt8) ∉ valueBytes query start := by
  intro h
  exact query.nulFree (List.mem_of_mem_drop ((List.takeWhile_sublist _).mem h))

/-- Nothing goes wrong exactly where the key is missing or its value is there and short. -/
theorem scanFits_iff (query key : CString) (size : Nat) :
    ScanFits query key size ↔ strstr key.bytes query.bytes = none ∨
      ∃ value, queryParseKeyValue query key = some value ∧ value.length < size := by
  have hstart : valueStart query key = none ↔ strstr key.bytes query.bytes = none := by
    simp [valueStart]
  rw [ScanFits, queryParseKeyValue_eq, ← hstart]
  cases valueStart query key with
  | none => simp
  | some start =>
      have hlength : (CString.cStr (valueBytes query start)).length =
          (valueBytes query start).length := by
        rw [CString.length, CString.bytes_cStr (zero_notMem_valueBytes query start)]
      have hle : (valueBytes query start).length ≤ query.length - start := by
        have htake := (List.takeWhile_sublist (fun b => b ≠ 35 && b ≠ 38)
          (l := query.bytes.drop start)).length_le
        rwa [List.length_drop] at htake
      by_cases hin : start ≤ query.length
      · simp only [Option.some.injEq, forall_eq', Option.bind_some, if_pos hin, reduceCtorEq,
          false_or, exists_eq_left', hlength]
        constructor
        · exact fun h => h.2
        · exact fun h => ⟨by omega, h⟩
      · simp only [Option.some.injEq, forall_eq', Option.bind_some, if_neg hin, reduceCtorEq,
          false_or, false_and, exists_false, iff_false]
        omega

/-! ## `GetFileSuffix` -/

/-- `while (*k != '.' && k != p) k--`, from a place on. -/
def lastDot (bytes : List UInt8) : Nat → Nat
  | 0 => 0
  | k + 1 => if bytes[k + 1]? = some 46 then k + 1 else lastDot bytes k

/-- The scan back never leaves the name. -/
theorem lastDot_le (bytes : List UInt8) (k : Nat) : lastDot bytes k ≤ k := by
  induction k with
  | zero => exact Nat.le_refl 0
  | succ k ih =>
      rw [lastDot]
      split
      · exact Nat.le_refl _
      · omega

/-- It stops at the last dot, or at the first byte. -/
theorem lastDot_spec (bytes : List UInt8) (k : Nat) :
    (lastDot bytes k = 0 ∨ bytes[lastDot bytes k]? = some 46) ∧
      ∀ j, lastDot bytes k < j → j ≤ k → bytes[j]? ≠ some 46 := by
  induction k with
  | zero => exact ⟨Or.inl rfl, fun j hlt hle => by rw [lastDot] at hlt; omega⟩
  | succ k ih =>
      rw [lastDot]
      split
      · rename_i hdot
        exact ⟨Or.inr hdot, fun j hlt hle => by omega⟩
      · rename_i hdot
        refine ⟨ih.1, fun j hlt hle => ?_⟩
        by_cases hj : j = k + 1
        · rw [hj]
          exact hdot
        · exact ih.2 j hlt (by omega)

/-- The suffix is what is copied from behind the place at which the scan stops. -/
theorem getFileSuffix_eq (fileName : CString) :
    getFileSuffix fileName =
      let k := lastDot fileName.bytes fileName.length
      if fileName.bytes[k]? = some 46 ∧ k + 1 < fileName.length then
        CString.cStr (fileName.bytes.drop (k + 1))
      else CString.lit "null" := by
  obtain ⟨hstop, hafter⟩ := lastDot_spec fileName.bytes fileName.length
  generalize hk : lastDot fileName.bytes fileName.length = k at hstop hafter
  dsimp only
  by_cases hdot : fileName.bytes[k]? = some 46
  · -- the bytes behind the dot are those of the suffix
    obtain ⟨hlt, hbyte⟩ := List.getElem?_eq_some_iff.mp hdot
    have hsplit : fileName.bytes = fileName.bytes.take k ++ 46 :: fileName.bytes.drop (k + 1) := by
      rw [← hbyte, ← List.drop_eq_getElem_cons hlt, List.take_append_drop]
    have hnone : 46 ∉ (fileName.bytes.drop (k + 1)).reverse := by
      intro hmem
      obtain ⟨j, hj⟩ := List.getElem?_of_mem (List.mem_reverse.mp hmem)
      rw [List.getElem?_drop] at hj
      have hin := (List.getElem?_eq_some_iff.mp hj).1
      exact hafter (k + 1 + j) (by omega) (by rw [CString.length]; omega) hj
    have hsuffix : (fileName.bytes.reverse.takeWhile (· ≠ 46)).reverse =
        fileName.bytes.drop (k + 1) := by
      have hreverse : fileName.bytes.reverse = (fileName.bytes.drop (k + 1)).reverse ++
          46 :: (fileName.bytes.take k).reverse := by
        conv_lhs => rw [hsplit]
        simp
      rw [hreverse, Lib.takeWhile_ne_append hnone, List.reverse_reverse]
    have hmem : 46 ∈ fileName.bytes := List.mem_of_getElem? hdot
    have hne : fileName.bytes.drop (k + 1) ≠ [] ↔ k + 1 < fileName.length := by
      rw [Ne, List.drop_eq_nil_iff, CString.length]
      omega
    rw [getFileSuffix]
    simp only [hsuffix, hmem, hdot, hne, true_and]
  · have hmem : 46 ∉ fileName.bytes := by
      intro hmem
      obtain ⟨j, hj⟩ := List.getElem?_of_mem hmem
      have hin := (List.getElem?_eq_some_iff.mp hj).1
      have hzero : k = 0 := hstop.resolve_right hdot
      by_cases hj0 : j = 0
      · exact hdot (by rw [hzero, ← hj0]; exact hj)
      · exact hafter j (by omega) (by rw [CString.length]; omega) hj
    rw [getFileSuffix]
    simp only [hmem, hdot, false_and, if_false]

end Base
end TcMuzi
