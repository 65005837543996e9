import Mathlib.Algebra.GroupWithZero.Nat
import Mathlib.Algebra.BigOperators.Group.List.Basic
import Mathlib.Algebra.Order.BigOperators.Group.List
import Mathlib.Algebra.Order.Group.Nat
import Mathlib.Data.List.Sort
import TcMuzi.Base.Json

/-!
# The text of a JSON value

`FastWriter` of the bundled jsoncpp: no blanks, the members of an object in the order of
their names, and a line feed at the end.  `valueToQuotedString` escapes control characters,
so no text contains a NUL.
-/

namespace TcMuzi
namespace Base
namespace Json

/-- Two upper-case hexadecimal digits behind `\u00`. -/
def hexDigit (n : Nat) : UInt8 := UInt8.ofNat (if n < 10 then 48 + n else 55 + n)

/-- One byte of a string, as `valueToQuotedString` appends it. -/
def quoteByte (b : UInt8) : List UInt8 :=
  if b = 34 then [92, 34]
  else if b = 92 then [92, 92]
  else if b = 8 then [92, 98]
  else if b = 12 then [92, 102]
  else if b = 10 then [92, 110]
  else if b = 13 then [92, 114]
  else if b = 9 then [92, 116]
  else if 0 < b ∧ b ≤ 31 then
    [92, 117, 48, 48, hexDigit (b.toNat / 16), hexDigit (b.toNat % 16)]
  else [b]

/-- A string without special characters is copied, which is what the walk does too. -/
def valueToQuotedString (value : CString) : List UInt8 :=
  34 :: value.bytes.flatMap quoteByte ++ [34]

/-- The order of `std::map` on the names, by `strcmp`. -/
def nameLe {α : Type} (a b : CString × α) : Prop := ¬ b.1.bytes < a.1.bytes

instance {α : Type} : DecidableRel (nameLe (α := α)) := fun a b => by
  unfold nameLe
  infer_instance

/-- The elements of an array or an object, with commas between them. -/
def joinCommas : List (List UInt8) → List UInt8
  | [] => []
  | [part] => part
  | part :: parts => part ++ 44 :: joinCommas parts

/-- A member with its name. -/
def namedValue (m : CString × List UInt8) : List UInt8 :=
  valueToQuotedString m.1 ++ 58 :: m.2

mutual

/-- `FastWriter::writeValue`. -/
def writeValue : Json → List UInt8
  | null => (CString.lit "null").bytes
  | bool true => (CString.lit "true").bytes
  | bool false => (CString.lit "false").bytes
  | int n => (CString.ofInt n).bytes
  | real text _ => text.bytes
  | str s => valueToQuotedString s
  | arr items => 91 :: joinCommas (writeItems items) ++ [93]
  | obj members =>
      123 :: joinCommas (((writeMembers members).insertionSort nameLe).map namedValue) ++ [125]

def writeItems : List Json → List (List UInt8)
  | [] => []
  | item :: items => writeValue item :: writeItems items

def writeMembers : List (CString × Json) → List (CString × List UInt8)
  | [] => []
  | (name, value) :: members => (name, writeValue value) :: writeMembers members

end

/-- `FastWriter::write`. -/
def write (root : Json) : List UInt8 := writeValue root ++ [10]

example : (withCode 0 [(CString.lit "b", .str (CString.lit "a\"c"))]).write =
    (CString.lit "\x7b\"b\":\"a\\\"c\",\"code\":0\x7d\n").bytes := by
  decide

/-! ## No text contains a NUL -/

theorem hexDigit_ne_zero : ∀ n < 16, hexDigit n ≠ 0 := by decide

theorem not_nul_quoteByte {b : UInt8} (h : b ≠ 0) : (0 : UInt8) ∉ quoteByte b := by
  have hlow : hexDigit (b.toNat % 16) ≠ 0 := hexDigit_ne_zero _ (Nat.mod_lt _ (by omega))
  have hhigh : hexDigit (b.toNat / 16) ≠ 0 := by
    refine hexDigit_ne_zero _ ?_
    have := b.toNat_lt
    omega
  unfold quoteByte
  split_ifs <;> simp [hlow.symm, hhigh.symm, h.symm]

theorem not_nul_valueToQuotedString (value : CString) :
    (0 : UInt8) ∉ valueToQuotedString value := by
  intro hmem
  have hbytes : (0 : UInt8) ∈ value.bytes.flatMap quoteByte := by
    simpa [valueToQuotedString] using hmem
  obtain ⟨b, hb, hquote⟩ := List.mem_flatMap.mp hbytes
  refine not_nul_quoteByte ?_ hquote
  rintro rfl
  exact value.nulFree hb

theorem not_nul_joinCommas {parts : List (List UInt8)} (h : ∀ part ∈ parts, (0 : UInt8) ∉ part) :
    (0 : UInt8) ∉ joinCommas parts := by
  induction parts using joinCommas.induct with
  | case1 => simp [joinCommas]
  | case2 part => exact h part (List.mem_singleton.mpr rfl)
  | case3 part parts hne ih =>
      rw [joinCommas, List.mem_append, List.mem_cons]
      · rintro (hmem | hzero | hmem)
        · exact h part List.mem_cons_self hmem
        · cases hzero
        · exact ih (fun part' hpart' => h part' (List.mem_cons_of_mem part hpart')) hmem
      · exact hne

theorem not_nul_namedValue {m : CString × List UInt8} (h : (0 : UInt8) ∉ m.2) :
    (0 : UInt8) ∉ namedValue m := by
  simp [namedValue, not_nul_valueToQuotedString, h]

mutual

theorem not_nul_writeValue : ∀ value : Json, (0 : UInt8) ∉ writeValue value
  | null => by rw [writeValue]; exact CString.nulFree _
  | bool true => by rw [writeValue]; exact CString.nulFree _
  | bool false => by rw [writeValue]; exact CString.nulFree _
  | int n => by rw [writeValue]; exact CString.nulFree _
  | real text _ => by rw [writeValue]; exact text.nulFree
  | str s => by rw [writeValue]; exact not_nul_valueToQuotedString s
  | arr items => by
      have hitems := not_nul_joinCommas (not_nul_writeItems items)
      simpa [writeValue] using hitems
  | obj members => by
      have hmembers : (0 : UInt8) ∉
          joinCommas (((writeMembers members).insertionSort nameLe).map namedValue) := by
        refine not_nul_joinCommas fun part hpart => ?_
        obtain ⟨m, hm, rfl⟩ := List.mem_map.mp hpart
        exact not_nul_namedValue (not_nul_writeMembers members m ((List.mem_insertionSort _).mp hm))
      simpa [writeValue] using hmembers

theorem not_nul_writeItems : ∀ items : List Json, ∀ part ∈ writeItems items, (0 : UInt8) ∉ part
  | [], part, hpart => by cases hpart
  | item :: items, part, hpart => by
      rw [writeItems, List.mem_cons] at hpart
      rcases hpart with rfl | hpart
      · exact not_nul_writeValue item
      · exact not_nul_writeItems items part hpart

theorem not_nul_writeMembers : ∀ members : List (CString × Json), ∀ m ∈ writeMembers members,
    (0 : UInt8) ∉ m.2
  | [], m, hm => by cases hm
  | (name, value) :: members, m, hm => by
      rw [writeMembers, List.mem_cons] at hm
      rcases hm with rfl | hm
      · exact not_nul_writeValue value
      · exact not_nul_writeMembers members m hm

end

theorem not_nul_write (root : Json) : (0 : UInt8) ∉ root.write := by
  simp [write, not_nul_writeValue]

/-! ## How long a text is at least -/

theorem length_le_valueToQuotedString (value : CString) :
    value.length ≤ (valueToQuotedString value).length := by
  have hbyte : ∀ b ∈ value.bytes, 1 ≤ (quoteByte b).length := by
    intro b _
    unfold quoteByte
    split_ifs <;> simp
  have hsum := List.length_le_sum_of_one_le (value.bytes.map fun b => (quoteByte b).length)
    (by simpa using hbyte)
  rw [List.length_map] at hsum
  simp only [valueToQuotedString, List.length_cons, List.length_append, List.length_flatMap,
    CString.length]
  omega

theorem sum_length_le_joinCommas (parts : List (List UInt8)) :
    (parts.map List.length).sum ≤ (joinCommas parts).length := by
  induction parts using joinCommas.induct with
  | case1 => simp
  | case2 part => simp [joinCommas]
  | case3 part parts hne ih =>
      rw [joinCommas]
      · simp only [List.map_cons, List.sum_cons, List.length_append, List.length_cons]
        omega
      · exact hne

theorem writeItems_eq (items : List Json) : writeItems items = items.map writeValue := by
  induction items with
  | nil => rfl
  | cons item items ih => rw [writeItems, ih, List.map_cons]

theorem writeMembers_eq (members : List (CString × Json)) :
    writeMembers members = members.map fun m => (m.1, writeValue m.2) := by
  induction members with
  | nil => rfl
  | cons m members ih => rw [writeMembers, ih, List.map_cons]

/-- The items of an array are all in its text. -/
theorem sum_length_le_writeValue_arr (items : List Json) :
    (items.map fun item => (writeValue item).length).sum ≤ (writeValue (.arr items)).length := by
  have hsum := sum_length_le_joinCommas (writeItems items)
  rw [writeItems_eq, List.map_map] at hsum
  rw [writeValue, List.length_append, List.length_cons, writeItems_eq]
  refine hsum.trans ?_
  omega

theorem length_le_writeValue_obj {members : List (CString × Json)} {m : CString × Json}
    (hm : m ∈ members) : (writeValue m.2).length ≤ (writeValue (.obj members)).length := by
  have hmem : namedValue (m.1, writeValue m.2) ∈
      ((writeMembers members).insertionSort nameLe).map namedValue := by
    refine List.mem_map_of_mem ((List.mem_insertionSort _).mpr ?_)
    rw [writeMembers_eq]
    exact List.mem_map.mpr ⟨m, hm, rfl⟩
  have hsum := sum_length_le_joinCommas (((writeMembers members).insertionSort nameLe).map namedValue)
  have hpart := List.le_sum_of_mem
    (List.mem_map.mpr ⟨_, hmem, rfl⟩ : (namedValue (m.1, writeValue m.2)).length ∈ _)
  have hvalue : (writeValue m.2).length ≤ (namedValue (m.1, writeValue m.2)).length := by
    simp only [namedValue, List.length_append, List.length_cons]
    omega
  rw [writeValue, List.length_append, List.length_cons]
  omega

end Json
end Base
end TcMuzi
