import TcMuzi.Base.JsonWriter

/-!
# `StyledWriter`

The writer behind `toStyledString`: one member of an object and one element of an array on a
line, indented by three blanks for every level, and a short array of plain values on one line.
The writer appends to `document_`; the texts of a short array are collected in `childValues_`
first.

* A `Step` is what a function of the writer does to it.
* `Writes` is what every step keeps: no NUL, and a document that grows by the compact text at
  least.

The values that the handlers build carry no comments, and the `int`s that `isMultineArray`
computes are exact below 2^28 elements.
-/

namespace TcMuzi
namespace Base

/-- `StyledWriter`; `indentString_` by its length. -/
structure StyledWriter where
  document : List UInt8
  indentString : Nat
  childValues : List (List UInt8)
  addChildValues : Bool

namespace StyledWriter

abbrev Step := StyledWriter → StyledWriter

def rightMargin : Nat := 74

def indentSize : Nat := 3

/-! ## The writer -/

/-- `document_ += text`. -/
def append (text : List UInt8) : Step := fun w => { w with document := w.document ++ text }

def pushValue (value : List UInt8) : Step := fun w =>
  if w.addChildValues then { w with childValues := w.childValues ++ [value] } else w.append value

/-- Nothing behind a blank, and a new line unless the document is at the start of one. -/
def writeIndent : Step := fun w =>
  match w.document.getLast? with
  | none => w.append (List.replicate w.indentString 32)
  | some last =>
      if last = 32 then w
      else if last = 10 then w.append (List.replicate w.indentString 32)
      else w.append (10 :: List.replicate w.indentString 32)

def writeWithIndent (value : List UInt8) : Step := fun w => w.writeIndent.append value

def indent : Step := fun w => { w with indentString := w.indentString + indentSize }

def unindent : Step := fun w => { w with indentString := w.indentString - indentSize }

/-- One after the other, with commas between them. -/
def separated : List Step → Step
  | [] => id
  | [part] => part
  | part :: parts => fun w => separated parts ((part w).append [44])

/-- The lines between two brackets. -/
def bracketed (opening closing : UInt8) (parts : List Step) : Step := fun w =>
  (separated parts (w.writeWithIndent [opening]).indent).unindent.writeWithIndent [closing]

/-- A member with its name. -/
def writeMember (m : CString × Step) : Step := fun w =>
  m.2 ((w.writeWithIndent (Json.valueToQuotedString m.1)).append [32, 58, 32])

/-- The case `objectValue`. -/
def writeObject (members : List (CString × Step)) : Step :=
  if members = [] then pushValue [123, 125]
  else bracketed 123 125 ((members.insertionSort Json.nameLe).map writeMember)

/-- An array or an object that is not empty. -/
def isNested : Json → Bool
  | .arr (_ :: _) => true
  | .obj (_ :: _) => true
  | _ => false

/-- `isMultineArray`, with the elements as what they write and whether they are nested: the
texts of plain ones are collected to see whether they fit on a line. -/
def isMultineArray (items : List (Bool × Step)) (w : StyledWriter) : Bool × StyledWriter :=
  let w := { w with childValues := [] }
  if rightMargin ≤ items.length * 3 ∨ items.any (·.1) then (true, w)
  else
    let w := items.foldl (fun w item => item.2 w) { w with addChildValues := true }
    let lineLength := 4 + (items.length - 1) * 2 + (w.childValues.map List.length).sum
    (rightMargin ≤ lineLength, { w with addChildValues := false })

/-- The texts of a short array. -/
def joinLine : List (List UInt8) → List UInt8
  | [] => []
  | [part] => part
  | part :: parts => part ++ 44 :: 32 :: joinLine parts

def writeArrayValue (items : List (Bool × Step)) : Step := fun w =>
  if items = [] then w.pushValue [91, 93]
  else
    let (isArrayMultiLine, w) := isMultineArray items w
    if isArrayMultiLine then
      if w.childValues ≠ [] then bracketed 91 93 (w.childValues.map writeWithIndent) w
      else bracketed 91 93 (items.map fun item w => item.2 w.writeIndent) w
    else w.append ([91, 32] ++ joinLine w.childValues ++ [32, 93])

mutual

/-- `StyledWriter::writeValue`. -/
def writeValue : Json → Step
  | .null => pushValue (CString.lit "null").bytes
  | .bool true => pushValue (CString.lit "true").bytes
  | .bool false => pushValue (CString.lit "false").bytes
  | .int n => pushValue (CString.ofInt n).bytes
  | .real text _ => pushValue text.bytes
  | .str s => pushValue (Json.valueToQuotedString s)
  | .arr items => writeArrayValue (writeItems items)
  | .obj members => writeObject (writeMembers members)

def writeItems : List Json → List (Bool × Step)
  | [] => []
  | item :: items => (isNested item, writeValue item) :: writeItems items

def writeMembers : List (CString × Json) → List (CString × Step)
  | [] => []
  | (name, value) :: members => (name, writeValue value) :: writeMembers members

end

def new : StyledWriter := ⟨[], 0, [], false⟩

/-- `StyledWriter::write`. -/
def write (root : Json) : List UInt8 := ((writeValue root new).append [10]).document

end StyledWriter

def Json.toStyledString (root : Json) : List UInt8 := StyledWriter.write root

example : (Json.withCode 0 [(CString.lit "files", .arr [.obj [(CString.lit "pv", .int 5)]]),
      (CString.lit "ids", .arr [.int 1, .int 2])]).toStyledString =
    (CString.lit "\x7b\n   \"code\" : 0,\n   \"files\" : [\n      \x7b\n         \"pv\" : 5\n").bytes ++
      (CString.lit "      \x7d\n   ],\n   \"ids\" : [ 1, 2 ]\n\x7d\n").bytes := by
  decide

namespace StyledWriter

/-! ## What every step keeps -/

structure NulFree (w : StyledWriter) : Prop where
  document : (0 : UInt8) ∉ w.document
  childValues : ∀ value ∈ w.childValues, (0 : UInt8) ∉ value

/-- The step writes no NUL, and a writer that does not collect gets `n` bytes at least. -/
structure Writes (n : Nat) (f : Step) : Prop where
  nulFree : ∀ w, w.NulFree → (f w).NulFree
  keeps : ∀ w, w.addChildValues = false → (f w).addChildValues = false
  grows : ∀ w, w.addChildValues = false → w.document.length + n ≤ (f w).document.length

/-- The step only collects this text when the writer collects. -/
def Collects (text : List UInt8) (f : Step) : Prop :=
  ∀ w, w.addChildValues = true → f w = { w with childValues := w.childValues ++ [text] }

theorem Writes.comp {m n : Nat} {f g : Step} (hf : Writes m f) (hg : Writes n g) :
    Writes (m + n) fun w => g (f w) where
  nulFree w hw := hg.nulFree _ (hf.nulFree w hw)
  keeps w hw := hg.keeps _ (hf.keeps w hw)
  grows w hw := by
    have hfirst := hf.grows w hw
    have hsecond := hg.grows _ (hf.keeps w hw)
    omega

theorem Writes.mono {m n : Nat} {f : Step} (h : Writes n f) (hle : m ≤ n) : Writes m f where
  nulFree := h.nulFree
  keeps := h.keeps
  grows w hw := (Nat.add_le_add_left hle _).trans (h.grows w hw)

theorem writes_id : Writes 0 id where
  nulFree _ hw := hw
  keeps _ hw := hw
  grows _ _ := le_rfl

theorem writes_append {text : List UInt8} (h : (0 : UInt8) ∉ text) :
    Writes text.length (append text) where
  nulFree w hw := ⟨by simp [append, hw.document, h], hw.childValues⟩
  keeps _ hw := hw
  grows w _ := by simp [append]

theorem writes_pushValue {value : List UInt8} (h : (0 : UInt8) ∉ value) :
    Writes value.length (pushValue value) where
  nulFree w hw := by
    unfold pushValue
    split_ifs
    · refine ⟨hw.document, fun v hv => ?_⟩
      obtain hv | hv := List.mem_append.mp hv
      · exact hw.childValues v hv
      · rwa [List.mem_singleton.mp hv]
    · exact (writes_append h).nulFree w hw
  keeps w hw := by
    rw [pushValue, if_neg (by simp [hw])]
    exact hw
  grows w hw := by
    rw [pushValue, if_neg (by simp [hw])]
    exact (writes_append h).grows w hw

theorem collects_pushValue (value : List UInt8) : Collects value (pushValue value) :=
  fun _ hw => if_pos hw

theorem writes_writeIndent : Writes 0 writeIndent := by
  have hblanks : ∀ n : Nat, (0 : UInt8) ∉ List.replicate n 32 := by simp
  have hline : ∀ n : Nat, (0 : UInt8) ∉ 10 :: List.replicate n 32 := by simp
  have hcases : ∀ w : StyledWriter, w.writeIndent = w ∨
      w.writeIndent = w.append (List.replicate w.indentString 32) ∨
      w.writeIndent = w.append (10 :: List.replicate w.indentString 32) := by
    intro w
    unfold writeIndent
    cases w.document.getLast? with
    | none => exact .inr (.inl rfl)
    | some last =>
        dsimp only
        split_ifs
        · exact .inl rfl
        · exact .inr (.inl rfl)
        · exact .inr (.inr rfl)
  refine ⟨fun w hw => ?_, fun w hw => ?_, fun w hw => ?_⟩
  · obtain h | h | h := hcases w <;> rw [h]
    · exact hw
    · exact (writes_append (hblanks _)).nulFree w hw
    · exact (writes_append (hline _)).nulFree w hw
  · obtain h | h | h := hcases w <;> rw [h] <;> exact hw
  · obtain h | h | h := hcases w <;> rw [h]
    · exact le_rfl
    · exact (Nat.le_add_right _ _).trans ((writes_append (hblanks _)).grows w hw)
    · exact (Nat.le_add_right _ _).trans ((writes_append (hline _)).grows w hw)

theorem writes_writeWithIndent {value : List UInt8} (h : (0 : UInt8) ∉ value) :
    Writes value.length (writeWithIndent value) :=
  (writes_writeIndent.comp (writes_append h)).mono (by omega)

theorem writes_indent : Writes 0 indent where
  nulFree _ hw := ⟨hw.document, hw.childValues⟩
  keeps _ hw := hw
  grows _ _ := le_rfl

theorem writes_unindent : Writes 0 unindent where
  nulFree _ hw := ⟨hw.document, hw.childValues⟩
  keeps _ hw := hw
  grows _ _ := le_rfl

theorem writes_separated {texts : List (List UInt8)} {parts : List Step}
    (h : List.Forall₂ (fun text part => Writes text.length part) texts parts) :
    Writes (Json.joinCommas texts).length (separated parts) := by
  induction h with
  | nil => exact writes_id
  | cons hpart hparts ih =>
      cases hparts with
      | nil => exact hpart
      | cons hnext hrest =>
          have hcomma : (0 : UInt8) ∉ [44] := by decide
          refine ((hpart.comp (writes_append hcomma)).comp ih).mono ?_
          simp only [Json.joinCommas, List.length_append, List.length_cons, List.length_nil]
          omega

theorem writes_bracketed {opening closing : UInt8} (hopening : opening ≠ 0) (hclosing : closing ≠ 0)
    {texts : List (List UInt8)} {parts : List Step}
    (h : List.Forall₂ (fun text part => Writes text.length part) texts parts) :
    Writes (opening :: Json.joinCommas texts ++ [closing]).length
      (bracketed opening closing parts) := by
  have hfront : Writes [opening].length (writeWithIndent [opening]) :=
    writes_writeWithIndent (by simpa using hopening.symm)
  have hback : Writes [closing].length (writeWithIndent [closing]) :=
    writes_writeWithIndent (by simpa using hclosing.symm)
  refine ((((hfront.comp writes_indent).comp (writes_separated h)).comp writes_unindent).comp
    hback).mono ?_
  simp only [List.length_append, List.length_cons, List.length_nil]
  omega

theorem writes_writeMember {name : CString} {text : List UInt8} {f : Step}
    (h : Writes text.length f) :
    Writes (Json.namedValue (name, text)).length (writeMember (name, f)) := by
  have hcolon : (0 : UInt8) ∉ [32, 58, 32] := by decide
  refine (((writes_writeWithIndent (Json.not_nul_valueToQuotedString name)).comp
    (writes_append hcolon)).comp h).mono ?_
  simp only [Json.namedValue, List.length_append, List.length_cons, List.length_nil]
  omega

/-! ## Arrays -/

/-- The compact text of an element, and the element. -/
structure Item (text : List UInt8) (item : Bool × Step) : Prop where
  nulFree : (0 : UInt8) ∉ text
  writes : Writes text.length item.2
  collects : item.1 = false → Collects text item.2

section Arrays

variable {texts : List (List UInt8)} {items : List (Bool × Step)}

theorem nulFree_foldl (h : List.Forall₂ Item texts items) {w : StyledWriter} (hw : w.NulFree) :
    (items.foldl (fun w item => item.2 w) w).NulFree := by
  induction h generalizing w with
  | nil => exact hw
  | cons hitem _ ih => exact ih (hitem.writes.nulFree w hw)

theorem foldl_collects (h : List.Forall₂ Item texts items) (hplain : items.any (·.1) = false)
    {w : StyledWriter} (hw : w.addChildValues = true) :
    items.foldl (fun w item => item.2 w) w = { w with childValues := w.childValues ++ texts } := by
  induction h generalizing w with
  | nil => rw [List.foldl_nil, List.append_nil]
  | @cons text item _ _ hitem _ ih =>
      rw [List.any_cons, Bool.or_eq_false_iff] at hplain
      have hrest := @ih hplain.2 { w with childValues := w.childValues ++ [text] } hw
      rw [List.foldl_cons, hitem.collects hplain.1 w hw, hrest, List.append_assoc,
        List.singleton_append]

theorem nulFree_isMultineArray (h : List.Forall₂ Item texts items) {w : StyledWriter}
    (hw : w.NulFree) : (isMultineArray items w).2.NulFree := by
  have hempty : ∀ add, NulFree { w with childValues := [], addChildValues := add } :=
    fun _ => ⟨hw.document, fun _ hv => absurd hv List.not_mem_nil⟩
  unfold isMultineArray
  dsimp only
  split_ifs
  · exact ⟨hw.document, fun _ hv => absurd hv List.not_mem_nil⟩
  · have hall := nulFree_foldl h (hempty true)
    exact ⟨hall.document, hall.childValues⟩

/-- Only texts are collected, and all of them for an array on one line. -/
theorem isMultineArray_collects (h : List.Forall₂ Item texts items) {w : StyledWriter}
    (hw : w.addChildValues = false) :
    (isMultineArray items w).2.addChildValues = false ∧
      (isMultineArray items w).2.document = w.document ∧
      ((isMultineArray items w).2.childValues = texts ∨
        (isMultineArray items w).1 = true ∧ (isMultineArray items w).2.childValues = []) := by
  unfold isMultineArray
  dsimp only
  by_cases hlong : rightMargin ≤ items.length * 3 ∨ items.any (·.1) = true
  · rw [if_pos hlong]
    exact ⟨hw, rfl, .inr ⟨rfl, rfl⟩⟩
  · rw [if_neg hlong]
    have hplain : items.any (·.1) = false := by
      rw [not_or, Bool.not_eq_true] at hlong
      exact hlong.2
    rw [foldl_collects h hplain rfl]
    exact ⟨rfl, rfl, .inl rfl⟩

theorem isMultineArray_values (h : List.Forall₂ Item texts items) {w : StyledWriter}
    (hw : w.addChildValues = false) :
    (∀ value ∈ (isMultineArray items w).2.childValues, (0 : UInt8) ∉ value) ∧
      ((isMultineArray items w).2.childValues ≠ [] →
        (isMultineArray items w).2.childValues = texts) := by
  have htexts : ∀ text ∈ texts, (0 : UInt8) ∉ text := by
    clear hw
    induction h with
    | nil => exact fun _ htext => absurd htext List.not_mem_nil
    | cons hitem _ ih => exact List.forall_mem_cons.mpr ⟨hitem.nulFree, ih⟩
  obtain ⟨-, -, hall | ⟨-, hnone⟩⟩ := isMultineArray_collects h hw
  · rw [hall]
    exact ⟨htexts, fun _ => rfl⟩
  · rw [hnone]
    exact ⟨fun _ hv => absurd hv List.not_mem_nil, fun hne => absurd rfl hne⟩

theorem length_joinCommas_le_joinLine (texts : List (List UInt8)) :
    (Json.joinCommas texts).length ≤ (joinLine texts).length := by
  induction texts using joinLine.induct with
  | case1 => exact le_rfl
  | case2 part => exact le_rfl
  | case3 part parts hne ih =>
      rw [Json.joinCommas, joinLine]
      · simp only [List.length_append, List.length_cons]
        omega
      · exact hne
      · exact hne

theorem not_nul_joinLine {texts : List (List UInt8)} (h : ∀ text ∈ texts, (0 : UInt8) ∉ text) :
    (0 : UInt8) ∉ joinLine texts := by
  induction texts using joinLine.induct with
  | case1 => exact List.not_mem_nil
  | case2 part => exact h part (List.mem_singleton.mpr rfl)
  | case3 part parts hne ih =>
      have hrest := ih fun text htext => h text (List.mem_cons_of_mem _ htext)
      rw [joinLine]
      · simp [h part List.mem_cons_self, hrest]
      · exact hne

theorem writes_writeArrayValue (h : List.Forall₂ Item texts items) :
    Writes (91 :: Json.joinCommas texts ++ [93]).length (writeArrayValue items) := by
  by_cases hempty : items = []
  · subst hempty
    cases h
    rw [show writeArrayValue [] = pushValue [91, 93] from rfl]
    exact writes_pushValue (by decide)
  -- the two ways to write the lines, and the single line
  have hlines : List.Forall₂ (fun text part => Writes text.length part) texts
      (items.map fun item w => item.2 w.writeIndent) := by
    rw [List.forall₂_map_right_iff]
    refine h.imp fun text item hitem => ?_
    exact (writes_writeIndent.comp hitem.writes).mono (by omega)
  have hcollected : ∀ values : List (List UInt8), (∀ value ∈ values, (0 : UInt8) ∉ value) →
      List.Forall₂ (fun text part => Writes text.length part) values
        (values.map writeWithIndent) := by
    intro values hvalues
    rw [List.forall₂_map_right_iff, List.forall₂_same]
    exact fun value hvalue => writes_writeWithIndent (hvalues value hvalue)
  have hline : ∀ values : List (List UInt8), (∀ value ∈ values, (0 : UInt8) ∉ value) →
      (0 : UInt8) ∉ [91, 32] ++ joinLine values ++ [32, 93] := by
    intro values hvalues
    simp [not_nul_joinLine hvalues]
  have hsplit : ∀ w, writeArrayValue items w =
      if (isMultineArray items w).1 = true then
        if (isMultineArray items w).2.childValues ≠ [] then
          bracketed 91 93 ((isMultineArray items w).2.childValues.map writeWithIndent)
            (isMultineArray items w).2
        else bracketed 91 93 (items.map fun item w => item.2 w.writeIndent)
          (isMultineArray items w).2
      else (isMultineArray items w).2.append
        ([91, 32] ++ joinLine (isMultineArray items w).2.childValues ++ [32, 93]) := by
    intro w
    rw [writeArrayValue, if_neg hempty]
  refine ⟨fun w hw => ?_, fun w hw => ?_, fun w hw => ?_⟩
  · have hmulti := nulFree_isMultineArray h hw
    rw [hsplit]
    split_ifs
    · exact (writes_bracketed (by decide) (by decide)
        (hcollected _ hmulti.childValues)).nulFree _ hmulti
    · exact (writes_bracketed (by decide) (by decide) hlines).nulFree _ hmulti
    · exact (writes_append (hline _ hmulti.childValues)).nulFree _ hmulti
  · obtain ⟨hkeeps, -, -⟩ := isMultineArray_collects h hw
    obtain ⟨hvalues, -⟩ := isMultineArray_values h hw
    rw [hsplit]
    split_ifs
    · exact (writes_bracketed (by decide) (by decide) (hcollected _ hvalues)).keeps _ hkeeps
    · exact (writes_bracketed (by decide) (by decide) hlines).keeps _ hkeeps
    · exact hkeeps
  · obtain ⟨hkeeps, hdocument, hall⟩ := isMultineArray_collects h hw
    obtain ⟨hvalues, hsame⟩ := isMultineArray_values h hw
    rw [hsplit, ← hdocument]
    split_ifs with hmulti hnone
    · rw [← hsame hnone]
      exact (writes_bracketed (by decide) (by decide) (hcollected _ hvalues)).grows _ hkeeps
    · exact (writes_bracketed (by decide) (by decide) hlines).grows _ hkeeps
    · obtain hall | ⟨hlong, -⟩ := hall
      · have hle := length_joinCommas_le_joinLine texts
        rw [hall]
        simp only [append, List.length_append, List.length_cons, List.length_nil]
        omega
      · exact absurd hlong hmulti

end Arrays

/-! ## Values -/

theorem writeMembers_eq (members : List (CString × Json)) :
    writeMembers members = members.map fun m => (m.1, writeValue m.2) := by
  induction members with
  | nil => rfl
  | cons m members ih => rw [writeMembers, ih, List.map_cons]

/-- A plain value has one text for both writers. -/
theorem collects_writeValue {value : Json} (h : isNested value = false) :
    Collects (Json.writeValue value) (writeValue value) := by
  have hpush := collects_pushValue (Json.writeValue value)
  cases value with
  | null | int n | real text x | str s => exact hpush
  | bool b => cases b <;> exact hpush
  | arr items =>
      cases items with
      | nil => exact hpush
      | cons item items => cases h
  | obj members =>
      cases members with
      | nil => exact hpush
      | cons m members => cases h

mutual

theorem writes_writeValue : ∀ value : Json,
    Writes (Json.writeValue value).length (writeValue value)
  | .null | .int n | .real text x | .str s | .bool true | .bool false =>
      writes_pushValue (Json.not_nul_writeValue _)
  | .arr items => by
      rw [Json.writeValue, writeValue]
      exact writes_writeArrayValue (items_writeItems items)
  | .obj members => by
      have hmembers := writes_writeMembers members
      by_cases hempty : members = []
      · subst hempty
        exact writes_pushValue (Json.not_nul_writeValue (.obj []))
      have htexts := List.map_insertionSort (r := Json.nameLe) (s := Json.nameLe)
        (fun m : CString × Json => (m.1, Json.writeValue m.2)) members fun _ _ _ _ => Iff.rfl
      have hsteps := List.map_insertionSort (r := Json.nameLe) (s := Json.nameLe)
        (fun m : CString × Json => (m.1, writeValue m.2)) members fun _ _ _ _ => Iff.rfl
      have hsome : ¬ members.map (fun m => (m.1, writeValue m.2)) = [] := by simpa using hempty
      rw [Json.writeValue, Json.writeMembers_eq, writeValue, writeMembers_eq, writeObject,
        if_neg hsome, ← htexts, ← hsteps]
      refine writes_bracketed (by decide) (by decide) ?_
      rw [List.forall₂_map_left_iff, List.forall₂_map_left_iff, List.forall₂_map_right_iff,
        List.forall₂_map_right_iff, List.forall₂_same]
      exact fun m hm => writes_writeMember (hmembers m ((List.mem_insertionSort _).mp hm))

theorem items_writeItems : ∀ items : List Json,
    List.Forall₂ Item (Json.writeItems items) (writeItems items)
  | [] => .nil
  | item :: items =>
      .cons ⟨Json.not_nul_writeValue item, writes_writeValue item, collects_writeValue⟩
        (items_writeItems items)

theorem writes_writeMembers : ∀ members : List (CString × Json),
    ∀ m ∈ members, Writes (Json.writeValue m.2).length (writeValue m.2)
  | [], _, hm => absurd hm List.not_mem_nil
  | (name, value) :: members, m, hm => by
      obtain rfl | hm := List.mem_cons.mp hm
      · exact writes_writeValue value
      · exact writes_writeMembers members m hm

end

theorem nulFree_new : NulFree new :=
  ⟨List.not_mem_nil, fun _ hv => absurd hv List.not_mem_nil⟩

end StyledWriter

namespace Json

theorem not_nul_toStyledString (root : Json) : (0 : UInt8) ∉ root.toStyledString := by
  have hwritten := (StyledWriter.writes_writeValue root).nulFree _ StyledWriter.nulFree_new
  simpa [toStyledString, StyledWriter.write, StyledWriter.append] using hwritten.document

/-- The styled text is not shorter than the compact one. -/
theorem length_write_le_toStyledString (root : Json) :
    root.write.length ≤ root.toStyledString.length := by
  have hgrows := (StyledWriter.writes_writeValue root).grows StyledWriter.new rfl
  have hnew : StyledWriter.new.document.length = 0 := rfl
  simp only [write, toStyledString, StyledWriter.write, StyledWriter.append, List.length_append]
  omega

end Json

namespace Written

/-- The text that the writer writes. -/
def text : Written → List UInt8
  | fast root => root.write
  | styled root => root.toStyledString

theorem not_nul_text : ∀ written : Written, (0 : UInt8) ∉ written.text
  | fast root => Json.not_nul_write root
  | styled root => Json.not_nul_toStyledString root

/-- No text is shorter than the compact one of its value. -/
theorem length_write_le_text : ∀ written : Written,
    written.root.write.length ≤ written.text.length
  | fast _ => le_rfl
  | styled root => Json.length_write_le_toStyledString root

end Written

end Base
end TcMuzi
