import TcMuzi.Base.CString

/-!
# `ReplaceMark`

The two overloads of `util.cc`.  A call looks for a `?` from `begin_pos` on, and leaves
`begin_pos` behind the value that it puts in its place.  So the string is at all times an edited
part, which ends at `begin_pos`, in front of a part of the template that no call has looked at.
-/

namespace TcMuzi
namespace Base

/-- `'?'`. -/
def mark : UInt8 := 63

/-- `'\''`. -/
def quote : UInt8 := 39

/-- The two arguments that are passed by reference. -/
structure Edit where
  str : List UInt8
  beginPos : UInt32
deriving DecidableEq

namespace Edit

/-- `str.find('?', begin_pos)`. -/
def findMark (e : Edit) : Option Nat :=
  ((e.str.drop e.beginPos.toNat).idxOf? mark).map (e.beginPos.toNat + ·)

/-- What both overloads do with the text of the value; `begin_pos` is a `uint32_t`. -/
def replace (text : List UInt8) (e : Edit) : Edit :=
  match e.findMark with
  | none => e
  | some pos =>
      -- `str.replace(pos, 1, text)`
      { str := e.str.take pos ++ text ++ e.str.drop (pos + 1)
        beginPos := UInt32.ofNat (pos + text.length) }

end Edit

/-- `prime_new_value`. -/
def primeNewValue (newValue : List UInt8) : List UInt8 := quote :: newValue ++ [quote]

/-- `ReplaceMark(string &str, string &new_value, uint32_t &begin_pos)`. -/
def replaceMarkString (newValue : List UInt8) (e : Edit) : Edit := e.replace (primeNewValue newValue)

/-- `ReplaceMark(string &str, uint32_t new_value, uint32_t &begin_pos)`. -/
def replaceMarkUint (newValue : UInt32) (e : Edit) : Edit :=
  e.replace (Lib.Decimal.ofNat newValue.toNat)

/-- An argument of one of the overloads. -/
inductive MarkValue
  | string (newValue : List UInt8)
  | uint (newValue : UInt32)

namespace MarkValue

/-- A call with the value. -/
def call : MarkValue → Edit → Edit
  | .string newValue => replaceMarkString newValue
  | .uint newValue => replaceMarkUint newValue

/-- What is put in the place of a mark. -/
def text : MarkValue → List UInt8
  | .string newValue => primeNewValue newValue
  | .uint newValue => Lib.Decimal.ofNat newValue.toNat

end MarkValue

/-- One call for each value. -/
def replaceMarks (values : List MarkValue) (e : Edit) : Edit := values.foldl (fun e v => v.call e) e

/-! ## The template with its marks replaced -/

/-- The marks of a template are replaced by texts in their order; a mark for which there is no
text stays. -/
def fill : List UInt8 → List (List UInt8) → List UInt8
  | template, [] => template
  | [], _ => []
  | b :: template, text :: texts =>
      if b = mark then text ++ fill template texts else b :: fill template (text :: texts)

section Fill

variable {template before after : List UInt8} {texts : List (List UInt8)}

theorem fill_nil (texts : List (List UInt8)) : fill [] texts = [] := by
  cases texts <;> rfl

theorem fill_of_no_texts (template : List UInt8) : fill template [] = template := by
  cases template <;> rfl

/-- Without a mark nothing is replaced. -/
theorem fill_of_notMem (h : mark ∉ template) (texts : List (List UInt8)) :
    fill template texts = template := by
  induction template with
  | nil => exact fill_nil texts
  | cons b template ih =>
      rw [List.mem_cons, not_or] at h
      cases texts with
      | nil => rfl
      | cons text texts => rw [fill, if_neg (Ne.symm h.1), ih h.2]

/-- The first text is put in the place of the first mark. -/
theorem fill_append (h : mark ∉ before) (text : List UInt8) (texts : List (List UInt8)) :
    fill (before ++ mark :: after) (text :: texts) = before ++ text ++ fill after texts := by
  induction before with
  | nil => rw [List.nil_append, fill, if_pos rfl, List.nil_append]
  | cons b before ih =>
      rw [List.mem_cons, not_or] at h
      rw [List.cons_append, fill, if_neg (Ne.symm h.1), ih h.2]
      rfl

/-- The text in front of the first mark and behind it, if there is one. -/
theorem notMem_or_split (template : List UInt8) : mark ∉ template ∨
    ∃ before after, template = before ++ mark :: after ∧ mark ∉ before := by
  by_cases h : mark ∈ template
  · obtain ⟨before, after, htemplate, hbefore⟩ := List.eq_append_cons_of_mem h
    exact Or.inr ⟨before, after, htemplate, hbefore⟩
  · exact Or.inl h

end Fill

/-! ## The calls -/

theorem idxOf?_append {before : List UInt8} (h : mark ∉ before) (after : List UInt8) :
    (before ++ mark :: after).idxOf? mark = some before.length := by
  induction before with
  | nil => simp [List.idxOf?_cons]
  | cons b before ih =>
      rw [List.mem_cons, not_or] at h
      have hb : (b == mark) = false := by simpa using Ne.symm h.1
      rw [List.cons_append, List.idxOf?_cons, hb, ih h.2]
      rfl

theorem MarkValue.call_eq (v : MarkValue) (e : Edit) : v.call e = e.replace v.text := by
  cases v <;> rfl

namespace Edit

/-- An edited part, and behind `begin_pos` a rest of the template. -/
structure Split (e : Edit) (done rest : List UInt8) : Prop where
  str : e.str = done ++ rest
  beginPos : e.beginPos.toNat = done.length

variable {e : Edit} {done rest before after text : List UInt8}

theorem Split.findMark_eq (h : e.Split done rest) :
    e.findMark = (rest.idxOf? mark).map (done.length + ·) := by
  rw [findMark, h.str, h.beginPos, List.drop_left]

/-- A rest without a mark is left alone. -/
theorem Split.replace_eq_self (h : e.Split done rest) (hrest : mark ∉ rest) (text : List UInt8) :
    e.replace text = e := by
  have hfind : e.findMark = none := by
    rw [h.findMark_eq, List.idxOf?_eq_none_iff.mpr hrest]
    rfl
  rw [replace, hfind]

/-- The first mark of the rest is replaced, and what is put there belongs to the edited part. -/
theorem Split.replace (h : e.Split done (before ++ mark :: after)) (hbefore : mark ∉ before)
    (hsize : (done ++ before ++ text).length < 4294967296) :
    (e.replace text).Split (done ++ before ++ text) after := by
  have hfind : e.findMark = some (done ++ before).length := by
    rw [h.findMark_eq, idxOf?_append hbefore, Option.map_some, List.length_append]
  have hstr : e.str = done ++ before ++ (mark :: after) := by
    rw [h.str, List.append_assoc]
  rw [Edit.replace, hfind]
  constructor
  · show e.str.take _ ++ text ++ e.str.drop _ = _
    rw [hstr, List.take_left, ← List.drop_drop, List.drop_left]
    rfl
  · show (UInt32.ofNat ((done ++ before).length + text.length)).toNat = _
    rw [← List.length_append, UInt32.toNat_ofNat', Nat.mod_eq_of_lt hsize]

theorem Split.replaceMarks_eq_self (h : e.Split done rest) (hrest : mark ∉ rest)
    (values : List MarkValue) : replaceMarks values e = e := by
  induction values with
  | nil => rfl
  | cons v values ih =>
      rw [replaceMarks, List.foldl_cons, v.call_eq, h.replace_eq_self hrest, ← replaceMarks, ih]

/-- Some calls turn as many marks of the rest into edited text; `more` is still to come. -/
theorem Split.replaceMarks {values more : List MarkValue} (h : e.Split done rest)
    (hsize : (done ++ fill rest ((values ++ more).map MarkValue.text)).length < 4294967296) :
    ∃ done' rest', (replaceMarks values e).Split done' rest' ∧
      done' ++ rest' = done ++ fill rest (values.map MarkValue.text) ∧
      rest'.count mark = rest.count mark - values.length := by
  induction values generalizing e done rest with
  | nil => exact ⟨done, rest, h, by rw [List.map_nil, fill_of_no_texts], rfl⟩
  | cons v values ih =>
      obtain hnone | ⟨before, after, rfl, hbefore⟩ := notMem_or_split rest
      · refine ⟨done, rest, ?_, by rw [fill_of_notMem hnone], ?_⟩
        · rw [h.replaceMarks_eq_self hnone]
          exact h
        · rw [List.count_eq_zero.mpr hnone, Nat.zero_sub]
      · -- the value is inserted, and the next call starts behind it
        rw [List.cons_append, List.map_cons, fill_append hbefore, ← List.append_assoc,
          ← List.append_assoc] at hsize
        have hshort : (done ++ before ++ v.text).length < 4294967296 := by
          rw [List.length_append] at hsize
          omega
        obtain ⟨done', rest', hsplit, hstr, hcount⟩ := ih (h.replace hbefore hshort) hsize
        refine ⟨done', rest', ?_, ?_, ?_⟩
        · rwa [Base.replaceMarks, List.foldl_cons, v.call_eq]
        · rw [hstr, List.map_cons, fill_append hbefore, ← List.append_assoc, ← List.append_assoc]
        · rw [hcount, List.count_append, List.count_cons_self, List.count_eq_zero.mpr hbefore,
            List.length_cons]
          omega

end Edit

/-- After every call, as many marks of the template are replaced as there were values, in their
order; once all are, further calls change nothing. -/
theorem replaceMarks_eq_fill {template : List UInt8} {values : List MarkValue}
    (hcount : values.length = template.count mark)
    (hsize : (fill template (values.map MarkValue.text)).length < 4294967296) :
    (∀ k, (replaceMarks (values.take k) ⟨template, 0⟩).str =
        fill template ((values.take k).map MarkValue.text)) ∧
      ∀ more, replaceMarks (values ++ more) ⟨template, 0⟩ = replaceMarks values ⟨template, 0⟩ := by
  have hstart : (Edit.mk template 0).Split [] template := ⟨rfl, rfl⟩
  constructor
  · intro k
    have hk : ([] ++ fill template ((values.take k ++ values.drop k).map MarkValue.text)).length <
        4294967296 := by
      rwa [List.take_append_drop]
    obtain ⟨done, rest, hsplit, hstr, _⟩ := hstart.replaceMarks hk
    rw [hsplit.str, hstr, List.nil_append]
  · intro more
    have hall : ([] ++ fill template ((values ++ []).map MarkValue.text)).length <
        4294967296 := by
      rwa [List.append_nil]
    obtain ⟨done, rest, hsplit, _, hrest⟩ := hstart.replaceMarks hall
    rw [replaceMarks, List.foldl_append, ← replaceMarks, ← replaceMarks]
    refine hsplit.replaceMarks_eq_self (List.count_eq_zero.mp ?_) more
    rw [hrest, hcount, Nat.sub_self]

/-- A value with a mark in front of a second mark. -/
theorem replaceMarks_eq_fill_question :
    (∀ k, (replaceMarks ([.string (CString.lit "x?").bytes, .uint 7].take k)
        ⟨(CString.lit "a=? and b=?").bytes, 0⟩).str =
        fill (CString.lit "a=? and b=?").bytes
          (([MarkValue.string (CString.lit "x?").bytes, .uint 7].take k).map MarkValue.text)) ∧
      ∀ more, replaceMarks ([.string (CString.lit "x?").bytes, .uint 7] ++ more)
          ⟨(CString.lit "a=? and b=?").bytes, 0⟩ =
        replaceMarks [.string (CString.lit "x?").bytes, .uint 7]
          ⟨(CString.lit "a=? and b=?").bytes, 0⟩ :=
  replaceMarks_eq_fill (by decide +kernel) (by decide +kernel)

example :
    (replaceMarks [.string (CString.lit "x?").bytes, .uint 7]
      ⟨(CString.lit "a=? and b=?").bytes, 0⟩).str = (CString.lit "a='x?' and b=7").bytes := by
  decide +kernel

end Base
end TcMuzi
