import TcMuzi.Api.Multipart

/-!
# The round trip of an upload body

A body that a browser would send for six fields is decoded to these fields.  The separator
that `decodeMsg` looks for has one dash less than the real one: it is found behind the first
dash, except that a boundary of dashes only is found at it.
-/

namespace TcMuzi
namespace Api

open Base Lib

/-! ## The body of the fields -/

def crlf : List UInt8 := [13, 10]

/-- `Content-Disposition: form-data; name="field"` -/
def header (field : List UInt8) : List UInt8 :=
  (CString.lit "Content-Disposition: form-data; ").bytes ++ (leftFlag ++ (field ++ rightFlag))

/-- One part with the line of the boundary. -/
def encodePart (b : List UInt8) (part : Part) : List UInt8 :=
  45 :: 45 :: b ++ (crlf ++ (header part.1 ++ (crlf ++ (crlf ++ (part.2 ++ crlf)))))

def encodeMsg (b : List UInt8) (fields : List Part) : List UInt8 :=
  (fields.map (encodePart b)).flatten ++ (45 :: 45 :: b ++ [45, 45])

/-- A value that is not empty and has no line break at its ends. -/
structure Trimmed (value : List UInt8) : Prop where
  nonempty : value ≠ []
  first : ∀ c ∈ value.head?, c ≠ 13 ∧ c ≠ 10
  last : ∀ c ∈ value.getLast?, c ≠ 13 ∧ c ≠ 10

/-- A field that the boundary separates from the next. -/
structure Separable (b : List UInt8) (part : Part) : Prop where
  quoteFree : 34 ∉ part.1
  trimmed : Trimmed part.2
  header : ¬ (45 :: b) <:+: header part.1
  value : ¬ (45 :: b) <:+: part.2

/-! ## One part -/

/-- What stands between two separators: between the rest of a line with dashes and the
first dashes of the next. -/
def between (lead : List UInt8) (part : Part) (trail : List UInt8) : List UInt8 :=
  lead ++ (crlf ++ (header part.1 ++ (crlf ++ (crlf ++ (part.2 ++ (crlf ++ trail))))))

section Parts

variable {b lead trail rest : List UInt8} {part : Part}

theorem isLineBreak_of_mem_crlf {c : UInt8} (h : c ∈ crlf) : isLineBreak c = true := by
  rcases List.mem_cons.mp h with rfl | h
  · rfl
  · rcases List.mem_cons.mp h with rfl | h
    · rfl
    · cases h

theorem isLineBreak_eq_false {c : UInt8} (h : c ≠ 13 ∧ c ≠ 10) : isLineBreak c = false := by
  simp [isLineBreak, h.1, h.2]

theorem dropWhile_append_trimmed {before value : List UInt8} (hne : value ≠ [])
    (hfirst : ∀ c ∈ value.head?, c ≠ 13 ∧ c ≠ 10)
    (hbefore : ∀ c ∈ before, isLineBreak c = true) :
    (before ++ value).dropWhile isLineBreak = value := by
  rw [List.dropWhile_append_of_pos hbefore]
  obtain ⟨c, value, rfl⟩ := List.exists_cons_of_ne_nil hne
  have hc := isLineBreak_eq_false (hfirst c rfl)
  rw [List.dropWhile_cons_of_neg (by simp [hc])]

/-- The line breaks around a value go. -/
theorem strip_append {before value after : List UInt8} (hvalue : Trimmed value)
    (hbefore : ∀ c ∈ before, isLineBreak c = true) (hafter : ∀ c ∈ after, isLineBreak c = true) :
    strip (before ++ (value ++ after)) = some value := by
  obtain ⟨c, tail, htail⟩ := List.exists_cons_of_ne_nil hvalue.nonempty
  have hc := isLineBreak_eq_false (hvalue.first c (by rw [htail]; rfl))
  have hkeep : ¬ (before ++ (value ++ after)).all isLineBreak = true := by
    simp [htail, hc]
  have hfront : (before ++ (value ++ after)).dropWhile isLineBreak = value ++ after := by
    apply dropWhile_append_trimmed (List.append_ne_nil_of_left_ne_nil hvalue.nonempty after) _
      hbefore
    rw [htail]
    exact fun d hd => hvalue.first d (by rw [htail]; exact hd)
  have hback : (value ++ after).reverse.dropWhile isLineBreak = value.reverse := by
    rw [List.reverse_append]
    apply dropWhile_append_trimmed (List.reverse_ne_nil_iff.mpr hvalue.nonempty)
    · rw [List.head?_reverse]
      exact hvalue.last
    · exact fun d hd => hafter d (List.mem_reverse.mp hd)
  rw [strip, if_neg (fun h => hkeep h.2), hfront, hback, List.reverse_reverse]

/-- The last byte of a part is the dash that the separator lacks, or its line feed. -/
theorem readPart_between (hvalue : Trimmed part.2)
    (htrail : ∀ c ∈ (crlf ++ trail).dropLast, isLineBreak c = true) :
    readPart (part.1, crlf ++ (crlf ++ (part.2 ++ (crlf ++ trail)))) = some part := by
  have hne : crlf ++ trail ≠ [] := List.append_ne_nil_of_left_ne_nil (List.cons_ne_nil _ _) trail
  have hdrop : (crlf ++ (crlf ++ (part.2 ++ (crlf ++ trail)))).dropLast =
      (crlf ++ crlf) ++ (part.2 ++ (crlf ++ trail).dropLast) := by
    rw [← List.append_assoc, ← List.append_assoc, List.dropLast_append_of_ne_nil hne,
      List.append_assoc]
  have hcrlf : ∀ c ∈ crlf ++ crlf, isLineBreak c = true := by
    intro c hc
    rcases List.mem_append.mp hc with hc | hc
    · exact isLineBreak_of_mem_crlf hc
    · exact isLineBreak_of_mem_crlf hc
  have hrest : crlf ++ (crlf ++ (part.2 ++ (crlf ++ trail))) ≠ [] := List.cons_ne_nil _ _
  simp only [readPart, readValue, if_neg hrest, hdrop, strip_append hvalue hcrlf htrail,
    Option.map_some]

theorem breakOn_append {needle before : List UInt8}
    (h : Search.Clear needle before (needle ++ rest)) :
    breakOn needle (before ++ (needle ++ rest)) = some (before, needle ++ rest) := by
  rw [breakOn_eq, Search.find_append h, Search.find_of_prefix (List.prefix_append needle rest)]
  simp

/-- Nothing earlier in a header looks like a name. -/
theorem clear_disposition (rest : List UInt8) :
    Search.Clear leftFlag (CString.lit "Content-Disposition: form-data; ").bytes rest := by
  have htext : (CString.lit "Content-Disposition: form-data; ").bytes =
      [67, 111, 110, 116, 101, 110, 116, 45, 68, 105, 115, 112, 111, 115, 105, 116, 105, 111, 110,
        58, 32, 102, 111, 114, 109, 45, 100, 97, 116, 97, 59, 32] := by
    decide +kernel
  have hflag : leftFlag = [110, 97, 109, 101, 61, 34] := by decide +kernel
  rw [htext, hflag]
  simp [Search.Clear, List.cons_prefix_cons]

theorem nameOf_between (hlead : 110 ∉ lead) (hquote : 34 ∉ part.1) :
    nameOf (between lead part trail) =
      some (part.1, crlf ++ (crlf ++ (part.2 ++ (crlf ++ trail)))) := by
  have hflag : leftFlag = [110, 97, 109, 101, 61, 34] := by decide +kernel
  have hright : rightFlag = [34] := by decide +kernel
  have hbetween : between lead part trail =
      (lead ++ (crlf ++ (CString.lit "Content-Disposition: form-data; ").bytes)) ++
        (leftFlag ++ (part.1 ++ (rightFlag ++
          (crlf ++ (crlf ++ (part.2 ++ (crlf ++ trail))))))) := by
    simp only [between, header, List.append_assoc]
  have hcrlf : 110 ∉ crlf := by decide
  have hclear (rest : List UInt8) : Search.Clear leftFlag
      (lead ++ (crlf ++ (CString.lit "Content-Disposition: form-data; ").bytes)) rest := by
    refine Search.clear_append ?_ (Search.clear_append ?_ (clear_disposition rest))
    · rw [hflag]
      exact Search.clear_of_notMem hlead
    · rw [hflag]
      exact Search.clear_of_notMem hcrlf
  have hname (rest : List UInt8) : Search.Clear rightFlag part.1 rest := by
    rw [hright]
    exact Search.clear_of_notMem hquote
  rw [nameOf, hbetween, breakOn_append (hclear _)]
  simp only [List.drop_left, breakOn_append (hname _)]
  rw [hright]
  rfl

theorem clear_between (hcr : 13 ∉ b) (hlf : 10 ∉ b) (h : Separable b part)
    (hlead : ¬ (45 :: b) <:+: lead) (htrail : Search.Clear (45 :: b) trail rest) :
    Search.Clear (45 :: b) (between lead part trail) rest := by
  have hne : (45 :: b) ≠ [] := List.cons_ne_nil 45 b
  have hcr' : 13 ∉ 45 :: b := by simp [hcr]
  have hlf' : 10 ∉ 45 :: b := by simp [hlf]
  have hnil : ¬ (45 :: b) <:+: [] := by simp
  -- no occurrence reaches over a line break
  have hbreak {x y : List UInt8} (hx : ¬ (45 :: b) <:+: x) (hy : Search.Clear (45 :: b) y rest) :
      Search.Clear (45 :: b) (x ++ (crlf ++ y)) rest :=
    Search.clear_append_cons hcr' hne hx (Search.clear_append_cons (x := []) hlf' hne hnil hy)
  exact hbreak hlead (hbreak h.header (hbreak (x := []) hnil (hbreak h.value htrail)))

end Parts

/-! ## All parts -/

/-- How a line of the boundary is cut: `trail` before the separator, `lead` behind it. -/
structure Cut (b lead trail : List UInt8) : Prop where
  line : 45 :: 45 :: b = trail ++ ((45 :: b) ++ lead)
  clear : ∀ rest, Search.Clear (45 :: b) trail ((45 :: b) ++ rest)
  shortLead : ¬ (45 :: b) <:+: lead
  noName : 110 ∉ lead
  drop : ∀ c ∈ (crlf ++ trail).dropLast, isLineBreak c = true

theorem dashes_of_shift {b rest : List UInt8} (h : b <+: 45 :: (b ++ rest)) :
    ∀ c ∈ b, c = 45 := by
  induction b with
  | nil => simp
  | cons c b ih =>
      obtain ⟨rfl, hb⟩ := List.cons_prefix_cons.mp h
      exact List.forall_mem_cons.mpr ⟨rfl, ih hb⟩

/-- The separator is found behind the first dash, or at it where all is dashes. -/
theorem exists_cut {b : List UInt8} (hne : b ≠ []) : ∃ lead trail, Cut b lead trail := by
  by_cases hdashes : ∀ c ∈ b, c = 45
  · refine ⟨[45], [], ?_, fun _ => trivial, ?_, by decide,
      fun c hc => isLineBreak_of_mem_crlf (List.mem_of_mem_dropLast hc)⟩
    · have hb : b = List.replicate b.length 45 := List.eq_replicate_iff.mpr ⟨rfl, hdashes⟩
      rw [hb]
      simp [← List.replicate_succ', List.replicate_succ]
    · intro h
      have hle := h.length_le
      have hpos := List.length_pos_iff.mpr hne
      simp only [List.length_cons, List.length_nil] at hle
      omega
  · refine ⟨[], [45], by simp, fun rest => ⟨?_, trivial⟩, by simp, by decide,
      fun c hc => isLineBreak_of_mem_crlf hc⟩
    intro h
    exact hdashes (dashes_of_shift (List.cons_prefix_cons.mp h).2)

section Message

variable {b lead trail : List UInt8}

/-- What follows the dashes and the boundary. -/
def afterLine (b : List UInt8) : List Part → List UInt8
  | [] => [45, 45]
  | part :: fields =>
      crlf ++ (header part.1 ++ (crlf ++ (crlf ++ (part.2 ++ (crlf ++ encodeMsg b fields)))))

theorem encodeMsg_eq (b : List UInt8) (fields : List Part) :
    encodeMsg b fields = 45 :: 45 :: b ++ afterLine b fields := by
  cases fields with
  | nil => rfl
  | cons part fields =>
      simp only [encodeMsg, List.map_cons, List.flatten_cons, encodePart, afterLine,
        List.append_assoc, List.cons_append]

theorem encodeMsg_of_cut (h : Cut b lead trail) (fields : List Part) :
    encodeMsg b fields = trail ++ ((45 :: b) ++ (lead ++ afterLine b fields)) := by
  rw [encodeMsg_eq, h.line, List.append_assoc, List.append_assoc]

theorem afterLine_cons (h : Cut b lead trail) (part : Part) (fields : List Part) :
    lead ++ afterLine b (part :: fields) =
      between lead part trail ++ ((45 :: b) ++ (lead ++ afterLine b fields)) := by
  rw [afterLine, encodeMsg_of_cut h]
  simp only [between, List.append_assoc]

/-- No name in what follows the last boundary. -/
theorem namedOf_pieces_dashes {split text : List UInt8} {fuel : Nat} (h : 110 ∉ text) :
    namedOf (Search.pieces split fuel text) = [] := by
  cases fuel with
  | zero => rfl
  | succ fuel =>
      rw [Search.pieces]
      cases Search.find split text with
      | none => rfl
      | some found =>
          have hnone : nameOf (text.take (text.length - found.length)) = none := by
            rw [nameOf, breakOn_eq, Search.find_eq_none_iff.mpr]
            · rfl
            · intro hoccurs
              refine h (List.take_subset _ _ (hoccurs.subset ?_))
              decide +kernel
          simp only [namedOf, hnone]

theorem namedOf_pieces (h : Cut b lead trail) (hcr : 13 ∉ b) (hlf : 10 ∉ b)
    {fields : List Part} (hfields : ∀ part ∈ fields, Separable b part) {fuel : Nat}
    (hfuel : fields.length < fuel) :
    namedOf (Search.pieces (45 :: b) fuel (lead ++ afterLine b fields)) =
      fields.map fun part => (part.1, crlf ++ (crlf ++ (part.2 ++ (crlf ++ trail)))) := by
  induction fields generalizing fuel with
  | nil =>
      apply namedOf_pieces_dashes
      have := h.noName
      simp [afterLine, this]
  | cons part fields ih =>
      obtain ⟨hpart, hrest⟩ := List.forall_mem_cons.mp hfields
      rw [List.length_cons] at hfuel
      obtain ⟨fuel, rfl⟩ : ∃ k, fuel = k + 1 := ⟨fuel - 1, by omega⟩
      have hclear := clear_between hcr hlf hpart h.shortLead
        (h.clear (lead ++ afterLine b fields))
      rw [afterLine_cons h, Search.pieces_append hclear]
      simp only [namedOf, nameOf_between h.noName hpart.quoteFree, List.map_cons]
      rw [ih hrest (by omega)]

theorem mapM_readPart (h : Cut b lead trail) {fields : List Part}
    (hfields : ∀ part ∈ fields, Trimmed part.2) :
    (fields.map fun part => (part.1, crlf ++ (crlf ++ (part.2 ++ (crlf ++ trail))))).mapM
      readPart = some fields := by
  induction fields with
  | nil => rfl
  | cons part fields ih =>
      obtain ⟨hpart, hrest⟩ := List.forall_mem_cons.mp hfields
      rw [List.map_cons, List.mapM_cons, readPart_between hpart h.drop, ih hrest]
      rfl

theorem length_le_afterLine (b : List UInt8) (fields : List Part) :
    fields.length ≤ (afterLine b fields).length := by
  induction fields with
  | nil => simp
  | cons part fields ih =>
      rw [afterLine, encodeMsg_eq]
      simp only [List.length_append, List.length_cons]
      omega

theorem decodeMsg_encodeMsg {b : List UInt8} {fields : List Part} (hcr : 13 ∉ b) (hlf : 10 ∉ b)
    (hfields : ∀ part ∈ fields, Separable b part) (hne : fields ≠ []) :
    decodeMsg (encodeMsg b fields) (45 :: b) = some fields := by
  have hb : b ≠ [] := by
    rintro rfl
    obtain ⟨part, rest, rfl⟩ := List.exists_cons_of_ne_nil hne
    refine (hfields part List.mem_cons_self).header ((List.singleton_infix_iff ..).mpr ?_)
    exact List.mem_append_left _ (by decide +kernel)
  obtain ⟨lead, trail, hcut⟩ := exists_cut hb
  have hparts : partsOf (encodeMsg b fields) (45 :: b) =
      Search.pieces (45 :: b) (((45 :: b) ++ (lead ++ afterLine b fields)).length + 1)
        (lead ++ afterLine b fields) := by
    rw [partsOf, encodeMsg_of_cut hcut, Search.find_append (hcut.clear _),
      Search.find_of_prefix (List.prefix_append _ _)]
    simp only [List.drop_left]
  have hfuel : fields.length < ((45 :: b) ++ (lead ++ afterLine b fields)).length + 1 := by
    have hle := length_le_afterLine b fields
    simp only [List.length_append]
    omega
  have hnamed := namedOf_pieces hcut hcr hlf hfields hfuel
  rw [decodeMsg_eq, named, hparts, hnamed]
  exact mapM_readPart hcut fun part hpart => (hfields part hpart).trimmed

/-- What the map of an `UploadMsg` holds for a name: the value of its last part. -/
def msgOf (parts : List Part) (field : List UInt8) : Option (List UInt8) :=
  (parts.reverse.find? fun part => part.1 = field).map Prod.snd

theorem uploadField_eq (parts : List Part) (field : String) :
    uploadField parts field =
      ((msgOf parts (CString.lit field).bytes).map CString.cStr).getD CString.empty := by
  rw [uploadField, msgOf]
  cases parts.reverse.find? fun part => part.1 = (CString.lit field).bytes <;> rfl

theorem msgOf_eq_some_iff {parts : List Part} (hdistinct : (parts.map Prod.fst).Nodup)
    (field value : List UInt8) : msgOf parts field = some value ↔ (field, value) ∈ parts := by
  rw [msgOf, Option.map_eq_some_iff]
  constructor
  · rintro ⟨part, hfind, rfl⟩
    obtain rfl : part.1 = field := by simpa using List.find?_some hfind
    exact List.mem_reverse.mp (List.mem_of_find?_eq_some hfind)
  · intro hmem
    have hsome : (parts.reverse.find? fun part => part.1 = field).isSome :=
      List.find?_isSome.mpr ⟨(field, value), List.mem_reverse.mpr hmem, by simp⟩
    obtain ⟨part, hfind⟩ := Option.isSome_iff_exists.mp hsome
    have hpart := List.mem_reverse.mp (List.mem_of_find?_eq_some hfind)
    have hname : part.1 = field := by simpa using List.find?_some hfind
    obtain rfl := List.inj_on_of_nodup_map hdistinct hpart hmem hname
    exact ⟨(field, value), hfind, rfl⟩

/-- `decodeMsg` gives back the fields of an encoded body. -/
theorem decodeMsg_roundTrip {b : List UInt8} {fields : List Part} (hcr : 13 ∉ b) (hlf : 10 ∉ b)
    (hlength : fields.length = 6) (hdistinct : (fields.map Prod.fst).Nodup)
    (hfields : ∀ part ∈ fields, Separable b part) :
    ∃ parts, decodeMsg (encodeMsg b fields) (45 :: b) = some parts ∧ parsedRet parts = 0 ∧
      ∀ field value, msgOf parts field = some value ↔ (field, value) ∈ fields := by
  have hne : fields ≠ [] := List.length_pos_iff.mp (by omega)
  refine ⟨fields, decodeMsg_encodeMsg hcr hlf hfields hne, ?_, msgOf_eq_some_iff hdistinct⟩
  rw [parsedRet, if_neg (by rw [hlength]; decide)]

end Message

/-- Quotes, a name and a dash with half a boundary in the values. -/
def sampleFields : List Part :=
  [("user", "a\"b"), ("file_name", "name=\"x\""), ("file_path", "-X-"), ("file_md5", "-"),
    ("file_size", "1"), ("file_content_type", "t/x")].map
    fun (field, value) => ((CString.lit field).bytes, (CString.lit value).bytes)

theorem separable_sampleFields : ∀ part ∈ sampleFields, Separable [88, 89] part := by
  have hall : ∀ part ∈ sampleFields, 34 ∉ part.1 ∧ part.2 ≠ [] ∧
      (∀ c ∈ part.2.head?, c ≠ 13 ∧ c ≠ 10) ∧ (∀ c ∈ part.2.getLast?, c ≠ 13 ∧ c ≠ 10) ∧
      ¬ [45, 88, 89] <:+: header part.1 ∧ ¬ [45, 88, 89] <:+: part.2 := by
    decide +kernel
  intro part hpart
  obtain ⟨hquote, hne, hfirst, hlast, hheader, hvalue⟩ := hall part hpart
  exact ⟨hquote, ⟨hne, hfirst, hlast⟩, hheader, hvalue⟩

theorem decodeMsg_roundTrip_sample :
    ∃ parts, decodeMsg (encodeMsg [88, 89] sampleFields) [45, 88, 89] = some parts ∧
      parsedRet parts = 0 ∧
      ∀ field value, msgOf parts field = some value ↔ (field, value) ∈ sampleFields :=
  decodeMsg_roundTrip (by decide) (by decide) rfl (by decide +kernel) separable_sampleFields

end Api
end TcMuzi
