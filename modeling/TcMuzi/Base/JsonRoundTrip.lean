import TcMuzi.Base.JsonRuns

/-!
# What is written is read back

`FastWriter` and the reader: `Json.stored` is a value with the members of every object in the
order of `std::map`, as the object holds them after one assignment after the other.

* `exists_doc`: what the writer yields is the text of a document.
* `parse_write`: the reader finds the stored value in it.
* `parse_everywhere`: everything that is read has integers of 64 bits and ordered members, so
  `parse_write_parse`: a value that was read survives being written and read again.
-/

namespace TcMuzi
namespace Base

open Lib (SortedMap.setAll)

namespace Json

mutual

/-- The value with the members of its objects as `std::map` holds them. -/
def stored : Json → Json
  | null => null
  | bool b => bool b
  | int n => int n
  | real text x => real text x
  | str s => str s
  | arr items => arr (storedItems items)
  | obj members => obj (storedMembers members [])

def storedItems : List Json → List Json
  | [] => []
  | item :: items => item.stored :: storedItems items

def storedMembers : List (CString × Json) → List (CString × Json) → List (CString × Json)
  | [], done => done
  | (name, value) :: members, done =>
      storedMembers members (Reader.setMember name value.stored done)

end

mutual

/-- The value and all values inside it. -/
def Everywhere (p : Json → Prop) : Json → Prop
  | null => p null
  | bool b => p (bool b)
  | int n => p (int n)
  | real text x => p (real text x)
  | str s => p (str s)
  | arr items => p (arr items) ∧ EverywhereItems p items
  | obj members => p (obj members) ∧ EverywhereMembers p members

def EverywhereItems (p : Json → Prop) : List Json → Prop
  | [] => True
  | item :: items => Everywhere p item ∧ EverywhereItems p items

def EverywhereMembers (p : Json → Prop) : List (CString × Json) → Prop
  | [] => True
  | (_, value) :: members => Everywhere p value ∧ EverywhereMembers p members

end

/-- An integer is one of `Int64` or `UInt64`. -/
def Sized : Json → Prop
  | int n => -9223372036854775808 ≤ n ∧ n ≤ 18446744073709551615
  | _ => True

/-- No two members have one name. -/
def Distinct : Json → Prop
  | obj members => (members.map Prod.fst).Nodup
  | _ => True

/-- The members stand in the order of `std::map`. -/
def Ordered : Json → Prop
  | obj members => Lib.SortedMap.Sorted Reader.nameOrder members
  | _ => True

/-- No `double`, whose text need not be read as it was written. -/
def NotReal : Json → Prop
  | real _ _ => False
  | _ => True

theorem everywhereItems_iff {p : Json → Prop} {items : List Json} :
    EverywhereItems p items ↔ ∀ item ∈ items, Everywhere p item := by
  induction items with
  | nil => simp [EverywhereItems]
  | cons item items ih => simp [EverywhereItems, ih]

theorem everywhereMembers_iff {p : Json → Prop} {members : List (CString × Json)} :
    EverywhereMembers p members ↔ ∀ m ∈ members, Everywhere p m.2 := by
  induction members with
  | nil => simp [EverywhereMembers]
  | cons m members ih => simp [EverywhereMembers, ih]

mutual

theorem Everywhere.imp {p q : Json → Prop} (h : ∀ v, p v → q v) :
    ∀ {v : Json}, v.Everywhere p → v.Everywhere q
  | null, hv => h _ hv
  | bool _, hv => h _ hv
  | int _, hv => h _ hv
  | real _ _, hv => h _ hv
  | str _, hv => h _ hv
  | arr _, hv => ⟨h _ hv.1, EverywhereItems.imp h hv.2⟩
  | obj _, hv => ⟨h _ hv.1, EverywhereMembers.imp h hv.2⟩

theorem EverywhereItems.imp {p q : Json → Prop} (h : ∀ v, p v → q v) :
    ∀ {items : List Json}, EverywhereItems p items → EverywhereItems q items
  | [], _ => trivial
  | _ :: _, hv => ⟨Everywhere.imp h hv.1, EverywhereItems.imp h hv.2⟩

theorem EverywhereMembers.imp {p q : Json → Prop} (h : ∀ v, p v → q v) :
    ∀ {members : List (CString × Json)}, EverywhereMembers p members → EverywhereMembers q members
  | [], _ => trivial
  | (_, _) :: _, hv => ⟨Everywhere.imp h hv.1, EverywhereMembers.imp h hv.2⟩

end

mutual

theorem Everywhere.and {p q : Json → Prop} :
    ∀ {v : Json}, v.Everywhere p → v.Everywhere q → v.Everywhere fun u => p u ∧ q u
  | null, hp, hq => ⟨hp, hq⟩
  | bool _, hp, hq => ⟨hp, hq⟩
  | int _, hp, hq => ⟨hp, hq⟩
  | real _ _, hp, hq => ⟨hp, hq⟩
  | str _, hp, hq => ⟨hp, hq⟩
  | arr _, hp, hq => ⟨⟨hp.1, hq.1⟩, EverywhereItems.and hp.2 hq.2⟩
  | obj _, hp, hq => ⟨⟨hp.1, hq.1⟩, EverywhereMembers.and hp.2 hq.2⟩

theorem EverywhereItems.and {p q : Json → Prop} :
    ∀ {items : List Json}, EverywhereItems p items → EverywhereItems q items →
      EverywhereItems (fun u => p u ∧ q u) items
  | [], _, _ => trivial
  | _ :: _, hp, hq => ⟨Everywhere.and hp.1 hq.1, EverywhereItems.and hp.2 hq.2⟩

theorem EverywhereMembers.and {p q : Json → Prop} :
    ∀ {members : List (CString × Json)}, EverywhereMembers p members →
      EverywhereMembers q members → EverywhereMembers (fun u => p u ∧ q u) members
  | [], _, _ => trivial
  | (_, _) :: _, hp, hq => ⟨Everywhere.and hp.1 hq.1, EverywhereMembers.and hp.2 hq.2⟩

end

theorem storedItems_eq (items : List Json) : storedItems items = items.map stored := by
  induction items with
  | nil => rfl
  | cons item items ih => rw [storedItems, ih, List.map_cons]

theorem storedMembers_eq (members done : List (CString × Json)) :
    storedMembers members done =
      SortedMap.setAll Reader.nameOrder (members.map fun m => (m.1, m.2.stored)) done := by
  induction members generalizing done with
  | nil => rfl
  | cons m members ih => rw [storedMembers, ih]; rfl

end Json

namespace Reader

variable {sscanf : Sscanf}

/-! ## The writer yields documents -/

/-- The decimal form of an integer. -/
def Numeral.ofInt : Int → Numeral
  | .ofNat n => ⟨false, Lib.Decimal.ofNat n, by simp [Lib.Decimal.ofNat], fun _ => Lib.Decimal.isDigit_of_mem_ofNat⟩
  | .negSucc n =>
      ⟨true, Lib.Decimal.ofNat (n + 1), by simp [Lib.Decimal.ofNat], fun _ => Lib.Decimal.isDigit_of_mem_ofNat⟩

theorem Numeral.text_ofInt (n : Int) : (Numeral.ofInt n).text = (CString.ofInt n).bytes := by
  cases n <;> rfl

theorem Numeral.value_ofInt (n : Int) : (Numeral.ofInt n).value = n := by
  cases n with
  | ofNat n => exact congrArg Int.ofNat (Lib.Decimal.natValue_ofNat n)
  | negSucc n =>
      show -((Lib.Decimal.natValue (Lib.Decimal.ofNat (n + 1)) : Nat) : Int) = Int.negSucc n
      rw [Lib.Decimal.natValue_ofNat]
      rfl

theorem Numeral.fits_ofInt {n : Int} (h : (Json.int n).Sized) : (Numeral.ofInt n).Fits := by
  obtain ⟨hlo, hhi⟩ := h
  cases n with
  | ofNat n =>
      show Lib.Decimal.natValue (Lib.Decimal.ofNat n) ≤ 18446744073709551615
      rw [Lib.Decimal.natValue_ofNat]
      simp only [Int.ofNat_eq_natCast] at hhi
      omega
  | negSucc n =>
      show Lib.Decimal.natValue (Lib.Decimal.ofNat (n + 1)) ≤ 9223372036854775808
      rw [Lib.Decimal.natValue_ofNat]
      omega

/-- A byte as the writer quotes it. -/
theorem exists_piece (b : UInt8) :
    ∃ p : Piece, p.text = Json.quoteByte b ∧ p.bytes = [b] := by
  rw [Json.quoteByte]
  split_ifs with h34 h92 h8 h12 h10 h13 h9 hcontrol
  · exact ⟨.short 34 34 rfl, rfl, by rw [h34]; rfl⟩
  · exact ⟨.short 92 92 rfl, rfl, by rw [h92]; rfl⟩
  · exact ⟨.short 98 8 rfl, rfl, by rw [h8]; rfl⟩
  · exact ⟨.short 102 12 rfl, rfl, by rw [h12]; rfl⟩
  · exact ⟨.short 110 10 rfl, rfl, by rw [h10]; rfl⟩
  · exact ⟨.short 114 13 rfl, rfl, by rw [h13]; rfl⟩
  · exact ⟨.short 116 9 rfl, rfl, by rw [h9]; rfl⟩
  · have hlt : b.toNat < 32 := by
      have hle := UInt8.le_iff_toNat_le.mp hcontrol.2
      have h31 : (31 : UInt8).toNat = 31 := rfl
      omega
    have hchar : (Char.ofNat b.toNat).toNat = b.toNat := by
      have hvalid : b.toNat.isValidChar := .inl (by omega)
      rw [Char.ofNat, dif_pos hvalid]
      rfl
    refine ⟨.unicode (Char.ofNat b.toNat) true, ?_, ?_⟩
    · have hhigh : b.toNat / 4096 % 16 = 0 ∧ b.toNat / 256 % 16 = 0 ∧
          b.toNat / 16 % 16 = b.toNat / 16 := by omega
      rw [Piece.text, hchar, if_pos (by omega), hexFour, hhigh.1, hhigh.2.1, hhigh.2.2]
      simp only [hexByte, Json.hexDigit, if_true]
      rfl
    · rw [Piece.bytes, ← codePointToUTF8_toNat, hchar, codePointToUTF8, if_pos (by omega),
        UInt8.ofNat_toNat]
  · exact ⟨.raw b ⟨h34, h92⟩, rfl, rfl⟩

theorem exists_pieces (s : CString) :
    ∃ pieces : List Piece, quoted pieces = Json.valueToQuotedString s ∧
      content pieces = s.bytes := by
  obtain ⟨bytes, hnul⟩ := s
  have hpieces : ∃ pieces : List Piece, pieces.flatMap Piece.text = bytes.flatMap Json.quoteByte ∧
      content pieces = bytes := by
    induction bytes with
    | nil => exact ⟨[], rfl, rfl⟩
    | cons b bytes ih =>
        rw [List.mem_cons, not_or] at hnul
        obtain ⟨pieces, htext, hbytes⟩ := ih hnul.2
        obtain ⟨p, hptext, hpbytes⟩ := exists_piece b
        refine ⟨p :: pieces, by rw [List.flatMap_cons, List.flatMap_cons, hptext, htext], ?_⟩
        rw [content, List.flatMap_cons, hpbytes, ← content, hbytes]
        rfl
  obtain ⟨pieces, htext, hbytes⟩ := hpieces
  exact ⟨pieces, by rw [quoted, htext]; rfl, hbytes⟩

/-- What the writer writes without loss. -/
def Writable (v : Json) : Prop := v.Everywhere fun u => u.Sized ∧ u.Distinct ∧ u.NotReal

/-- A member with no blanks in it. -/
def Layout.compact (name : List Piece) : Layout :=
  ⟨Blank.none, name, Blank.none, Blank.none, Blank.none⟩

/-- Documents for the values of some members make documents for the members. -/
theorem exists_memberDocs {members : List (CString × Json)}
    (h : ∀ m ∈ members, ∃ d : Doc sscanf, d.text = Json.writeValue m.2 ∧ d.value = m.2.stored) :
    ∃ docs : List (Layout × Doc sscanf),
      Doc.memberTexts docs = (Json.writeMembers members).map Json.namedValue ∧
      ∀ done, Doc.memberValues docs done = Json.storedMembers members done := by
  induction members with
  | nil => exact ⟨[], rfl, fun _ => rfl⟩
  | cons m members ih =>
      obtain ⟨docs, htexts, hvalues⟩ := ih fun m' hm' => h m' (List.mem_cons_of_mem m hm')
      obtain ⟨d, htext, hvalue⟩ := h m List.mem_cons_self
      obtain ⟨pieces, hquoted, hcontent⟩ := exists_pieces m.1
      refine ⟨(Layout.compact pieces, d) :: docs, ?_, fun done => ?_⟩
      · rw [Doc.memberTexts, htexts, Json.writeMembers, List.map_cons]
        simp [Layout.compact, Blank.none, hquoted, htext, Json.namedValue]
      · rw [Doc.memberValues, hvalues, Json.storedMembers, hvalue]
        show Json.storedMembers members (setMember (.cStr (content pieces)) _ done) = _
        rw [hcontent, CString.cStr_bytes]

theorem insertionSort_writeMembers (members : List (CString × Json)) :
    ∃ sorted : List (CString × Json), sorted.Perm members ∧
      (Json.writeMembers members).insertionSort Json.nameLe = Json.writeMembers sorted := by
  refine ⟨members.insertionSort fun a b => ¬ b.1.bytes < a.1.bytes,
    List.perm_insertionSort _ members, ?_⟩
  have hsort := List.map_insertionSort (r := fun a b => ¬ b.1.bytes < a.1.bytes) (s := Json.nameLe)
    (fun m : CString × Json => (m.1, Json.writeValue m.2)) members fun _ _ _ _ => Iff.rfl
  rw [Json.writeMembers_eq, Json.writeMembers_eq, hsort]

mutual

/-- **What the writer yields is the text of a document.** -/
theorem exists_doc : ∀ v : Json, Writable v →
    ∃ d : Doc sscanf, d.text = Json.writeValue v ∧ d.value = v.stored
  | .null, _ => ⟨.null, by rw [Doc.text, Json.writeValue]; rfl, by rw [Doc.value, Json.stored]⟩
  | .bool true, _ =>
      ⟨.bool true, by rw [Doc.text, Json.writeValue]; rfl, by rw [Doc.value, Json.stored]⟩
  | .bool false, _ =>
      ⟨.bool false, by rw [Doc.text, Json.writeValue]; rfl, by rw [Doc.value, Json.stored]⟩
  | .int n, h =>
      ⟨.int (Numeral.ofInt n) (Numeral.fits_ofInt h.1),
        by rw [Doc.text, Json.writeValue, Numeral.text_ofInt],
        by rw [Doc.value, Json.stored, Numeral.value_ofInt]⟩
  | .real _ _, h => h.2.2.elim
  | .str s, _ => by
      obtain ⟨pieces, hquoted, hcontent⟩ := exists_pieces s
      refine ⟨.str pieces, by rw [Doc.text, Json.writeValue, hquoted], ?_⟩
      rw [Doc.value, Json.stored, hcontent, CString.cStr_bytes]
  | .arr items, h => by
      obtain ⟨docs, htexts, hvalues⟩ := exists_itemDocs items h.2
      refine ⟨.arr Blank.none docs, ?_, by rw [Doc.value, Json.stored, hvalues]⟩
      rw [Doc.text, Json.writeValue, htexts, Blank.none, List.nil_append, List.cons_append]
  | .obj members, h => by
      obtain ⟨sorted, hperm, hsorted⟩ := insertionSort_writeMembers members
      have hdocs := exists_valueDocs members h.2
      obtain ⟨docs, htexts, hvalues⟩ := exists_memberDocs fun m hm => hdocs m (hperm.mem_iff.mp hm)
      refine ⟨.obj Blank.none docs, ?_, ?_⟩
      · rw [Doc.text, Json.writeValue, htexts, hsorted, Blank.none, List.nil_append,
          List.cons_append]
      · have hnames : ((sorted.map fun m => (m.1, m.2.stored)).map Prod.fst).Nodup := by
          rw [List.map_map]
          exact ((hperm.map Prod.fst).nodup_iff).mpr h.1.2.1
        rw [Doc.value, Json.stored, hvalues, Json.storedMembers_eq, Json.storedMembers_eq,
          Lib.SortedMap.setAll_eq_of_perm nameOrder_injective (hperm.map _) hnames]

theorem exists_itemDocs : ∀ items : List Json,
    Json.EverywhereItems (fun u => u.Sized ∧ u.Distinct ∧ u.NotReal) items →
    ∃ docs : List ((Blank × Blank) × Doc sscanf),
      Doc.itemTexts docs = Json.writeItems items ∧ Doc.itemValues docs = Json.storedItems items
  | [], _ => ⟨[], rfl, rfl⟩
  | item :: items, h => by
      obtain ⟨d, htext, hvalue⟩ := exists_doc item h.1
      obtain ⟨docs, htexts, hvalues⟩ := exists_itemDocs items h.2
      refine ⟨((Blank.none, Blank.none), d) :: docs, ?_, ?_⟩
      · rw [Doc.itemTexts, Json.writeItems, htexts, htext, Blank.none, List.nil_append,
          List.append_nil]
      · rw [Doc.itemValues, Json.storedItems, hvalues, hvalue]

theorem exists_valueDocs : ∀ members : List (CString × Json),
    Json.EverywhereMembers (fun u => u.Sized ∧ u.Distinct ∧ u.NotReal) members →
    ∀ m ∈ members, ∃ d : Doc sscanf, d.text = Json.writeValue m.2 ∧ d.value = m.2.stored
  | [], _, m, hm => by cases hm
  | (name, value) :: members, h, m, hm => by
      rcases List.mem_cons.mp hm with rfl | hm
      · exact exists_doc value h.1
      · exact exists_valueDocs members h.2 m hm

end

theorem parse_writable (v : Json) (h : Writable v) : parse sscanf v.write = some v.stored := by
  obtain ⟨d, htext, hvalue⟩ := @exists_doc sscanf v h
  have hparse := parse_doc d Blank.none (@endsNumber_cons 10 (by decide) [])
  rwa [Blank.none, List.nil_append, htext, hvalue] at hparse

/-- The members are the ones that were written. -/
theorem member_stored {members : List (CString × Json)} (h : Writable (.obj members))
    (key : CString) :
    (Json.obj members).stored.member key = ((Json.obj members).member key).map Json.stored := by
  have hstored := Lib.SortedMap.find?_setAll nameOrder_injective key
    (members.map fun m => (m.1, m.2.stored)) []
  rw [← Json.storedMembers_eq, List.find?_nil, Option.or_none,
    Lib.SortedMap.find?_reverse (by rw [List.map_map]; exact h.1.2.1), List.find?_map] at hstored
  rw [Json.stored, Json.member, Json.member, hstored]
  simp only [Function.comp_def]
  cases members.find? fun m => m.1 = key <;> rfl

/-- **What is written is read back**, with the members of every object in their order, and a
member is found as in the value that was written. -/
theorem parse_write (sscanf : Sscanf) (v : Json) (h : Writable v) :
    parse sscanf v.write = some v.stored ∧
      ∀ (members : List (CString × Json)) (key : CString), v = .obj members →
        v.stored.member key = (v.member key).map Json.stored := by
  refine ⟨parse_writable v h, fun members key hv => ?_⟩
  subst hv
  exact member_stored h key

/-- A value with a list, its members in another order than that of a map. -/
def sampleJson : Json :=
  .obj [(CString.lit "total", .int 2),
    (CString.lit "files", .arr [.str (CString.lit "a"), .null, .int (-7)]),
    (CString.lit "code", .int 0)]

theorem writable_sampleJson : Writable sampleJson := by
  have hnames : (List.map Prod.fst [(CString.lit "total", Json.int 2),
      (CString.lit "files", .arr [.str (CString.lit "a"), .null, .int (-7)]),
      (CString.lit "code", .int 0)]).Nodup := by
    show [CString.lit "total", CString.lit "files", CString.lit "code"].Nodup
    decide
  have hint : ∀ n : Int, -2147483648 ≤ n ∧ n ≤ 2147483647 → Writable (.int n) := fun n hn =>
    ⟨⟨by omega, by omega⟩, trivial, trivial⟩
  have hlist : Writable (.arr [.str (CString.lit "a"), .null, .int (-7)]) :=
    ⟨⟨trivial, trivial, trivial⟩, ⟨trivial, trivial, trivial⟩, ⟨trivial, trivial, trivial⟩,
      hint (-7) (by decide), trivial⟩
  exact ⟨⟨trivial, hnames, trivial⟩, hint 2 (by decide), hlist, hint 0 (by decide), trivial⟩

theorem parse_write_sample :
    parse (fun _ => none) sampleJson.write = some sampleJson.stored ∧
      ∀ (members : List (CString × Json)) (key : CString), sampleJson = .obj members →
        sampleJson.stored.member key = (sampleJson.member key).map Json.stored :=
  parse_write _ _ writable_sampleJson

/-! ## What is read can be written -/

/-- What the reader leaves behind. -/
def Kept (v : Json) : Prop := v.Everywhere fun u => u.Sized ∧ u.Ordered

theorem decodeDigits_le {max n : Nat} {digits : List UInt8} {value : Nat} (hvalue : value ≤ max)
    (h : decodeDigits max value digits = .value n) : n ≤ max := by
  induction digits generalizing value with
  | nil =>
      rw [decodeDigits] at h
      cases h
      exact hvalue
  | cons c digits ih =>
      rw [decodeDigits] at h
      by_cases hdigit : c < 48 ∨ 57 < c
      · rw [if_pos hdigit] at h
        cases h
      · rw [if_neg hdigit] at h
        by_cases hlarge : max / 10 ≤ value ∧
            (max / 10 < value ∨ digits ≠ [] ∨ max % 10 < (c - 48).toNat)
        · rw [if_pos hlarge] at h
          cases h
        · rw [if_neg hlarge] at h
          refine ih ?_ h
          have hnine : (c - 48).toNat ≤ 9 := by
            rw [not_or, UInt8.not_lt, UInt8.not_lt, UInt8.le_iff_toNat_le,
              UInt8.le_iff_toNat_le] at hdigit
            have hlo : 48 ≤ c.toNat := hdigit.1
            have hhi : c.toNat ≤ 57 := hdigit.2
            rw [UInt8.toNat_sub_of_le c 48 (UInt8.le_iff_toNat_le.mpr hlo)]
            show c.toNat - 48 ≤ 9
            omega
          by_cases hthreshold : max / 10 ≤ value
          · have hrest : ¬ max % 10 < (c - 48).toNat := fun hd =>
              hlarge ⟨hthreshold, .inr (.inr hd)⟩
            have hle : ¬ max / 10 < value := fun hv => hlarge ⟨hthreshold, .inl hv⟩
            omega
          · omega

theorem kept_decodeDouble {text : List UInt8} {v : Json}
    (h : decodeDouble sscanf text = some v) : Kept v := by
  obtain ⟨r, _, rfl⟩ := Option.map_eq_some_iff.mp h
  exact ⟨trivial, trivial⟩

theorem kept_decodeNumber {text : List UInt8} {v : Json}
    (h : decodeNumber sscanf text = some v) : Kept v := by
  rw [decodeNumber] at h
  split at h
  · exact kept_decodeDouble h
  · simp only at h
    split at h
    · rename_i value hdigits
      have hle := decodeDigits_le (Nat.zero_le _) hdigits
      obtain rfl := Option.some.inj h
      refine ⟨?_, trivial⟩
      rw [maxIntegerValue] at hle
      show _ ∧ _
      split at hle <;> rename_i hnegative
      · rw [if_pos hnegative]
        omega
      · rw [if_neg hnegative]
        omega
    · cases h
    · exact kept_decodeDouble h

theorem kept_setMember {name : CString} {value : Json} {members : List (CString × Json)}
    (hsorted : Lib.SortedMap.Sorted nameOrder members) (hvalue : Kept value)
    (hmembers : ∀ m ∈ members, Kept m.2) :
    Lib.SortedMap.Sorted nameOrder (setMember name value members) ∧
      ∀ m ∈ setMember name value members, Kept m.2 := by
  refine ⟨Lib.SortedMap.sorted_set hsorted, fun m hm => ?_⟩
  rcases Lib.SortedMap.mem_of_mem_set hm with rfl | hm
  · exact hvalue
  · exact hmembers m hm

theorem kept_obj {members : List (CString × Json)}
    (h : Lib.SortedMap.Sorted nameOrder members ∧ ∀ m ∈ members, Kept m.2) :
    Kept (.obj members) :=
  ⟨⟨trivial, h.1⟩, Json.everywhereMembers_iff.mpr h.2⟩

theorem kept_arr {items : List Json} (h : ∀ item ∈ items, Kept item) : Kept (.arr items) :=
  ⟨⟨trivial, trivial⟩, Json.everywhereItems_iff.mpr h⟩

/-- What each of the four functions yields with a given bound on the recursion. -/
structure KeepsAt (sscanf : Sscanf) (fuel : Nat) : Prop where
  value : ∀ {bytes rest : List UInt8} {v : Json},
    readValue sscanf fuel bytes = some (v, rest) → Kept v
  object : ∀ {name bytes rest : List UInt8} {members : List (CString × Json)} {v : Json},
    Lib.SortedMap.Sorted nameOrder members → (∀ m ∈ members, Kept m.2) →
    readObject sscanf fuel name members bytes = some (v, rest) → Kept v
  array : ∀ {bytes rest : List UInt8} {v : Json},
    readArray sscanf fuel bytes = some (v, rest) → Kept v
  items : ∀ {bytes rest : List UInt8} {items : List Json} {v : Json},
    (∀ item ∈ items, Kept item) → readItems sscanf fuel items bytes = some (v, rest) → Kept v

theorem KeepsAt.readValue_succ {fuel : Nat} (ih : KeepsAt sscanf fuel) {bytes rest : List UInt8}
    {v : Json} (h : readValue sscanf (fuel + 1) bytes = some (v, rest)) : Kept v := by
  rw [readValue] at h
  cases htype : (skipCommentTokens bytes).1.type <;> simp only [htype] at h
  case objectBegin => exact ih.object List.Pairwise.nil (by simp) h
  case arrayBegin => exact ih.array h
  case number =>
    obtain ⟨value, hvalue, heq⟩ := Option.map_eq_some_iff.mp h
    cases heq
    exact kept_decodeNumber hvalue
  case string =>
    obtain ⟨s, _, heq⟩ := Option.map_eq_some_iff.mp h
    cases heq
    exact ⟨trivial, trivial⟩
  case true | false | null =>
    cases h
    exact ⟨trivial, trivial⟩
  all_goals cases h

theorem KeepsAt.readObject_succ {fuel : Nat} (ih : KeepsAt sscanf fuel)
    {name bytes rest : List UInt8} {members : List (CString × Json)} {v : Json}
    (hsorted : Lib.SortedMap.Sorted nameOrder members) (hmembers : ∀ m ∈ members, Kept m.2)
    (h : readObject sscanf (fuel + 1) name members bytes = some (v, rest)) : Kept v := by
  rw [readObject] at h
  simp only at h
  split_ifs at h with hend hstring hcolon
  · cases h
    exact kept_obj ⟨hsorted, hmembers⟩
  · obtain ⟨name', _, h⟩ := Option.bind_eq_some_iff.mp h
    obtain ⟨⟨value, current⟩, hvalue, h⟩ := Option.bind_eq_some_iff.mp h
    have hset := @kept_setMember (.cStr name') _ _ hsorted (ih.value hvalue) hmembers
    simp only at h
    cases htype : (readToken current).1.type <;> simp only [htype] at h
    case objectEnd =>
      cases h
      exact kept_obj hset
    case arraySeparator => exact ih.object hset.1 hset.2 h
    case comment =>
      split_ifs at h
      · cases h
        exact kept_obj hset
      · exact ih.object hset.1 hset.2 h
    all_goals cases h
  · obtain ⟨name', _, h⟩ := Option.bind_eq_some_iff.mp h
    cases h

theorem KeepsAt.readItems_succ {fuel : Nat} (ih : KeepsAt sscanf fuel) {bytes rest : List UInt8}
    {items : List Json} {v : Json} (hitems : ∀ item ∈ items, Kept item)
    (h : readItems sscanf (fuel + 1) items bytes = some (v, rest)) : Kept v := by
  rw [readItems] at h
  obtain ⟨⟨value, current⟩, hvalue, h⟩ := Option.bind_eq_some_iff.mp h
  have hall : ∀ item ∈ items ++ [value], Kept item := by
    intro item hitem
    rcases List.mem_append.mp hitem with hitem | hitem
    · exact hitems item hitem
    · rw [List.mem_singleton.mp hitem]
      exact ih.value hvalue
  simp only at h
  cases htype : (skipCommentTokens current).1.type <;> simp only [htype] at h
  case arraySeparator => exact ih.items hall h
  case arrayEnd =>
    cases h
    exact kept_arr hall
  all_goals cases h

theorem keepsAt (sscanf : Sscanf) (fuel : Nat) : KeepsAt sscanf fuel := by
  induction fuel with
  | zero =>
      refine ⟨fun h => ?_, fun _ _ h => ?_, fun h => ?_, fun _ h => ?_⟩
      · rw [readValue] at h
        cases h
      · rw [readObject] at h
        cases h
      · rw [readArray] at h
        cases h
      · rw [readItems] at h
        cases h
  | succ fuel ih =>
      refine ⟨ih.readValue_succ, ih.readObject_succ, fun h => ?_, ih.readItems_succ⟩
      rw [readArray] at h
      split_ifs at h
      · cases h
        exact kept_arr (by simp)
      · exact ih.items (by simp) h

/-- **What the reader accepts is in order**: integers of 64 bits and the members of every object
in their order, without a name twice. -/
theorem parse_everywhere {bytes : List UInt8} {v : Json} (h : parse sscanf bytes = some v) :
    v.Everywhere fun u => u.Sized ∧ u.Ordered := by
  obtain ⟨⟨v', rest⟩, hread, rfl⟩ := Option.map_eq_some_iff.mp h
  exact (keepsAt sscanf _).value hread

theorem distinct_of_ordered {u : Json} (h : u.Ordered) : u.Distinct := by
  cases u with
  | obj members =>
      show (members.map Prod.fst).Nodup
      refine List.Pairwise.map Prod.fst (fun a b hlt heq => ?_) h
      rw [heq] at hlt
      exact lt_irrefl _ hlt
  | _ => trivial

mutual

theorem stored_of_ordered : ∀ v : Json, v.Everywhere Json.Ordered → v.stored = v
  | .null, _ => by rw [Json.stored]
  | .bool _, _ => by rw [Json.stored]
  | .int _, _ => by rw [Json.stored]
  | .real _ _, _ => by rw [Json.stored]
  | .str _, _ => by rw [Json.stored]
  | .arr items, h => by
      rw [Json.stored, Json.storedItems_eq, storedItems_of_ordered items h.2]
  | .obj members, h => by
      rw [Json.stored, Json.storedMembers_eq, storedMembers_of_ordered members h.2,
        Lib.SortedMap.setAll_eq_append (by exact h.1), List.nil_append]

theorem storedItems_of_ordered : ∀ items : List Json,
    Json.EverywhereItems Json.Ordered items → items.map Json.stored = items
  | [], _ => rfl
  | item :: items, h => by
      rw [List.map_cons, stored_of_ordered item h.1, storedItems_of_ordered items h.2]

theorem storedMembers_of_ordered : ∀ members : List (CString × Json),
    Json.EverywhereMembers Json.Ordered members →
    (members.map fun m => (m.1, m.2.stored)) = members
  | [], _ => rfl
  | (name, value) :: members, h => by
      rw [List.map_cons, stored_of_ordered value h.1, storedMembers_of_ordered members h.2]

end

/-- **A value that was read survives being written and read again.** -/
theorem parse_write_parse {sscanf : Sscanf} {bytes : List UInt8} {v : Json}
    (h : parse sscanf bytes = some v) (hreal : v.Everywhere Json.NotReal) :
    parse sscanf v.write = some v := by
  have hkept := parse_everywhere h
  have hwritable : Writable v := (hkept.and hreal).imp fun u hu =>
    ⟨hu.1.1, distinct_of_ordered hu.1.2, hu.2⟩
  rw [parse_writable v hwritable, stored_of_ordered v (hkept.imp fun _ hu => hu.2)]

/-- An object with an array and a string. -/
def sample (sscanf : Sscanf) : Doc sscanf :=
  .obj Blank.none [(Layout.compact [.raw 97 (by decide)],
    .arr Blank.none [((Blank.none, Blank.none), .bool true),
      ((Blank.none, Blank.none), .str [.unicode (Char.ofNat 233) true])])]

theorem parse_write_parse_sample :
    parse (fun _ => none) (sample fun _ => none).value.write =
      some (sample fun _ => none).value :=
  parse_write_parse (parse_doc (sample fun _ => none) Blank.none endsNumber_nil)
    ⟨trivial, ⟨trivial, trivial, trivial, trivial⟩, trivial⟩

end Reader
end Base
end TcMuzi
