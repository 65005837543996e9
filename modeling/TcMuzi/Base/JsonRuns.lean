import TcMuzi.Base.JsonText

/-!
# The reader finds the value of every document

`readValue_text` reads one document in front of anything that does not continue a number;
`readItems_text` and `readObject_text` are the loops over items and members.  The bound on
the recursion is never met: `parse` starts with three units for every byte.
-/

namespace TcMuzi
namespace Base
namespace Reader

variable {sscanf : Sscanf}

/-! ## One pass of a loop -/

theorem readItems_comma {fuel : Nat} {done : List Json} {bytes current current' text : List UInt8}
    {value : Json} (hvalue : readValue sscanf fuel bytes = some (value, current))
    (htoken : skipCommentTokens current = (⟨.arraySeparator, text⟩, current')) :
    readItems sscanf (fuel + 1) done bytes =
      readItems sscanf fuel (done ++ [value]) current' := by
  rw [readItems, hvalue]
  simp [htoken]

theorem readItems_end {fuel : Nat} {done : List Json} {bytes current current' text : List UInt8}
    {value : Json} (hvalue : readValue sscanf fuel bytes = some (value, current))
    (htoken : skipCommentTokens current = (⟨.arrayEnd, text⟩, current')) :
    readItems sscanf (fuel + 1) done bytes = some (.arr (done ++ [value]), current') := by
  rw [readItems, hvalue]
  simp [htoken]

/-- The tokens of one member and its value, up to the token behind it. -/
structure ReadsMember (sscanf : Sscanf) (fuel : Nat) (bytes : List UInt8) (name : List UInt8)
    (value : Json) (type : TokenType) (rest : List UInt8) : Prop where
  reads : ∃ nameText colonText commaText current₁ current₂ current₃,
    skipCommentTokens bytes = (⟨.string, nameText⟩, current₁) ∧
    decodeString nameText = some name ∧
    readToken current₁ = (⟨.memberSeparator, colonText⟩, current₂) ∧
    readValue sscanf fuel current₂ = some (value, current₃) ∧
    readToken current₃ = (⟨type, commaText⟩, rest)

theorem ReadsMember.comma {fuel : Nat} {bytes name rest : List UInt8} {value : Json}
    (h : ReadsMember sscanf fuel bytes name value .arraySeparator rest) (last : List UInt8)
    (members : List (CString × Json)) :
    readObject sscanf (fuel + 1) last members bytes =
      readObject sscanf fuel name (setMember (.cStr name) value members) rest := by
  obtain ⟨nameText, colonText, commaText, current₁, current₂, current₃, hname, hdecode, hcolon,
    hvalue, hcomma⟩ := h.reads
  rw [readObject, hname]
  simp [hdecode, hcolon, hvalue, hcomma]

theorem ReadsMember.finish {fuel : Nat} {bytes name rest : List UInt8} {value : Json}
    (h : ReadsMember sscanf fuel bytes name value .objectEnd rest) (last : List UInt8)
    (members : List (CString × Json)) :
    readObject sscanf (fuel + 1) last members bytes =
      some (.obj (setMember (.cStr name) value members), rest) := by
  obtain ⟨nameText, colonText, commaText, current₁, current₂, current₃, hname, hdecode, hcolon,
    hvalue, hcomma⟩ := h.reads
  rw [readObject, hname]
  simp [hdecode, hcolon, hvalue, hcomma]

/-! ## What stands behind a value -/

theorem endsNumber_blank (ws : Blank) {rest : List UInt8} (h : EndsNumber rest) :
    EndsNumber (ws.val ++ rest) := by
  obtain ⟨ws, hws⟩ := ws
  cases ws with
  | nil => exact h
  | cons c ws =>
      refine endsNumber_cons ?_ _
      have hspace : c = 32 ∨ c = 9 ∨ c = 13 ∨ c = 10 := by
        simpa [isSpace] using hws c List.mem_cons_self
      rcases hspace with rfl | rfl | rfl | rfl <;> decide

theorem endsNumber_of_blank (ws : Blank) : EndsNumber ws.val := by
  have hend := endsNumber_blank ws endsNumber_nil
  rwa [List.append_nil] at hend

/-- A layout and the token behind its value make a member. -/
theorem readsMember_layout (layout : Layout) {d : Doc sscanf} {fuel : Nat} {type : TokenType}
    {token rest : List UInt8} (ws : Blank) (htoken : Scans type token rest)
    (hvalue : readValue sscanf fuel
      (layout.beforeValue.val ++ (d.text ++ (layout.after.val ++ (token ++ rest)))) =
        some (d.value, layout.after.val ++ (token ++ rest))) :
    ReadsMember sscanf fuel
      (ws.val ++ (layout.before.val ++ (quoted layout.name ++ (layout.beforeColon.val ++ (58 ::
        (layout.beforeValue.val ++ (d.text ++ (layout.after.val ++ (token ++ rest)))))))))
      (content layout.name) d.value type rest := by
  have hname := (scans_quoted layout.name (layout.beforeColon.val ++ (58 ::
    (layout.beforeValue.val ++ (d.text ++ (layout.after.val ++ (token ++ rest))))))).skipCommentTokens
    (by decide) (ws.append layout.before)
  rw [Blank.append, List.append_assoc] at hname
  have hcolon := (scans_memberSeparator (layout.beforeValue.val ++
    (d.text ++ (layout.after.val ++ (token ++ rest))))).readToken layout.beforeColon
  exact ⟨_, _, _, _, _, _, hname, decodeString_quoted _, hcolon, hvalue,
    htoken.readToken layout.after⟩

theorem joinCommas_cons (part : List UInt8) (parts : List (List UInt8)) (rest : List UInt8) :
    ∃ behind, Json.joinCommas (part :: parts) ++ rest = part ++ behind := by
  cases parts with
  | nil => exact ⟨rest, rfl⟩
  | cons next parts => exact ⟨44 :: Json.joinCommas (next :: parts) ++ rest, List.append_assoc ..⟩

/-! ## Documents -/

theorem readValue_null (ws : Blank) (rest : List UInt8) (fuel : Nat) :
    readValue sscanf (fuel + 1) (ws.val ++ ([110, 117, 108, 108] ++ rest)) =
      some (.null, rest) := by
  rw [readValue, (scans_null rest).skipCommentTokens (by decide) ws]

theorem readValue_bool (b : Bool) (ws : Blank) (rest : List UInt8) (fuel : Nat) :
    readValue sscanf (fuel + 1) (ws.val ++ ((Doc.bool b : Doc sscanf).text ++ rest)) =
      some (.bool b, rest) := by
  cases b with
  | true => rw [readValue, Doc.text, (scans_true rest).skipCommentTokens (by decide) ws]
  | false => rw [readValue, Doc.text, (scans_false rest).skipCommentTokens (by decide) ws]

theorem readValue_number {text rest : List UInt8} (h : NumberText text) (hrest : EndsNumber rest)
    (ws : Blank) (fuel : Nat) :
    readValue sscanf (fuel + 1) (ws.val ++ (text ++ rest)) =
      (decodeNumber sscanf text).map fun value => (value, rest) := by
  rw [readValue, (h.scans hrest).skipCommentTokens (by decide) ws]

theorem readValue_quoted (pieces : List Piece) (ws : Blank) (rest : List UInt8) (fuel : Nat) :
    readValue sscanf (fuel + 1) (ws.val ++ (quoted pieces ++ rest)) =
      some (.str (.cStr (content pieces)), rest) := by
  rw [readValue, (scans_quoted pieces rest).skipCommentTokens (by decide) ws]
  simp [decodeString_quoted]

theorem readValue_arrayBegin (ws : Blank) (rest : List UInt8) (fuel : Nat) :
    readValue sscanf (fuel + 1) (ws.val ++ (91 :: rest)) = readArray sscanf fuel rest := by
  have htoken := (scans_arrayBegin rest).skipCommentTokens (by decide) ws
  rw [List.singleton_append] at htoken
  rw [readValue, htoken]

theorem readValue_objectBegin (ws : Blank) (rest : List UInt8) (fuel : Nat) :
    readValue sscanf (fuel + 1) (ws.val ++ (123 :: rest)) =
      readObject sscanf fuel [] [] rest := by
  have htoken := (scans_objectBegin rest).skipCommentTokens (by decide) ws
  rw [List.singleton_append] at htoken
  rw [readValue, htoken]

theorem readArray_empty (inner : Blank) (rest : List UInt8) (fuel : Nat) :
    readArray sscanf (fuel + 1) (inner.val ++ (93 :: rest)) = some (.arr [], rest) := by
  have hskip : skipSpaces (inner.val ++ (93 :: rest)) = 93 :: rest := by
    rw [skipSpaces_blank, skipSpaces_cons (by decide)]
  have hread := (scans_arrayEnd rest).readToken Blank.none
  rw [Blank.none, List.nil_append, List.singleton_append] at hread
  rw [readArray, hskip, List.head?_cons, if_pos rfl, hread]

theorem readArray_items (inner : Blank) {d : Doc sscanf} {rest : List UInt8} {fuel : Nat} :
    readArray sscanf (fuel + 1) (inner.val ++ (d.text ++ rest)) =
      readItems sscanf fuel [] (inner.val ++ (d.text ++ rest)) := by
  obtain ⟨c, t, htext, hspace, hne⟩ := d.text_head
  have hskip : (skipSpaces (inner.val ++ (d.text ++ rest))).head? = some c := by
    rw [skipSpaces_blank, htext, List.cons_append, skipSpaces_cons hspace, List.head?_cons]
  rw [readArray, hskip, if_neg (by simpa using hne)]

theorem readObject_empty (inner : Blank) (rest : List UInt8) (fuel : Nat) :
    readObject sscanf (fuel + 1) [] [] (inner.val ++ (125 :: rest)) = some (.obj [], rest) := by
  have htoken := (scans_objectEnd rest).skipCommentTokens (by decide) inner
  rw [List.singleton_append] at htoken
  rw [readObject, htoken]
  simp

mutual

/-- The reader finds the value of a document and stops right behind it. -/
theorem readValue_text : ∀ (d : Doc sscanf) (ws : Blank) (rest : List UInt8) (fuel : Nat),
    EndsNumber rest → 3 * (ws.val ++ (d.text ++ rest)).length < fuel →
    readValue sscanf fuel (ws.val ++ (d.text ++ rest)) = some (d.value, rest)
  | d, ws, rest, 0, hrest, hfuel => absurd hfuel (Nat.not_lt_zero _)
  | .null, ws, rest, fuel + 1, hrest, hfuel => by
      rw [Doc.text, Doc.value, readValue_null]
  | .bool b, ws, rest, fuel + 1, hrest, hfuel => by
      rw [readValue_bool, Doc.value]
  | .int n h, ws, rest, fuel + 1, hrest, hfuel => by
      rw [Doc.text, readValue_number n.numberText hrest, n.decodeNumber_text, if_pos h, Doc.value]
      rfl
  | .real r, ws, rest, fuel + 1, hrest, hfuel => by
      rw [Doc.text, readValue_number r.numberText hrest, r.decodeNumber_text, Doc.value]
      rfl
  | .str pieces, ws, rest, fuel + 1, hrest, hfuel => by
      rw [Doc.text, readValue_quoted, Doc.value]
  | .arr inner items, ws, rest, fuel + 1, hrest, hfuel => by
      have hshape : (Doc.arr inner items).text ++ rest =
          91 :: (inner.val ++ (Json.joinCommas (Doc.itemTexts items) ++ (93 :: rest))) := by
        rw [Doc.text]
        simp
      rw [hshape] at hfuel ⊢
      simp only [List.length_append, List.length_cons] at hfuel
      rw [readValue_arrayBegin, Doc.value]
      refine readArray_text inner items rest fuel ?_
      simp only [List.length_append, List.length_cons]
      omega
  | .obj inner members, ws, rest, fuel + 1, hrest, hfuel => by
      have hshape : (Doc.obj inner members).text ++ rest =
          123 :: (inner.val ++ (Json.joinCommas (Doc.memberTexts members) ++ (125 :: rest))) := by
        rw [Doc.text]
        simp
      rw [hshape] at hfuel ⊢
      simp only [List.length_append, List.length_cons] at hfuel
      rw [readValue_objectBegin, Doc.value]
      refine readObject_text members inner rest fuel [] [] (fun _ => ⟨rfl, rfl⟩) ?_
      simp only [List.length_append, List.length_cons]
      omega

theorem readArray_text : ∀ (inner : Blank) (items : List ((Blank × Blank) × Doc sscanf))
    (rest : List UInt8) (fuel : Nat),
    3 * (inner.val ++ (Json.joinCommas (Doc.itemTexts items) ++ (93 :: rest))).length + 2 < fuel →
    readArray sscanf fuel (inner.val ++ (Json.joinCommas (Doc.itemTexts items) ++ (93 :: rest))) =
      some (.arr (Doc.itemValues items), rest)
  | inner, items, rest, 0, hfuel => absurd hfuel (Nat.not_lt_zero _)
  | inner, [], rest, fuel + 1, hfuel => readArray_empty inner rest fuel
  | inner, (blanks, item) :: items, rest, fuel + 1, hfuel => by
      have hitems := readItems_text ((blanks, item) :: items) inner rest fuel [] (by simp) (by omega)
      rw [List.nil_append] at hitems
      obtain ⟨behind, hfirst⟩ := joinCommas_cons (blanks.1.val ++ (item.text ++ blanks.2.val))
        (Doc.itemTexts items) (93 :: rest)
      have hshape : inner.val ++ (Json.joinCommas (Doc.itemTexts ((blanks, item) :: items)) ++
          (93 :: rest)) = (inner.append blanks.1).val ++ (item.text ++ (blanks.2.val ++ behind)) := by
        rw [Doc.itemTexts, hfirst, Blank.append]
        simp only [List.append_assoc]
      rw [hshape] at hitems ⊢
      rw [readArray_items, hitems]

theorem readItems_text : ∀ (items : List ((Blank × Blank) × Doc sscanf)) (ws : Blank)
    (rest : List UInt8) (fuel : Nat) (done : List Json), items ≠ [] →
    3 * (ws.val ++ (Json.joinCommas (Doc.itemTexts items) ++ (93 :: rest))).length + 1 < fuel →
    readItems sscanf fuel done
      (ws.val ++ (Json.joinCommas (Doc.itemTexts items) ++ (93 :: rest))) =
        some (.arr (done ++ Doc.itemValues items), rest)
  | items, ws, rest, 0, done, hne, hfuel => absurd hfuel (Nat.not_lt_zero _)
  | [], ws, rest, fuel + 1, done, hne, hfuel => absurd rfl hne
  | [((before, after), item)], ws, rest, fuel + 1, done, hne, hfuel => by
      have hshape : ws.val ++ (Json.joinCommas (Doc.itemTexts [((before, after), item)]) ++
          (93 :: rest)) =
            (ws.append before).val ++ (item.text ++ (after.val ++ ([93] ++ rest))) := by
        simp [Doc.itemTexts, Json.joinCommas, Blank.append]
      rw [hshape] at hfuel ⊢
      have hvalue := readValue_text item (ws.append before) (after.val ++ ([93] ++ rest)) fuel
        (endsNumber_blank after (endsNumber_cons (by decide) rest)) (by omega)
      have htoken := (scans_arrayEnd rest).skipCommentTokens (by decide) after
      rw [readItems_end hvalue htoken, Doc.itemValues, Doc.itemValues]
  | ((before, after), item) :: next :: items, ws, rest, fuel + 1, done, hne, hfuel => by
      have hshape : ws.val ++ (Json.joinCommas
          (Doc.itemTexts (((before, after), item) :: next :: items)) ++ (93 :: rest)) =
            (ws.append before).val ++ (item.text ++ (after.val ++ ([44] ++
              (Json.joinCommas (Doc.itemTexts (next :: items)) ++ (93 :: rest))))) := by
        rw [Doc.itemTexts, Blank.append]
        simp [Doc.itemTexts, Json.joinCommas]
      rw [hshape] at hfuel ⊢
      have hvalue := readValue_text item (ws.append before) (after.val ++ ([44] ++
        (Json.joinCommas (Doc.itemTexts (next :: items)) ++ (93 :: rest)))) fuel
        (endsNumber_blank after (endsNumber_cons (by decide) _)) (by omega)
      have htoken := (scans_arraySeparator (Json.joinCommas (Doc.itemTexts (next :: items)) ++
        (93 :: rest))).skipCommentTokens (by decide) after
      rw [readItems_comma hvalue htoken]
      have hitems := readItems_text (next :: items) Blank.none rest fuel (done ++ [item.value])
        (by simp) (by
          simp only [Blank.none, List.length_append, List.length_cons] at hfuel ⊢
          omega)
      rw [Blank.none, List.nil_append] at hitems
      simp [hitems, Doc.itemValues]

/-- With members left the last name does not matter. -/
theorem readObject_text : ∀ (members : List (Layout × Doc sscanf)) (ws : Blank)
    (rest : List UInt8) (fuel : Nat) (last : List UInt8) (done : List (CString × Json)),
    (members = [] → last = [] ∧ done = [] ) →
    3 * (ws.val ++ (Json.joinCommas (Doc.memberTexts members) ++ (125 :: rest))).length < fuel →
    readObject sscanf fuel last done
      (ws.val ++ (Json.joinCommas (Doc.memberTexts members) ++ (125 :: rest))) =
        some (.obj (Doc.memberValues members done), rest)
  | members, ws, rest, 0, last, done, hlast, hfuel => absurd hfuel (Nat.not_lt_zero _)
  | [], ws, rest, fuel + 1, last, done, hlast, hfuel => by
      obtain ⟨rfl, rfl⟩ := hlast rfl
      exact readObject_empty ws rest fuel
  | [(layout, d)], ws, rest, fuel + 1, last, done, hlast, hfuel => by
      have hshape : ws.val ++ (Json.joinCommas (Doc.memberTexts [(layout, d)]) ++ (125 :: rest)) =
          ws.val ++ (layout.before.val ++ (quoted layout.name ++ (layout.beforeColon.val ++ (58 ::
            (layout.beforeValue.val ++ (d.text ++ (layout.after.val ++ ([125] ++ rest)))))))) := by
        simp [Doc.memberTexts, Json.joinCommas]
      rw [hshape] at hfuel ⊢
      have hvalue := readValue_text d layout.beforeValue (layout.after.val ++ ([125] ++ rest)) fuel
        (endsNumber_blank layout.after (endsNumber_cons (by decide) rest)) (by
          simp only [List.length_append, List.length_cons] at hfuel ⊢
          omega)
      have hmember := readsMember_layout layout ws (scans_objectEnd rest) hvalue
      rw [hmember.finish, Doc.memberValues, Doc.memberValues]
  | (layout, d) :: next :: members, ws, rest, fuel + 1, last, done, hlast, hfuel => by
      have hshape : ws.val ++ (Json.joinCommas
          (Doc.memberTexts ((layout, d) :: next :: members)) ++ (125 :: rest)) =
            ws.val ++ (layout.before.val ++ (quoted layout.name ++ (layout.beforeColon.val ++ (58 ::
              (layout.beforeValue.val ++ (d.text ++ (layout.after.val ++ ([44] ++
                (Json.joinCommas (Doc.memberTexts (next :: members)) ++ (125 :: rest)))))))))) := by
        rw [Doc.memberTexts]
        simp [Doc.memberTexts, Json.joinCommas]
      rw [hshape] at hfuel ⊢
      have hvalue := readValue_text d layout.beforeValue (layout.after.val ++ ([44] ++
        (Json.joinCommas (Doc.memberTexts (next :: members)) ++ (125 :: rest)))) fuel
        (endsNumber_blank layout.after (endsNumber_cons (by decide) _)) (by
          simp only [List.length_append, List.length_cons] at hfuel ⊢
          omega)
      have hmember := readsMember_layout layout ws (scans_arraySeparator
        (Json.joinCommas (Doc.memberTexts (next :: members)) ++ (125 :: rest))) hvalue
      rw [hmember.comma]
      have hmembers := readObject_text (next :: members) Blank.none rest fuel
        (content layout.name) (setMember (.cStr (content layout.name)) d.value done) (by simp) (by
          simp only [Blank.none, List.length_append, List.length_cons] at hfuel ⊢
          omega)
      rw [Blank.none, List.nil_append] at hmembers
      rw [hmembers]
      simp only [Doc.memberValues]

end

/-- A document is read to its value; nothing is read behind it. -/
theorem parse_doc (d : Doc sscanf) (before : Blank) {rest : List UInt8} (hrest : EndsNumber rest) :
    parse sscanf (before.val ++ (d.text ++ rest)) = some d.value := by
  rw [parse, readValue_text d before rest _ hrest (Nat.lt_succ_self _)]
  rfl

/-! ## Members of an object -/

/-- The last member of a name. -/
def Doc.named (key : CString) (members : List (Layout × Doc sscanf)) : Option (Doc sscanf) :=
  (members.reverse.find? fun m => CString.cStr (content m.1.name) = key).map Prod.snd

theorem nameOrder_injective : Function.Injective nameOrder := by
  intro a b h
  exact CString.ext (List.map_injective_iff.mpr (fun _ _ => UInt8.toNat_inj.mp) h)

theorem memberValues_eq (members : List (Layout × Doc sscanf)) (done : List (CString × Json)) :
    Doc.memberValues members done = Lib.SortedMap.setAll nameOrder
      (members.map fun m => (CString.cStr (content m.1.name), m.2.value)) done := by
  induction members generalizing done with
  | nil => rfl
  | cons m members ih => rw [Doc.memberValues, ih]; rfl

/-- `root[key]` is the last member of that name. -/
theorem member_obj (inner : Blank) (members : List (Layout × Doc sscanf)) (key : CString) :
    (Doc.obj inner members).value.member key =
      some (((Doc.named key members).map Doc.value).getD .null) := by
  have hfind := Lib.SortedMap.find?_setAll nameOrder_injective key
    (members.map fun m => (CString.cStr (content m.1.name), m.2.value)) []
  rw [← memberValues_eq, List.find?_nil, Option.or_none, ← List.map_reverse, List.find?_map] at hfind
  rw [Doc.value, Json.member, hfind, Doc.named]
  simp only [Function.comp_def]
  cases members.reverse.find? fun m => CString.cStr (content m.1.name) = key <;> rfl

/-- **Every document is read to its value**, whatever its layout, and the last of some members
with one name is found. -/
theorem parse_text (d : Doc sscanf) (before after : Blank) :
    parse sscanf (before.val ++ (d.text ++ after.val)) = some d.value ∧
      ∀ (inner : Blank) (members : List (Layout × Doc sscanf)) (key : CString),
        d = .obj inner members →
          d.value.member key = some (((Doc.named key members).map Doc.value).getD .null) := by
  refine ⟨parse_doc d before (endsNumber_of_blank after), fun inner members key hd => ?_⟩
  subst hd
  exact member_obj inner members key

end Reader
end Base
end TcMuzi
