import TcMuzi.Api.Upload

/-!
# The parts of an upload body

`decodeMsg` goes from separator to separator.  Its loop is the same as reading a list of
parts, so that what it throws at and what it accepts are statements about that list.
-/

namespace TcMuzi
namespace Api

open Base Lib

/-! ## The loop -/

/-- The loop with a bound on its rounds, `none` where they do not suffice. -/
def decodeLoop (split : List UInt8) : Nat → List UInt8 → Option (Option (List Part))
  | 0, _ => none
  | rounds + 1, cur =>
      match breakOn split cur with
      | none => some (some [])
      | some (part, next) =>
          match parsePart part with
          | none => some (some [])
          | some none => some none
          | some (some parsed) =>
              (decodeLoop split rounds (next.drop split.length)).map
                (Option.map (parsed :: ·))

/-- What `decodeMsg` returns for the parts it has put into the map. -/
def parsedRet (parts : List Part) : Int := if parts.length ≠ fieldCnt then -1 else 0

/-- `decodeMsg` within so many rounds, and what it returns unless it throws. -/
def decodeMsgWithin (rounds : Nat) (postData split : List UInt8) : Option (Option Int) :=
  match strstr split postData with
  | none => some (some (parsedRet []))
  | some found =>
      (decodeLoop split rounds (found.drop split.length)).map (Option.map parsedRet)

/-! ## The parts as a list -/

/-- The text between two quotes behind `name=`, and what follows it. -/
def nameOf (part : List UInt8) : Option Part :=
  match breakOn leftFlag part with
  | none => none
  | some (_, fromFlag) =>
      match breakOn rightFlag (fromFlag.drop leftFlag.length) with
      | none => none
      | some (field, rest) => some (field, rest.drop 1)

/-- The value behind a name: without its last byte and the line breaks at both ends. -/
def readValue (rest : List UInt8) : Option (List UInt8) :=
  if rest = [] then none else strip rest.dropLast

/-- The texts between the separators. -/
def partsOf (postData split : List UInt8) : List (List UInt8) :=
  match Search.find split postData with
  | none => []
  | some found => Search.pieces split (found.length + 1) (found.drop split.length)

/-- The names up to the first part without one, each with what follows it. -/
def namedOf : List (List UInt8) → List Part
  | [] => []
  | part :: parts =>
      match nameOf part with
      | none => []
      | some named => named :: namedOf parts

/-- The names that a body supplies. -/
def named (postData split : List UInt8) : List Part := namedOf (partsOf postData split)

def readPart (named : Part) : Option Part := (readValue named.2).map (named.1, ·)

theorem breakOn_eq (needle hay : List UInt8) :
    breakOn needle hay =
      (Search.find needle hay).map fun found => (hay.take (hay.length - found.length), found) := by
  rw [breakOn, strstr_eq_find]
  cases Search.find needle hay <;> rfl

/-- The search for a quote stops at one. -/
theorem breakOn_rightFlag {text field rest : List UInt8}
    (h : breakOn rightFlag text = some (field, rest)) : rest = 34 :: rest.drop 1 := by
  rw [breakOn_eq] at h
  obtain ⟨found, hfound, heq⟩ := Option.map_eq_some_iff.mp h
  obtain ⟨tail, htail⟩ := (Search.find_eq_some_iff.mp hfound).1
  obtain ⟨-, rfl⟩ := Prod.mk.inj heq
  have hflag : rightFlag = [34] := by decide +kernel
  rw [hflag] at htail
  rw [← htail]
  rfl

theorem parsePart_eq (part : List UInt8) : parsePart part = (nameOf part).map readPart := by
  rw [parsePart, nameOf]
  cases breakOn leftFlag part with
  | none => rfl
  | some split =>
      obtain ⟨_, fromFlag⟩ := split
      simp only
      cases hquote : breakOn rightFlag (fromFlag.drop leftFlag.length) with
      | none => rfl
      | some quoted =>
          obtain ⟨field, rest⟩ := quoted
          have hrest := breakOn_rightFlag hquote
          cases rest with
          | nil => cases hrest
          | cons b rest =>
              cases rest with
              | nil => rfl
              | cons c rest =>
                  simp only [List.drop_one, List.tail_cons, Option.map_some, readPart, readValue,
                    reduceCtorEq, if_false]
                  cases strip ((c :: rest).dropLast) <;> rfl

/-- The loop reads the parts in order. -/
theorem parseParts_eq (split : List UInt8) (fuel : Nat) (cur : List UInt8) :
    parseParts split fuel cur = (namedOf (Search.pieces split fuel cur)).mapM readPart := by
  induction fuel generalizing cur with
  | zero => rfl
  | succ fuel ih =>
      rw [parseParts, Search.pieces, breakOn_eq]
      cases Search.find split cur with
      | none => rfl
      | some found =>
          simp only [Option.map_some, parsePart_eq, namedOf]
          cases nameOf (cur.take (cur.length - found.length)) with
          | none => rfl
          | some named =>
              simp only [Option.map_some, List.mapM_cons]
              cases readPart named with
              | none => rfl
              | some parsed =>
                  simp only [ih]
                  cases (namedOf (Search.pieces split fuel (found.drop split.length))).mapM
                    readPart <;> rfl

theorem decodeMsg_eq (postData split : List UInt8) :
    decodeMsg postData split = (named postData split).mapM readPart := by
  rw [decodeMsg, named, partsOf, strstr_eq_find]
  cases Search.find split postData with
  | none => rfl
  | some found => exact parseParts_eq split (found.length + 1) (found.drop split.length)

/-- A separator takes something of the body in every round. -/
theorem decodeLoop_eq {split cur : List UInt8} {rounds : Nat} (hsplit : split ≠ [])
    (h : cur.length < rounds) :
    decodeLoop split rounds cur = some (parseParts split rounds cur) := by
  induction rounds generalizing cur with
  | zero => omega
  | succ rounds ih =>
      rw [decodeLoop, parseParts, breakOn_eq]
      cases hfind : Search.find split cur with
      | none => rfl
      | some found =>
          have hlt := Search.length_lt_of_find hsplit hfind
          simp only [Option.map_some]
          cases parsePart (cur.take (cur.length - found.length)) with
          | none => rfl
          | some parsed =>
              cases parsed with
              | none => rfl
              | some parsed =>
                  have hrest : decodeLoop split rounds (found.drop split.length) =
                      some (parseParts split rounds (found.drop split.length)) := ih (by omega)
                  simp only [hrest, Option.map_some]

/-- Enough rounds give what `decodeMsg` gives. -/
theorem decodeMsgWithin_eq {postData split : List UInt8} {rounds : Nat} (hsplit : split ≠ [])
    (h : postData.length < rounds) :
    decodeMsgWithin rounds postData split =
      some ((decodeMsg postData split).map parsedRet) := by
  rw [decodeMsgWithin, decodeMsg]
  cases hfind : strstr split postData with
  | none => rfl
  | some found =>
      rw [strstr_eq_find] at hfind
      have hlt := Search.length_lt_of_find hsplit hfind
      obtain ⟨_, before, rfl, _⟩ := Search.find_eq_some_iff.mp hfind
      rw [List.length_append] at h
      have hfuel : parseParts split rounds (found.drop split.length) =
          parseParts split (found.length + 1) (found.drop split.length) := by
        rw [parseParts_eq, parseParts_eq,
          Search.pieces_congr hsplit (m := rounds) (n := found.length + 1)]
        · rw [List.length_drop]
          omega
        · rw [List.length_drop]
          omega
      have hloop : decodeLoop split rounds (found.drop split.length) =
          some (parseParts split rounds (found.drop split.length)) := by
        apply decodeLoop_eq hsplit
        rw [List.length_drop]
        omega
      simp only [hloop, hfuel, Option.map_some]

theorem mapM_readPart_isSome {parts : List Part} :
    (parts.mapM readPart).isSome ↔ ∀ part ∈ parts, (readPart part).isSome := by
  induction parts with
  | nil => simp
  | cons part parts ih =>
      rw [List.forall_mem_cons, ← ih, List.mapM_cons]
      cases readPart part with
      | none => simp
      | some parsed => cases parts.mapM readPart <;> simp

/-- Reading the values keeps the names. -/
theorem names_of_mapM {parts parsed : List Part} (h : parts.mapM readPart = some parsed) :
    parsed.map Prod.fst = parts.map Prod.fst := by
  induction parts generalizing parsed with
  | nil =>
      obtain rfl : parsed = [] := by simpa using h.symm
      rfl
  | cons part parts ih =>
      rw [List.mapM_cons] at h
      obtain ⟨first, hfirst, h⟩ := Option.bind_eq_some_iff.mp h
      obtain ⟨rest, hrest, h⟩ := Option.bind_eq_some_iff.mp h
      obtain rfl := Option.some.inj h
      obtain ⟨value, _, rfl⟩ := Option.map_eq_some_iff.mp hfirst
      rw [List.map_cons, List.map_cons, ih hrest]

theorem names_of_decodeMsg {postData split : List UInt8} {parts : List Part}
    (h : decodeMsg postData split = some parts) :
    parts.map Prod.fst = (named postData split).map Prod.fst := by
  rw [decodeMsg_eq] at h
  exact names_of_mapM h

/-! ## Ranges whose end lies before their start -/

/-- There is a byte behind the closing quote, and what stands before the last one is empty or
more than line breaks. -/
def HasValue (rest : List UInt8) : Prop :=
  rest ≠ [] ∧ (rest.dropLast = [] ∨ ∃ b ∈ rest.dropLast, b ≠ 13 ∧ b ≠ 10)

theorem isSome_readValue_iff (rest : List UInt8) : (readValue rest).isSome ↔ HasValue rest := by
  rw [readValue, HasValue]
  by_cases hrest : rest = []
  · simp [hrest]
  · rw [if_neg hrest, strip]
    by_cases hempty : rest.dropLast = []
    · simp [hempty, hrest]
    · simp [hempty, hrest, isLineBreak]

/-- `decodeMsg` comes to its end and returns 0 or -1, and every range it makes a string of
goes forwards, exactly where each name before the first part without one has a value. -/
theorem decodeMsg_returns_iff (postData boundary : List UInt8) :
    (∃ ret : Int, (ret = 0 ∨ ret = -1) ∧ ∀ rounds, postData.length < rounds →
      decodeMsgWithin rounds postData (45 :: boundary) = some (some ret)) ↔
      ∀ part ∈ named postData (45 :: boundary), HasValue part.2 := by
  have hnamed : (∀ part ∈ named postData (45 :: boundary), HasValue part.2) ↔
      (decodeMsg postData (45 :: boundary)).isSome := by
    rw [decodeMsg_eq, mapM_readPart_isSome]
    refine forall₂_congr fun part _ => ?_
    rw [readPart, Option.isSome_map, isSome_readValue_iff]
  have hwithin (rounds : Nat) (h : postData.length < rounds) :
      decodeMsgWithin rounds postData (45 :: boundary) =
        some ((decodeMsg postData (45 :: boundary)).map parsedRet) :=
    decodeMsgWithin_eq (List.cons_ne_nil 45 boundary) h
  rw [hnamed]
  constructor
  · rintro ⟨ret, _, hret⟩
    have hlast := hret (postData.length + 1) (by omega)
    rw [hwithin _ (by omega)] at hlast
    rw [← Option.isSome_map (f := parsedRet), Option.some.inj hlast, Option.isSome_some]
  · intro h
    obtain ⟨parts, hparts⟩ := Option.isSome_iff_exists.mp h
    refine ⟨parsedRet parts, ?_, fun rounds hrounds => ?_⟩
    · rw [parsedRet]
      split
      · exact Or.inr rfl
      · exact Or.inl rfl
    · rw [hwithin rounds hrounds, hparts, Option.map_some]

/-- Without a boundary a dash separates, and here one follows a closing quote. -/
theorem not_returns_noValue :
    ¬ ∃ ret : Int, (ret = 0 ∨ ret = -1) ∧
      ∀ rounds, (CString.lit "-name=\"user\"-").bytes.length < rounds →
        decodeMsgWithin rounds (CString.lit "-name=\"user\"-").bytes [45] = some (some ret) := by
  rintro ⟨ret, _, hret⟩
  have hthrows : decodeMsgWithin 14 (CString.lit "-name=\"user\"-").bytes [45] = some none := by
    decide +kernel
  have hlast := hret 14 (by decide +kernel)
  rw [hthrows] at hlast
  cases hlast

/-! ## The six fields -/

/-- The fields that `UploadMsg` gives access to. -/
def uploadFields : List (List UInt8) :=
  ["file_name", "file_content_type", "file_path", "file_md5", "file_size", "user"].map
    fun field => (CString.lit field).bytes

/-- Every field once, and nothing else. -/
def Complete (names : List (List UInt8)) : Prop :=
  (∀ field ∈ uploadFields, names.count field = 1) ∧ ∀ name ∈ names, name ∈ uploadFields

/-- A statement of `storeFileinfo`. -/
def Stores : Server.Command → Prop
  | .update _ => True
  | _ => False

/-- The body is only accepted, and only leads to a statement, with all fields. -/
def AcceptsComplete (postData split : List UInt8) (parts : List Part) : Prop :=
  (parsedRet parts = 0 → Complete ((named postData split).map Prod.fst)) ∧
    ∀ cfg, Uses (fun c => Stores c → Complete ((named postData split).map Prod.fst))
      (apiUpload cfg postData split)

theorem nodup_uploadFields : uploadFields.Nodup := by
  decide +kernel

theorem complete_of_nodup {names : List (List UInt8)} (hlength : names.length = fieldCnt)
    (hnodup : names.Nodup) (hfields : ∀ name ∈ names, name ∈ uploadFields) : Complete names := by
  refine ⟨fun field hfield => ?_, hfields⟩
  -- as many different names as there are fields
  have hperm : names.Perm uploadFields :=
    (List.subperm_of_subset hnodup hfields).perm_of_length_le (by rw [hlength]; rfl)
  rw [hperm.count_eq, List.count_eq_one_of_mem nodup_uploadFields hfield]

theorem Complete.nodup {names : List (List UInt8)} (h : Complete names) : names.Nodup := by
  rw [List.nodup_iff_count_eq_one]
  exact fun name hname => h.1 name (h.2 name hname)

/-- Without six parts the upload ends before its first statement. -/
theorem uses_apiUpload_of_length {P : Server.Command → Prop} {cfg : UploadConfig}
    {postData split : List UInt8} {parts : List Part}
    (hparts : decodeMsg postData split = some parts) (hlength : parts.length ≠ fieldCnt)
    (hget : P (.getDBConn .tuchuangMaster)) (hrel : P (.relDBConn .tuchuangMaster)) :
    Uses P (apiUpload cfg postData split) := by
  refine uses_bind ⟨hget, fun _ => trivial⟩ fun ptr => uses_bind ?_ fun _ => ?_
  · rw [hparts]
    change Uses P (if parts.length ≠ fieldCnt then _ else _)
    rw [if_pos hlength]
    trivial
  cases ptr with
  | null => trivial
  | conn => exact ⟨hrel, fun _ => trivial⟩

theorem acceptsComplete_iff {postData split : List UInt8} {parts : List Part}
    (hparts : decodeMsg postData split = some parts) :
    AcceptsComplete postData split parts ↔
      (named postData split).length ≠ 6 ∨
        (((named postData split).map Prod.fst).Nodup ∧
          ∀ name ∈ (named postData split).map Prod.fst, name ∈ uploadFields) := by
  have hlength : (named postData split).length = parts.length := by
    rw [← List.length_map (f := Prod.fst), ← names_of_decodeMsg hparts, List.length_map]
  constructor
  · rintro ⟨haccept, -⟩
    by_cases hsix : (named postData split).length = 6
    · have hcomplete := haccept (if_neg (by rw [← hlength, hsix]; decide))
      exact Or.inr ⟨hcomplete.nodup, hcomplete.2⟩
    · exact Or.inl hsix
  · rintro (hsix | ⟨hnodup, hfields⟩)
    · have hfew : parts.length ≠ fieldCnt := by rwa [← hlength]
      refine ⟨fun hret => ?_, fun cfg => ?_⟩
      · rw [parsedRet, if_pos hfew] at hret
        cases hret
      · exact uses_apiUpload_of_length hparts hfew (fun h => h.elim) (fun h => h.elim)
    · by_cases hsix : parts.length = fieldCnt
      · have hcomplete := complete_of_nodup (by rw [List.length_map, hlength, hsix]) hnodup hfields
        exact ⟨fun _ => hcomplete, fun cfg => uses_of_forall (fun _ _ => hcomplete) _⟩
      · refine ⟨fun hret => ?_, fun cfg => ?_⟩
        · rw [parsedRet, if_pos hsix] at hret
          cases hret
        · exact uses_apiUpload_of_length hparts hsix (fun h => h.elim) (fun h => h.elim)

/-- Six parts of one name. -/
def repeatedBody : List UInt8 :=
  (List.replicate 6 (CString.lit "-name=\"user\"a\n").bytes).flatten ++ [45]

def repeatedParts : List Part :=
  List.replicate 6 ((CString.lit "user").bytes, (CString.lit "a").bytes)

theorem decodeMsg_repeatedBody : decodeMsg repeatedBody [45] = some repeatedParts := by
  decide +kernel

theorem acceptsComplete_iff_repeated :
    AcceptsComplete repeatedBody [45] repeatedParts ↔
      (named repeatedBody [45]).length ≠ 6 ∨
        (((named repeatedBody [45]).map Prod.fst).Nodup ∧
          ∀ name ∈ (named repeatedBody [45]).map Prod.fst, name ∈ uploadFields) :=
  acceptsComplete_iff decodeMsg_repeatedBody

theorem not_acceptsComplete_repeated :
    decodeMsg repeatedBody [45] = some repeatedParts ∧
      ¬ AcceptsComplete repeatedBody [45] repeatedParts := by
  refine ⟨decodeMsg_repeatedBody, fun h => ?_⟩
  have huser : (CString.lit "user").bytes ∈ uploadFields := by decide +kernel
  have hcount := (h.1 rfl).1 _ huser
  rw [← names_of_decodeMsg decodeMsg_repeatedBody] at hcount
  revert hcount
  decide +kernel

end Api
end TcMuzi
