import TcMuzi.Base.JsonReader

/-!
# The recursion of the reader ends

Every token takes at least one byte (`length_readToken_lt`), so does every value
(`progressAt`), and the bound of `parse` on the depth of the recursion is never met:
`readValue_fuel` says that a larger bound changes nothing.
-/

namespace TcMuzi
namespace Base
namespace Reader

variable {sscanf : Sscanf}

/-! ## Tokens -/

theorem length_readCStyleComment_le (bytes : List UInt8) :
    (readCStyleComment bytes).2.length ≤ bytes.length := by
  induction bytes with
  | nil => exact le_rfl
  | cons c rest ih =>
      rw [readCStyleComment]
      split
      · simp only [List.length_tail, List.length_cons]
        omega
      · exact ih.trans (Nat.le_succ _)

theorem length_readCppStyleComment_le (bytes : List UInt8) :
    (readCppStyleComment bytes).length ≤ bytes.length := by
  induction bytes with
  | nil => exact le_rfl
  | cons c rest ih =>
      rw [readCppStyleComment]
      split
      · exact Nat.le_succ _
      · exact ih.trans (Nat.le_succ _)

theorem length_readComment_le (bytes : List UInt8) :
    (readComment bytes).2.length ≤ bytes.length := by
  cases bytes with
  | nil => exact le_rfl
  | cons c rest =>
      rw [readComment]
      split
      · exact (length_readCStyleComment_le rest).trans (Nat.le_succ _)
      · split
        · exact (length_readCppStyleComment_le rest).trans (Nat.le_succ _)
        · exact Nat.le_succ _

theorem length_readString_le (bytes : List UInt8) :
    (readString bytes).2.length ≤ bytes.length := by
  induction bytes using readString.induct with
  | case1 => rw [readString.eq_def]
  | case2 => rw [readString.eq_def]; simp
  | case3 c rest ih =>
      rw [readString.eq_def]
      simp only [if_true, List.length_cons]
      omega
  | case4 rest h =>
      rw [readString.eq_def]
      simp
  | case5 c rest hslash hquote ih =>
      rw [readString.eq_def]
      simp only [if_neg hslash, if_neg hquote, List.length_cons]
      omega

theorem length_matchPattern_le {pattern bytes rest : List UInt8}
    (h : matchPattern pattern bytes = some rest) : rest.length ≤ bytes.length := by
  rw [matchPattern] at h
  split_ifs at h
  cases h
  rw [List.length_drop]
  omega

theorem length_ite_le {p : Prop} [Decidable p] {a b : TokenType × List UInt8} {n : Nat}
    (ha : a.2.length ≤ n) (hb : b.2.length ≤ n) : (if p then a else b).2.length ≤ n := by
  split
  · exact ha
  · exact hb

/-- A token takes its first byte at least. -/
theorem length_scanToken_le (c : UInt8) (rest : List UInt8) :
    (scanToken (c :: rest)).2.length ≤ rest.length := by
  have hnumber : (readNumber rest).length ≤ rest.length :=
    (List.dropWhile_suffix isNumberByte).length_le
  rw [scanToken]
  -- braces and brackets, then strings, comments, numbers, literals and the rest
  refine length_ite_le le_rfl (length_ite_le le_rfl (length_ite_le le_rfl (length_ite_le le_rfl ?_)))
  refine length_ite_le (length_readString_le rest) (length_ite_le (length_readComment_le rest) ?_)
  refine length_ite_le hnumber (length_ite_le ?_ (length_ite_le ?_ (length_ite_le ?_ ?_)))
  · split
    · exact length_matchPattern_le ‹_›
    · exact le_rfl
  · split
    · exact length_matchPattern_le ‹_›
    · exact le_rfl
  · split
    · exact length_matchPattern_le ‹_›
    · exact le_rfl
  · exact length_ite_le le_rfl (length_ite_le le_rfl (length_ite_le le_rfl le_rfl))

theorem length_skipSpaces_le (bytes : List UInt8) : (skipSpaces bytes).length ≤ bytes.length :=
  (List.dropWhile_suffix isSpace).length_le

theorem length_readToken_le (bytes : List UInt8) :
    (readToken bytes).2.length ≤ bytes.length := by
  show (scanToken (skipSpaces bytes)).2.length ≤ _
  refine le_trans ?_ (length_skipSpaces_le bytes)
  cases skipSpaces bytes with
  | nil => exact le_rfl
  | cons c rest => exact (length_scanToken_le c rest).trans (Nat.le_succ _)

theorem length_readToken_lt {bytes : List UInt8} (h : (readToken bytes).1.type ≠ .endOfStream) :
    (readToken bytes).2.length < bytes.length := by
  show (scanToken (skipSpaces bytes)).2.length < _
  refine lt_of_lt_of_le ?_ (length_skipSpaces_le bytes)
  have htype : (scanToken (skipSpaces bytes)).1 ≠ .endOfStream := h
  cases hskip : skipSpaces bytes with
  | nil => exact absurd (by rw [hskip]; rfl) htype
  | cons c rest => exact Nat.lt_succ_of_le (length_scanToken_le c rest)

theorem length_skipComments_le (fuel : Nat) (bytes : List UInt8) :
    (skipComments fuel bytes).2.length ≤ bytes.length := by
  induction fuel generalizing bytes with
  | zero => exact length_readToken_le bytes
  | succ fuel ih =>
      rw [skipComments]
      split
      · exact (ih _).trans (length_readToken_le bytes)
      · exact length_readToken_le bytes

theorem length_skipComments_lt {fuel : Nat} {bytes : List UInt8}
    (h : (skipComments fuel bytes).1.type ≠ .endOfStream) :
    (skipComments fuel bytes).2.length < bytes.length := by
  induction fuel generalizing bytes with
  | zero => exact length_readToken_lt h
  | succ fuel ih =>
      rw [skipComments] at h ⊢
      split at h
      · rename_i hcomment
        rw [if_pos hcomment]
        exact (ih h).trans_le (length_readToken_le bytes)
      · rename_i hcomment
        rw [if_neg hcomment]
        exact length_readToken_lt h

theorem length_skipCommentTokens_lt {bytes : List UInt8}
    (h : (skipCommentTokens bytes).1.type ≠ .endOfStream) :
    (skipCommentTokens bytes).2.length < bytes.length :=
  length_skipComments_lt h

theorem length_skipCommentTokens_le (bytes : List UInt8) :
    (skipCommentTokens bytes).2.length ≤ bytes.length :=
  length_skipComments_le _ bytes

/-! ## Values -/

/-- Each of the four functions takes a byte when it succeeds. -/
structure ProgressAt (sscanf : Sscanf) (fuel : Nat) : Prop where
  value : ∀ {bytes rest : List UInt8} {v : Json},
    readValue sscanf fuel bytes = some (v, rest) → rest.length < bytes.length
  object : ∀ {name bytes rest : List UInt8} {members : List (CString × Json)} {v : Json},
    readObject sscanf fuel name members bytes = some (v, rest) → rest.length < bytes.length
  array : ∀ {bytes rest : List UInt8} {v : Json},
    readArray sscanf fuel bytes = some (v, rest) → rest.length < bytes.length
  items : ∀ {bytes rest : List UInt8} {items : List Json} {v : Json},
    readItems sscanf fuel items bytes = some (v, rest) → rest.length < bytes.length

theorem ProgressAt.readValue_succ {fuel : Nat} (ih : ProgressAt sscanf fuel)
    {bytes rest : List UInt8} {v : Json}
    (h : readValue sscanf (fuel + 1) bytes = some (v, rest)) : rest.length < bytes.length := by
  rw [readValue] at h
  have hle := length_skipCommentTokens_le bytes
  have hlt := @length_skipCommentTokens_lt bytes
  cases htype : (skipCommentTokens bytes).1.type <;> simp only [htype] at h hlt
  case objectBegin => exact (ih.object h).trans_le hle
  case arrayBegin => exact (ih.array h).trans_le hle
  case number =>
    obtain ⟨value, _, heq⟩ := Option.map_eq_some_iff.mp h
    cases heq
    exact hlt (by decide)
  case string =>
    obtain ⟨s, _, heq⟩ := Option.map_eq_some_iff.mp h
    cases heq
    exact hlt (by decide)
  case true | false | null =>
    cases h
    exact hlt (by decide)
  all_goals cases h

theorem ProgressAt.readObject_succ {fuel : Nat} (ih : ProgressAt sscanf fuel)
    {name bytes rest : List UInt8} {members : List (CString × Json)} {v : Json}
    (h : readObject sscanf (fuel + 1) name members bytes = some (v, rest)) :
    rest.length < bytes.length := by
  rw [readObject] at h
  have hname := length_skipCommentTokens_le bytes
  simp only at h
  split_ifs at h with hend hstring hcolon
  · cases h
    exact length_skipCommentTokens_lt (by rw [hend.1]; decide)
  · obtain ⟨name', _, h⟩ := Option.bind_eq_some_iff.mp h
    obtain ⟨⟨value, current⟩, hvalue, h⟩ := Option.bind_eq_some_iff.mp h
    have hcolon := length_readToken_le (skipCommentTokens bytes).2
    have hvalue := ih.value hvalue
    have hcomma := length_readToken_le current
    simp only at h
    cases htype : (readToken current).1.type <;> simp only [htype] at h
    case objectEnd =>
      cases h
      omega
    case arraySeparator =>
      have hrest := ih.object h
      omega
    case comment =>
      have hskip := length_skipCommentTokens_le (readToken current).2
      split_ifs at h
      · cases h
        omega
      · have hrest := ih.object h
        omega
    all_goals cases h
  · obtain ⟨name', _, h⟩ := Option.bind_eq_some_iff.mp h
    cases h

theorem ProgressAt.readItems_succ {fuel : Nat} (ih : ProgressAt sscanf fuel)
    {bytes rest : List UInt8} {items : List Json} {v : Json}
    (h : readItems sscanf (fuel + 1) items bytes = some (v, rest)) : rest.length < bytes.length := by
  rw [readItems] at h
  obtain ⟨⟨value, current⟩, hvalue, h⟩ := Option.bind_eq_some_iff.mp h
  have hvalue := ih.value hvalue
  have hskip := length_skipCommentTokens_le current
  simp only at h
  cases htype : (skipCommentTokens current).1.type <;> simp only [htype] at h
  case arraySeparator =>
    have hrest := ih.items h
    omega
  case arrayEnd =>
    cases h
    omega
  all_goals cases h

theorem ProgressAt.readArray_succ {fuel : Nat} (ih : ProgressAt sscanf fuel)
    {bytes rest : List UInt8} {v : Json}
    (h : readArray sscanf (fuel + 1) bytes = some (v, rest)) : rest.length < bytes.length := by
  rw [readArray] at h
  split_ifs at h with hempty
  · cases h
    have hskip := length_skipSpaces_le bytes
    have hread : (readToken (skipSpaces bytes)).2.length < (skipSpaces bytes).length := by
      refine length_readToken_lt ?_
      obtain ⟨rest, hrest⟩ := List.head?_eq_some_iff.mp hempty
      have htype : (readToken (93 :: rest)).1.type = .arrayEnd := rfl
      rw [hrest, htype]
      decide
    omega
  · exact ih.items h

theorem progressAt (sscanf : Sscanf) (fuel : Nat) : ProgressAt sscanf fuel := by
  induction fuel with
  | zero =>
      refine ⟨fun h => ?_, fun h => ?_, fun h => ?_, fun h => ?_⟩
      · rw [readValue] at h
        cases h
      · rw [readObject] at h
        cases h
      · rw [readArray] at h
        cases h
      · rw [readItems] at h
        cases h
  | succ fuel ih =>
      exact ⟨ih.readValue_succ, ih.readObject_succ, ih.readArray_succ, ih.readItems_succ⟩

/-! ## The bound -/

/-- From one bound on, each of the four functions yields what it yields with another bound. -/
structure SettledAt (sscanf : Sscanf) (n m : Nat) : Prop where
  value : ∀ bytes : List UInt8, 3 * bytes.length < n → 3 * bytes.length < m →
    readValue sscanf n bytes = readValue sscanf m bytes
  object : ∀ (name : List UInt8) (members : List (CString × Json)) (bytes : List UInt8),
    3 * bytes.length < n → 3 * bytes.length < m →
    readObject sscanf n name members bytes = readObject sscanf m name members bytes
  array : ∀ bytes : List UInt8, 3 * bytes.length + 2 < n → 3 * bytes.length + 2 < m →
    readArray sscanf n bytes = readArray sscanf m bytes
  items : ∀ (items : List Json) (bytes : List UInt8),
    3 * bytes.length + 1 < n → 3 * bytes.length + 1 < m →
    readItems sscanf n items bytes = readItems sscanf m items bytes

theorem SettledAt.readValue_succ {n m : Nat} (ih : SettledAt sscanf n m) (bytes : List UInt8)
    (hn : 3 * bytes.length < n + 1) (hm : 3 * bytes.length < m + 1) :
    readValue sscanf (n + 1) bytes = readValue sscanf (m + 1) bytes := by
  rw [readValue, readValue]
  have hlt := @length_skipCommentTokens_lt bytes
  cases htype : (skipCommentTokens bytes).1.type <;> simp only [htype] at hlt ⊢
  case objectBegin =>
    have hlt := hlt (by decide)
    exact ih.object _ _ _ (by omega) (by omega)
  case arrayBegin =>
    have hlt := hlt (by decide)
    exact ih.array _ (by omega) (by omega)

theorem SettledAt.readObject_succ {n m : Nat} (ih : SettledAt sscanf n m) (name : List UInt8)
    (members : List (CString × Json)) (bytes : List UInt8) (hn : 3 * bytes.length < n + 1)
    (hm : 3 * bytes.length < m + 1) :
    readObject sscanf (n + 1) name members bytes =
      readObject sscanf (m + 1) name members bytes := by
  rw [readObject, readObject]
  simp only
  by_cases hend : (skipCommentTokens bytes).1.type = .objectEnd ∧ name = []
  · rw [if_pos hend, if_pos hend]
  rw [if_neg hend, if_neg hend]
  by_cases hstring : (skipCommentTokens bytes).1.type = .string
  · have hname := @length_skipCommentTokens_lt bytes (by rw [hstring]; decide)
    have hcolon := length_readToken_le (skipCommentTokens bytes).2
    rw [if_pos hstring, if_pos hstring,
      ih.value (readToken (skipCommentTokens bytes).2).2 (by omega) (by omega)]
    cases hvalue : readValue sscanf m (readToken (skipCommentTokens bytes).2).2 with
    | none => rfl
    | some result =>
        have hlt := (progressAt sscanf m).value hvalue
        have hcomma := length_readToken_le result.2
        have hskip := length_skipCommentTokens_le (readToken result.2).2
        have hobject := fun name members => ih.object name members (readToken result.2).2
          (by omega) (by omega)
        have hcomment := fun name members =>
          ih.object name members (skipCommentTokens (readToken result.2).2).2 (by omega) (by omega)
        simp only [Option.bind_eq_bind, Option.bind_some, hobject, hcomment]
  · rw [if_neg hstring, if_neg hstring]

theorem SettledAt.readItems_succ {n m : Nat} (ih : SettledAt sscanf n m) (items : List Json)
    (bytes : List UInt8) (hn : 3 * bytes.length + 1 < n + 1)
    (hm : 3 * bytes.length + 1 < m + 1) :
    readItems sscanf (n + 1) items bytes = readItems sscanf (m + 1) items bytes := by
  rw [readItems, readItems, ih.value bytes (by omega) (by omega)]
  cases hvalue : readValue sscanf m bytes with
  | none => rfl
  | some result =>
      have hlt := (progressAt sscanf m).value hvalue
      have hskip := @length_skipCommentTokens_lt result.2
      simp only [Option.bind_eq_bind, Option.bind_some]
      cases htype : (skipCommentTokens result.2).1.type <;> simp only [htype] at hskip ⊢
      case arraySeparator =>
        have hskip := hskip (by decide)
        exact ih.items _ _ (by omega) (by omega)

theorem settledAt (sscanf : Sscanf) (n m : Nat) : SettledAt sscanf n m := by
  induction n generalizing m with
  | zero =>
      refine ⟨fun _ h => ?_, fun _ _ _ h => ?_, fun _ h => ?_, fun _ _ h => ?_⟩ <;>
        exact absurd h (Nat.not_lt_zero _)
  | succ n ih =>
      cases m with
      | zero =>
          refine ⟨fun _ _ h => ?_, fun _ _ _ _ h => ?_, fun _ _ h => ?_, fun _ _ _ h => ?_⟩ <;>
            exact absurd h (Nat.not_lt_zero _)
      | succ m =>
          refine ⟨(ih m).readValue_succ, (ih m).readObject_succ, fun bytes hn hm => ?_,
            (ih m).readItems_succ⟩
          rw [readArray, readArray, (ih m).items [] bytes (by omega) (by omega)]

/-- **A larger bound on the recursion changes nothing.** -/
theorem readValue_fuel (sscanf : Sscanf) {n : Nat} {bytes : List UInt8}
    (h : 3 * bytes.length < n) :
    (readValue sscanf n bytes).map Prod.fst = parse sscanf bytes := by
  rw [parse, (settledAt sscanf n _).value bytes h (Nat.lt_succ_self _)]

end Reader
end Base
end TcMuzi
