import TcMuzi.Api.Request

/-!
# The parameters of a URL

`QueryParseKeyValue` searches the whole URL for the key.  What it finds is compared with
the parameters that the URL has, and with the commands the entry points act on.
-/

namespace TcMuzi
namespace Api

open Base Server Lib

/-! ## Parameters -/

/-- From behind a `?` or a `&` to the next `&`, the next `#` or the end. -/
def parameterText (rest : List UInt8) : List UInt8 :=
  rest.takeWhile fun b => b ≠ 38 && b ≠ 35

/-- The parameter at the start of a text has this name. -/
def Named (key rest : List UInt8) : Prop :=
  61 ∉ key ∧ key ++ [61] <+: parameterText rest

instance (key rest : List UInt8) : Decidable (Named key rest) :=
  inferInstanceAs (Decidable (_ ∧ _))

/-- The value of the first parameter of a name. -/
def parameter (key : List UInt8) : List UInt8 → Option (List UInt8)
  | [] => none
  | b :: rest =>
      if (b = 63 ∨ b = 38) ∧ Named key rest then
        some ((parameterText rest).drop (key.length + 1))
      else parameter key rest

/-- A parameter of this name stands behind the first text. -/
def ParameterAt (key before found : List UInt8) : Prop :=
  (before.getLast? = some 63 ∨ before.getLast? = some 38) ∧ Named key found

/-- No byte that ends a name or a parameter. -/
def Nameable (key : List UInt8) : Prop := ∀ b ∈ key, b ≠ 38 ∧ b ≠ 35 ∧ b ≠ 61

section Parameters

variable {key rest : List UInt8}

theorem parameterText_append (hname : Nameable key) :
    parameterText (key ++ 61 :: rest) = key ++ 61 :: parameterText rest := by
  have hkey : ∀ b ∈ key, (b ≠ 38 && b ≠ 35) = true := by
    intro b hb
    simpa using ⟨(hname b hb).1, (hname b hb).2.1⟩
  rw [parameterText, List.takeWhile_append_of_pos hkey]
  rfl

theorem named_iff : Named key rest ↔ Nameable key ∧ ∃ value, rest = key ++ 61 :: value := by
  constructor
  · rintro ⟨heq, hpre⟩
    have hname : Nameable key := by
      intro b hb
      have hend := List.mem_takeWhile_imp (hpre.subset (List.mem_append_left _ hb))
      simp only [ne_eq, Bool.and_eq_true, decide_eq_true_eq] at hend
      exact ⟨hend.1, hend.2, fun h => heq (h ▸ hb)⟩
    obtain ⟨value, hvalue⟩ := hpre.trans (List.takeWhile_prefix _)
    exact ⟨hname, value, by rw [← hvalue, List.append_assoc]; rfl⟩
  · rintro ⟨hname, value, rfl⟩
    refine ⟨fun h => (hname 61 h).2.2 rfl, parameterText value, ?_⟩
    rw [parameterText_append hname, List.append_assoc]
    rfl

/-- A named parameter is an occurrence of its name. -/
theorem isPrefix_of_named (h : Named key rest) : key <+: rest := by
  obtain ⟨_, value, rfl⟩ := named_iff.mp h
  exact List.prefix_append key (61 :: value)

theorem parameter_eq_none (h : ¬ key <:+: rest) : parameter key rest = none := by
  induction rest with
  | nil => rfl
  | cons b rest ih =>
      rw [List.infix_cons_iff, not_or] at h
      rw [parameter, if_neg (fun hnamed => h.2 (isPrefix_of_named hnamed.2).isInfix)]
      exact ih h.2

/-- Where the first occurrence of the name is a parameter's, it is the first parameter's. -/
theorem parameter_of_clear {before found : List UInt8} (hclear : Search.Clear key before found)
    (hat : ParameterAt key before found) :
    parameter key (before ++ found) = some ((parameterText found).drop (key.length + 1)) := by
  obtain ⟨hlast, hnamed⟩ := hat
  induction before with
  | nil => simp at hlast
  | cons b before ih =>
      cases before with
      | nil =>
          have hb : b = 63 ∨ b = 38 := by simpa using hlast
          rw [List.cons_append, List.nil_append, parameter, if_pos ⟨hb, hnamed⟩]
      | cons c before =>
          -- a parameter here would be an earlier occurrence
          have hearlier : ¬ Named key (c :: before ++ found) := by
            intro h
            exact hclear.2.1 (isPrefix_of_named h)
          rw [List.cons_append, parameter, if_neg (fun h => hearlier h.2)]
          exact ih hclear.2 (by simpa using hlast)

end Parameters

/-! ## What the search finds -/

/-- `QueryParseKeyValue` succeeds where the query has a parameter of that name, yields the
value of the first one, and does not read its value from another place. -/
structure ParsesParameter (query key : CString) : Prop where
  returns : queryParseKeyValueRet query key = 0 ↔ (parameter key.bytes query.bytes).isSome
  yields : ∀ value, parameter key.bytes query.bytes = some value →
    (queryParseKeyValue query key).map CString.bytes = some value
  notTaken : ∀ before found, query.bytes = before ++ found →
    ¬ ParameterAt key.bytes before found → strstr key.bytes query.bytes ≠ some found

/-- The key occurs behind a `?` or a `&` and before a `=`, and not earlier. -/
def FirstIsParameter (query key : CString) : Prop :=
  Nameable key.bytes ∧
    ∃ before mark value, query.bytes = before ++ mark :: (key.bytes ++ 61 :: value) ∧
      (mark = 63 ∨ mark = 38) ∧
      Search.Clear key.bytes (before ++ [mark]) (key.bytes ++ 61 :: value)

section Search

variable {query key : CString}

theorem firstIsParameter_of_parameterAt {before found : List UInt8}
    (hquery : query.bytes = before ++ found) (hclear : Search.Clear key.bytes before found)
    (hat : ParameterAt key.bytes before found) : FirstIsParameter query key := by
  obtain ⟨hlast, hnamed⟩ := hat
  obtain ⟨hname, value, rfl⟩ := named_iff.mp hnamed
  have hmark : ∃ mark, before.getLast? = some mark ∧ (mark = 63 ∨ mark = 38) := by
    rcases hlast with h | h
    · exact ⟨63, h, Or.inl rfl⟩
    · exact ⟨38, h, Or.inr rfl⟩
  obtain ⟨mark, hgetLast, hmark⟩ := hmark
  obtain ⟨before, rfl⟩ := List.getLast?_eq_some_iff.mp hgetLast
  exact ⟨hname, before, mark, value, by rw [hquery, List.append_assoc]; rfl, hmark, hclear⟩

/-- What is read behind the key and one more byte. -/
theorem queryParseKeyValue_of_found {b : UInt8} {value : List UInt8}
    (hfound : strstr key.bytes query.bytes = some (key.bytes ++ b :: value)) :
    (queryParseKeyValue query key).map CString.bytes = some (parameterText value) := by
  have hdrop : (key.bytes ++ b :: value).drop key.length = b :: value :=
    List.drop_left
  have hends : (fun b : UInt8 => decide (b ≠ 35) && decide (b ≠ 38)) =
      fun b => decide (b ≠ 38) && decide (b ≠ 35) := by
    funext b
    exact Bool.and_comm _ _
  have hnul : 0 ∉ parameterText value := by
    rw [strstr_eq_find, Search.find_eq_some_iff] at hfound
    obtain ⟨_, before, hquery, _⟩ := hfound
    intro hzero
    apply query.nulFree
    rw [hquery]
    simp [List.takeWhile_subset _ hzero]
  rw [queryParseKeyValue, hfound]
  simp only [hdrop, hends, Option.map_some]
  exact congrArg some (CString.bytes_cStr hnul)

theorem parsesParameter_of_first (h : FirstIsParameter query key) :
    ParsesParameter query key := by
  obtain ⟨hname, before, mark, value, hquery, hmark, hclear⟩ := h
  have hquery' : query.bytes = (before ++ [mark]) ++ (key.bytes ++ 61 :: value) := by
    rw [hquery, List.append_assoc]
    rfl
  have hat : ParameterAt key.bytes (before ++ [mark]) (key.bytes ++ 61 :: value) := by
    refine ⟨?_, named_iff.mpr ⟨hname, value, rfl⟩⟩
    rcases hmark with rfl | rfl <;> simp
  have hparameter : parameter key.bytes query.bytes = some (parameterText value) := by
    rw [hquery', parameter_of_clear hclear hat, parameterText_append hname]
    simp
  have hfound : strstr key.bytes query.bytes = some (key.bytes ++ 61 :: value) := by
    rw [strstr_eq_find, Search.find_eq_some_iff]
    exact ⟨List.prefix_append _ _, _, hquery', hclear⟩
  constructor
  · simp [queryParseKeyValueRet, hfound, hparameter]
  · intro text htext
    obtain rfl : parameterText value = text := by simpa [hparameter] using htext
    exact queryParseKeyValue_of_found hfound
  · intro before' found hsplit hnot heq
    rw [hfound] at heq
    obtain rfl := Option.some.inj heq
    rw [hquery'] at hsplit
    rw [List.append_cancel_right hsplit] at hat
    exact hnot hat

theorem returns_of_first (h : FirstIsParameter query key) :
    queryParseKeyValueRet query key = 0 := by
  obtain ⟨_, before, mark, value, hquery, _, _⟩ := h
  have hoccurs : key.bytes <:+: query.bytes := by
    rw [hquery]
    exact (List.prefix_append _ _).isInfix.trans (List.suffix_append_of_suffix
      (List.suffix_cons mark _)).isInfix
  rw [queryParseKeyValueRet, strstr_eq_find, if_pos (Search.isSome_find_iff.mpr hoccurs)]

theorem first_of_parsesParameter (h : ParsesParameter query key)
    (hoccurs : key.bytes <:+: query.bytes) : FirstIsParameter query key := by
  obtain ⟨found, hfound⟩ := Option.isSome_iff_exists.mp (Search.isSome_find_iff.mpr hoccurs)
  obtain ⟨_, before, hquery, hclear⟩ := Search.find_eq_some_iff.mp hfound
  by_contra hfirst
  refine h.notTaken before found hquery (fun hat => hfirst ?_) ?_
  · exact firstIsParameter_of_parameterAt hquery hclear hat
  · rw [strstr_eq_find, hfound]

theorem parsesParameter_of_absent (h : ¬ key.bytes <:+: query.bytes) :
    ParsesParameter query key := by
  have hfound : strstr key.bytes query.bytes = none := by
    rw [strstr_eq_find, Search.find_eq_none_iff]
    exact h
  have hparameter := parameter_eq_none h
  constructor
  · simp [queryParseKeyValueRet, hfound, hparameter]
  · simp [hparameter]
  · simp [hfound]

end Search

/-! ## The entry points with a command -/

/-- The entry points that read their command from the URL. -/
def entryPoints (reader : JsonReader) (postData : List UInt8) :
    List (List UInt8 → Handler Response) :=
  [(apiMyfiles reader · postData), (apiDealfile reader · postData),
    (apiSharefile reader · postData), (apiSharePicture reader · postData),
    (apiDealsharefile reader · postData)]

/-- What every entry point goes on with, whatever it reads, is a command of the URL. -/
def ActsOnCarried (url : List UInt8) : Prop :=
  ∀ reader postData, ∀ entry ∈ entryPoints reader postData, ∃ act : CString → Handler Response,
    (∀ url', entry url' = parseCmd url' >>= act) ∧
      ∀ cmd, Exec anyAnswers (parseCmd url) () cmd () →
        parameter (CString.lit "cmd").bytes (CString.cStr url).bytes = some cmd.bytes

theorem entryPoint_eq {reader : JsonReader} {postData : List UInt8}
    {entry : List UInt8 → Handler Response} (h : entry ∈ entryPoints reader postData) :
    ∃ act, ∀ url, entry url = parseCmd url >>= act := by
  simp only [entryPoints, List.mem_cons, List.not_mem_nil, or_false] at h
  rcases h with rfl | rfl | rfl | rfl | rfl
  all_goals exact ⟨_, fun _ => rfl⟩

/-- Without a command in the URL every command may stand in the buffer. -/
theorem exec_parseCmd_iff {url : List UInt8} {cmd : CString} :
    Exec anyAnswers (parseCmd url) () cmd () ↔
      ∀ known, queryParseKeyValue (CString.cStr url) (CString.lit "cmd") = some known →
        cmd = known := by
  rw [parseCmd]
  cases queryParseKeyValue (CString.cStr url) (CString.lit "cmd") with
  | none => exact iff_of_true (.cmd trivial (.ret cmd ())) (fun _ h => by cases h)
  | some known =>
      constructor
      · intro hexec known' hknown
        obtain rfl := Option.some.inj hknown
        cases hexec
        rfl
      · intro h
        rw [h known rfl]
        exact .ret known ()

theorem actsOnCarried_of_first {url : List UInt8}
    (h : FirstIsParameter (CString.cStr url) (CString.lit "cmd")) : ActsOnCarried url := by
  intro reader postData entry hentry
  obtain ⟨act, hact⟩ := entryPoint_eq hentry
  refine ⟨act, hact, fun cmd hexec => ?_⟩
  have hparses := parsesParameter_of_first h
  obtain ⟨value, hvalue⟩ := Option.isSome_iff_exists.mp (hparses.returns.mp (returns_of_first h))
  obtain ⟨known, hknown, hbytes⟩ := Option.map_eq_some_iff.mp (hparses.yields value hvalue)
  rw [hvalue, ← hbytes, exec_parseCmd_iff.mp hexec known hknown]

/-- Without a command in the URL an entry point acts on one that is not carried. -/
theorem occurs_of_actsOnCarried {url : List UInt8} (h : ActsOnCarried url) :
    (CString.lit "cmd").bytes <:+: (CString.cStr url).bytes := by
  by_contra habsent
  obtain ⟨_, _, hcarried⟩ := h (fun _ => none) [] _ List.mem_cons_self
  have hunknown : queryParseKeyValue (CString.cStr url) (CString.lit "cmd") = none := by
    rw [queryParseKeyValue, strstr_eq_find, Search.find_eq_none_iff.mpr habsent]
  have hnone := hcarried CString.empty (exec_parseCmd_iff.mpr fun known hknown => by
    rw [hunknown] at hknown
    cases hknown)
  rw [parameter_eq_none habsent] at hnone
  cases hnone

/-- The parameter of a name is found, and for the command's name acted on, exactly where
the name does not occur earlier in the URL. -/
theorem parses_iff (url : List UInt8) (key : CString) :
    ParsesParameter (CString.cStr url) key ∧ (key = CString.lit "cmd" → ActsOnCarried url) ↔
      FirstIsParameter (CString.cStr url) key ∨
        (key ≠ CString.lit "cmd" ∧ ¬ key.bytes <:+: (CString.cStr url).bytes) := by
  constructor
  · rintro ⟨hparses, hacts⟩
    by_cases hoccurs : key.bytes <:+: (CString.cStr url).bytes
    · exact Or.inl (first_of_parsesParameter hparses hoccurs)
    · refine Or.inr ⟨?_, hoccurs⟩
      rintro rfl
      exact hoccurs (occurs_of_actsOnCarried (hacts rfl))
  · rintro (hfirst | ⟨hkey, habsent⟩)
    · refine ⟨parsesParameter_of_first hfirst, ?_⟩
      rintro rfl
      exact actsOnCarried_of_first hfirst
    · exact ⟨parsesParameter_of_absent habsent, fun h => absurd h hkey⟩

/-- The name of another parameter ends in `cmd`, and its value is taken for the command. -/
theorem not_parses_longerName :
    ¬ (ParsesParameter (CString.cStr (CString.lit "/api/dealsharefile?nocmd=cancel").bytes)
        (CString.lit "cmd") ∧
      (CString.lit "cmd" = CString.lit "cmd" →
        ActsOnCarried (CString.lit "/api/dealsharefile?nocmd=cancel").bytes)) := by
  rintro ⟨hparses, -⟩
  have hparameter := hparses.returns.mp (by decide +kernel)
  revert hparameter
  decide +kernel

end Api
end TcMuzi
