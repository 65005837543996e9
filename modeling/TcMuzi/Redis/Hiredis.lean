import TcMuzi.Base.CString

/-!
# The format of a command

`redisvFormatCommand` splits its format at spaces and replaces `%` directives, so a format that
is made of data is split where the data has a space.
-/

namespace TcMuzi
namespace Redis
namespace Hiredis

open Base

def space : UInt8 := 32
def percent : UInt8 := 37

/-! ## `redisvFormatCommand` -/

/-- The command, `format_err`, or the use of an argument that was not passed. -/
inductive Formatted
  | command (argv : List (List UInt8))
  | formatError
  | undefined
deriving DecidableEq

/-- The locals of the loop; `ap` has the arguments that are left, all of type `char *`. -/
structure Building where
  ap : List (List UInt8)
  curarg : List UInt8
  touched : Bool
  curargv : List (List UInt8)

namespace Building

/-- A byte that starts no directive. -/
def plain (b : Building) (c : UInt8) : Building :=
  if c = space then
    if b.touched then
      { b with curarg := [], touched := false, curargv := b.curargv ++ [b.curarg] }
    else b
  else { b with curarg := b.curarg ++ [c], touched := true }

def append (b : Building) (text : List UInt8) : Building :=
  { b with curarg := b.curarg ++ text, touched := true }

/-- "Add the last argument if needed". -/
def finish (b : Building) : List (List UInt8) :=
  if b.touched then b.curargv ++ [b.curarg] else b.curargv

end Building

/-- `strchr(intfmts, c) != NULL` for a byte that is no terminator. -/
def isIntConversion (c : UInt8) : Bool := [100, 105, 111, 117, 120, 88].contains c

def isDoubleConversion (c : UInt8) : Bool := [101, 69, 102, 70, 103, 71, 97, 65].contains c

/-- A conversion behind `hh`, `h`, `ll` or `l`. -/
def isSizedConversion : List UInt8 → Bool
  | 104 :: 104 :: p => p.head?.any isIntConversion
  | 108 :: 108 :: p => p.head?.any isIntConversion
  | 104 :: p => p.head?.any isIntConversion
  | 108 :: p => p.head?.any isIntConversion
  | _ => false

def isDigit (c : UInt8) : Bool := 48 ≤ c && c ≤ 57

/-- Whether `_p` gets to `fmt_valid`; `strchr` also finds the terminator of the format. -/
def isValid (format : List UInt8) : Bool :=
  let p := (format.dropWhile [35, 48, 45, 43, 32].contains).dropWhile isDigit
  let p := if p.head? = some 46 then p.tail.dropWhile isDigit else p
  p.head?.all isIntConversion || p.head?.any isDoubleConversion || isSizedConversion p

/-- The loop.  `%b` and the conversions of `printf` take arguments that are never passed. -/
def formatFrom : Building → List UInt8 → Formatted
  | b, [] => .command b.finish
  -- a `%` in front of the terminator is no directive
  | b, [c] => .command (b.plain c).finish
  | b, c :: d :: format =>
      if c ≠ percent then formatFrom (b.plain c) (d :: format)
      else if d = 115 then
        match b.ap with
        | [] => .undefined
        | arg :: ap => formatFrom ({ b with ap := ap }.append arg) format
      else if d = 98 then .undefined
      else if d = percent then formatFrom (b.append [percent]) format
      else if isValid (d :: format) then .undefined
      else .formatError

def formatCommand (format : CString) (ap : List (List UInt8)) : Formatted :=
  formatFrom ⟨ap, [], false, []⟩ format.bytes

/-! ## Words -/

theorem formatFrom_plain {c : UInt8} (hc : c ≠ percent) (b : Building) (format : List UInt8) :
    formatFrom b (c :: format) = formatFrom (b.plain c) format := by
  cases format with
  | nil => rfl
  | cons d format => rw [formatFrom, if_pos hc]

/-- The state in the middle of an argument. -/
def within (argv : List (List UInt8)) (curarg : List UInt8) : Building :=
  ⟨[], curarg, true, argv⟩

/-- The state in front of an argument. -/
def between (argv : List (List UInt8)) : Building := ⟨[], [], false, argv⟩

theorem formatFrom_within {word : List UInt8} (hspace : space ∉ word) (hpercent : percent ∉ word)
    (argv : List (List UInt8)) (curarg format : List UInt8) :
    formatFrom (within argv curarg) (word ++ format) =
      formatFrom (within argv (curarg ++ word)) format := by
  induction word generalizing curarg with
  | nil => rw [List.nil_append, List.append_nil]
  | cons c word ih =>
      rw [List.mem_cons, not_or] at hspace hpercent
      have hplain : (within argv curarg).plain c = within argv (curarg ++ [c]) := by
        rw [Building.plain, if_neg (Ne.symm hspace.1)]
        rfl
      rw [List.cons_append, formatFrom_plain (Ne.symm hpercent.1), hplain,
        ih hspace.2 hpercent.2, List.append_assoc, List.singleton_append]

/-- A word without spaces and directives goes into the argument as it is. -/
theorem formatFrom_word {word : List UInt8} (hne : word ≠ []) (hspace : space ∉ word)
    (hpercent : percent ∉ word) (argv : List (List UInt8)) (format : List UInt8) :
    formatFrom (between argv) (word ++ format) = formatFrom (within argv word) format := by
  cases word with
  | nil => exact absurd rfl hne
  | cons c word =>
      rw [List.mem_cons, not_or] at hspace hpercent
      have hplain : (between argv).plain c = within argv [c] := by
        rw [Building.plain, if_neg (Ne.symm hspace.1)]
        rfl
      rw [List.cons_append, formatFrom_plain (Ne.symm hpercent.1), hplain,
        formatFrom_within hspace.2 hpercent.2]
      rfl

theorem formatFrom_space (argv : List (List UInt8)) (word format : List UInt8) :
    formatFrom (within argv word) (space :: format) =
      formatFrom (between (argv ++ [word])) format := by
  rw [formatFrom_plain (by decide)]
  rfl

/-- Words that are sent as they are: only the last one may have a `%`, as its last byte. -/
def AreWords : List (List UInt8) → Prop
  | [] => True
  | [word] => word ≠ [] ∧ space ∉ word ∧ percent ∉ word.dropLast
  | word :: words => word ≠ [] ∧ space ∉ word ∧ percent ∉ word ∧ AreWords words

/-- A `%` at the end of the format is an ordinary byte. -/
theorem formatFrom_last {word : List UInt8} (hne : word ≠ []) (hspace : space ∉ word)
    (hpercent : percent ∉ word.dropLast) (argv : List (List UInt8)) :
    formatFrom (between argv) word = .command (argv ++ [word]) := by
  obtain ⟨init, c, rfl⟩ : ∃ init c, word = init ++ [c] :=
    ⟨_, _, (List.dropLast_concat_getLast hne).symm⟩
  rw [List.dropLast_concat] at hpercent
  have hinit : space ∉ init := fun h => hspace (List.mem_append_left _ h)
  have hc : c ≠ space := fun h => hspace (by simp [h])
  have hplain : ∀ b : Building, b.plain c = b.append [c] := fun b => by
    rw [Building.plain, if_neg hc]
    rfl
  by_cases hnil : init = []
  · subst hnil
    show Formatted.command ((between argv).plain c).finish = _
    rw [hplain]
    rfl
  · rw [formatFrom_word hnil hinit hpercent]
    show Formatted.command ((within argv init).plain c).finish = _
    rw [hplain]
    rfl

/-- Such words are the arguments again. -/
theorem formatFrom_words {words : List (List UInt8)} (hne : words ≠ []) (h : AreWords words)
    (argv : List (List UInt8)) :
    formatFrom (between argv) ([space].intercalate words) = .command (argv ++ words) := by
  induction words generalizing argv with
  | nil => exact absurd rfl hne
  | cons word words ih =>
      cases words with
      | nil =>
          rw [List.intercalate_singleton]
          exact formatFrom_last h.1 h.2.1 h.2.2 argv
      | cons next words =>
          rw [List.intercalate_cons_cons, List.append_assoc, formatFrom_word h.1 h.2.1 h.2.2.1,
            List.singleton_append, formatFrom_space,
            ih (List.cons_ne_nil _ _) h.2.2.2 (argv ++ [word]), List.append_assoc,
            List.singleton_append]

/-! ## What a format can become -/

/-- The arguments have bytes and no spaces. -/
def Separated (words : List (List UInt8)) : Prop := ∀ word ∈ words, word ≠ [] ∧ space ∉ word

/-- Nothing is left to be passed, and what was built has bytes and no spaces. -/
structure Building.Sound (b : Building) : Prop where
  ap : b.ap = []
  curargv : Separated b.curargv
  curarg : space ∉ b.curarg
  touched : b.touched = true → b.curarg ≠ []

theorem Building.Sound.finish {b : Building} (h : b.Sound) : Separated b.finish := by
  rw [Building.finish]
  split
  · rename_i htouched
    intro word hword
    rw [List.mem_append, List.mem_singleton] at hword
    obtain hword | rfl := hword
    · exact h.curargv word hword
    · exact ⟨h.touched htouched, h.curarg⟩
  · exact h.curargv

theorem Building.Sound.plain {b : Building} (h : b.Sound) (c : UInt8) : (b.plain c).Sound := by
  rw [Building.plain]
  split
  · split
    · rename_i htouched
      have hfinish := h.finish
      rw [Building.finish, if_pos htouched] at hfinish
      exact ⟨h.ap, hfinish, by simp, nofun⟩
    · exact h
  · rename_i hc
    exact ⟨h.ap, h.curargv, by simpa [h.curarg] using Ne.symm hc, fun _ => by simp⟩

theorem Building.Sound.percent {b : Building} (h : b.Sound) : (b.append [percent]).Sound :=
  ⟨h.ap, h.curargv, by simpa [Building.append, h.curarg] using by decide,
    fun _ => by simp [Building.append]⟩

/-- Without arguments, the only directive that can be formatted is `%%`. -/
theorem formatFrom_percent {b : Building} (hap : b.ap = []) {d : UInt8} {format : List UInt8}
    {argv : List (List UInt8)} (h : formatFrom b (percent :: d :: format) = .command argv) :
    d = percent ∧ formatFrom (b.append [percent]) format = .command argv := by
  rw [formatFrom, if_neg (not_not.mpr rfl), hap] at h
  split at h
  · cases h
  · split at h
    · cases h
    · split at h
      · rename_i hd
        exact ⟨hd, h⟩
      · split at h <;> cases h

theorem Building.curargv_prefix_finish (b : Building) : b.curargv <+: b.finish := by
  rw [finish]
  split
  · exact List.prefix_append _ _
  · exact List.prefix_refl _

theorem Building.curargv_prefix_plain (b : Building) (c : UInt8) :
    b.curargv <+: (b.plain c).curargv := by
  rw [plain]
  split
  · split
    · exact List.prefix_append _ _
    · exact List.prefix_refl _
  · exact List.prefix_refl _

/-- The arguments begin with those that are built. -/
theorem separated_of_formatFrom {b : Building} {format : List UInt8} {argv : List (List UInt8)}
    (hb : b.Sound) (h : formatFrom b format = .command argv) :
    b.curargv <+: argv ∧ Separated argv := by
  -- a directive takes two bytes of the format
  induction hlength : format.length using Nat.strong_induction_on generalizing b format with
  | _ n ih =>
      subst hlength
      cases format with
      | nil =>
          obtain rfl := Formatted.command.inj h
          exact ⟨b.curargv_prefix_finish, hb.finish⟩
      | cons c format =>
          by_cases hc : c = percent
          · subst hc
            cases format with
            | nil =>
                obtain rfl := Formatted.command.inj h
                exact ⟨(b.curargv_prefix_plain percent).trans
                  (b.plain percent).curargv_prefix_finish, (hb.plain percent).finish⟩
            | cons d format =>
                obtain ⟨rfl, hrest⟩ := formatFrom_percent hb.ap h
                have := ih format.length (by simp only [List.length_cons]; omega) hb.percent hrest rfl
                exact this
          · rw [formatFrom_plain hc] at h
            obtain ⟨hinitial, hseparated⟩ := ih format.length (by simp) (hb.plain c) h rfl
            exact ⟨(b.curargv_prefix_plain c).trans hinitial, hseparated⟩

/-- Inside a word, a directive makes the argument shorter than the word. -/
theorem formatFrom_shorter {word rest : List UInt8} (hspace : space ∉ word)
    (hrest : rest = [] ∨ ∃ format, rest = space :: format) {before argv : List (List UInt8)}
    {text : List UInt8} (h : formatFrom (within before text) (word ++ rest) = .command argv) :
    ∃ arg : List UInt8, formatFrom (within before (text ++ arg)) rest = .command argv ∧
      arg.length ≤ word.length ∧
      (arg.length = word.length → percent ∉ word ∨ rest = [] ∧ percent ∉ word.dropLast) := by
  induction hlength : word.length using Nat.strong_induction_on generalizing word text with
  | _ n ih =>
      subst hlength
      cases word with
      | nil => exact ⟨[], by simpa using h, Nat.le_refl _, fun _ => Or.inl (List.not_mem_nil)⟩
      | cons c word =>
          rw [List.mem_cons, not_or] at hspace
          have hplain : (within before text).plain c = within before (text ++ [c]) := by
            rw [Building.plain, if_neg (Ne.symm hspace.1)]
            rfl
          by_cases hc : c = percent
          · subst hc
            cases word with
            | nil =>
                -- a percent sign at the end of the format is kept, one before a blank refused
                obtain rfl | ⟨format, rfl⟩ := hrest
                · refine ⟨[percent], ?_, Nat.le_refl _, fun _ => Or.inr ⟨rfl, by simp⟩⟩
                  rw [← h]
                  show _ = Formatted.command ((within before text).plain percent).finish
                  rw [hplain]
                  rfl
                · obtain ⟨hd, _⟩ := formatFrom_percent (b := within before text) rfl h
                  exact absurd hd (by decide)
            | cons d word =>
                -- of the directives only `%%` sends a command, and it gives one byte for two
                obtain ⟨rfl, hformat⟩ := formatFrom_percent (b := within before text) rfl h
                have happend : (within before text).append [percent] =
                    within before (text ++ [percent]) := rfl
                rw [happend] at hformat
                obtain ⟨arg, harg, hle, _⟩ := ih word.length (by simp only [List.length_cons]; omega)
                  (fun hmem => hspace.2 (List.mem_cons_of_mem _ hmem)) hformat rfl
                refine ⟨percent :: arg, by simpa using harg, by simp; omega, fun heq => ?_⟩
                simp at heq
                omega
          · rw [List.cons_append, formatFrom_plain hc, hplain] at h
            obtain ⟨arg, harg, hle, hwhole⟩ := ih word.length (by simp) hspace.2 h rfl
            refine ⟨c :: arg, by simpa using harg, by simpa using hle, fun heq => ?_⟩
            obtain hnone | ⟨hnil, hnone⟩ := hwhole (by simpa using heq)
            · exact Or.inl (by simpa [hnone] using Ne.symm hc)
            · refine Or.inr ⟨hnil, ?_⟩
              cases word with
              | nil => simp
              | cons d word => simpa [hnone] using Ne.symm hc

/-- The first byte of a word begins an argument. -/
theorem formatFrom_between {word rest : List UInt8} (hne : word ≠ []) (hspace : space ∉ word)
    (argv : List (List UInt8)) :
    formatFrom (between argv) (word ++ rest) = formatFrom (within argv []) (word ++ rest) := by
  cases word with
  | nil => exact absurd rfl hne
  | cons c word =>
      rw [List.mem_cons, not_or] at hspace
      have hplain : (between argv).plain c = (within argv []).plain c := by
        rw [Building.plain, Building.plain, if_neg (Ne.symm hspace.1),
          if_neg (Ne.symm hspace.1)]
        rfl
      by_cases hc : c = percent
      · subst hc
        cases hformat : word ++ rest with
        | nil =>
            rw [List.cons_append, hformat]
            show Formatted.command _ = Formatted.command _
            rw [hplain]
        | cons d format =>
            rw [List.cons_append, hformat, formatFrom, formatFrom]
            rfl
      · rw [List.cons_append, formatFrom_plain hc, formatFrom_plain hc, hplain]

/-- Where every argument is as long as its word, the words are sent as they are. -/
theorem areWords_of_formatFrom {words : List (List UInt8)} (hwords : Separated words)
    {before argv : List (List UInt8)}
    (h : formatFrom (between before) ([space].intercalate words) = .command argv) :
    ∃ args : List (List UInt8), argv = before ++ args ∧ args.length = words.length ∧
      (args = words → AreWords words) := by
  induction words generalizing before with
  | nil =>
      obtain rfl := Formatted.command.inj h
      exact ⟨[], by simp [between, Building.finish], rfl, fun _ => trivial⟩
  | cons word words ih =>
      obtain ⟨hne, hspace⟩ := hwords word List.mem_cons_self
      cases words with
      | nil =>
          rw [List.intercalate_singleton, ← List.append_nil word,
            formatFrom_between hne hspace] at h
          obtain ⟨arg, harg, _, hwhole⟩ := formatFrom_shorter hspace (Or.inl rfl) h
          obtain rfl := Formatted.command.inj harg
          refine ⟨[arg], rfl, rfl, fun heq => ?_⟩
          obtain ⟨rfl, _⟩ := List.cons.inj heq
          refine ⟨hne, hspace, ?_⟩
          obtain hnone | ⟨_, hnone⟩ := hwhole rfl
          · exact fun hmem => hnone (List.dropLast_subset _ hmem)
          · exact hnone
      | cons next words =>
          rw [List.intercalate_cons_cons, List.append_assoc, List.singleton_append,
            formatFrom_between hne hspace] at h
          obtain ⟨arg, harg, _, hwhole⟩ := formatFrom_shorter hspace (Or.inr ⟨_, rfl⟩) h
          rw [List.nil_append, formatFrom_space] at harg
          obtain ⟨args, hargv, hlength, hrest⟩ :=
            ih (fun w hw => hwords w (List.mem_cons_of_mem _ hw)) harg
          refine ⟨arg :: args, by simp [hargv], by simp [hlength], fun heq => ?_⟩
          obtain ⟨rfl, rfl⟩ := List.cons.inj heq
          obtain hnone | ⟨habsurd, _⟩ := hwhole rfl
          · exact ⟨hne, hspace, hnone, hrest rfl⟩
          · cases habsurd

end Hiredis
end Redis
end TcMuzi
