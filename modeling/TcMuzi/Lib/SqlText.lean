import Mathlib.Algebra.GroupWithZero.Nat
import TcMuzi.Lib.Decimal

/-!
# SQL text with printed strings

The string literals of MySQL as a lexer that works byte by byte: quotes, doubled quotes and
backslash escapes.  A template is a format string with its arguments; printing it is
`sprintf`.  `tokenise_render_iff` says which arguments are read back as they were printed:
exactly the `Harmless` ones.
-/

namespace TcMuzi
namespace Lib
namespace SqlText

/-! ## Tokens -/

inductive Token
  | word (text : List UInt8)
  | symbol (b : UInt8)
  | literal (value : List UInt8)
deriving DecidableEq

inductive Mode
  -- outside literals, with the word read so far
  | code (word : List UInt8)
  | literal (quote : UInt8) (value : List UInt8)
  -- behind a backslash
  | escape (quote : UInt8) (value : List UInt8)
  -- behind a quote that ends the literal unless another one follows
  | closing (quote : UInt8) (value : List UInt8)
deriving DecidableEq

/-- The tokens that are complete, and what is being read. -/
structure Lexer where
  tokens : List Token
  mode : Mode
deriving DecidableEq

def Lexer.start : Lexer := ⟨[], .code []⟩

def singleQuote : UInt8 := 39

def backslash : UInt8 := 92

def isQuote (b : UInt8) : Bool := b = singleQuote || b = 34

def isWordByte (b : UInt8) : Bool :=
  (48 ≤ b && b ≤ 57) || (65 ≤ b && b ≤ 90) || (97 ≤ b && b ≤ 122) || b == 95 || b == 36 || 128 ≤ b

/-- The letters behind a backslash that stand for a control byte. -/
def controls : List (UInt8 × UInt8) := [(48, 0), (98, 8), (110, 10), (114, 13), (116, 9), (90, 26)]

/-- What a backslash and a byte stand for.  The pattern characters keep their backslash. -/
def unescape (b : UInt8) : List UInt8 :=
  if b = 37 ∨ b = 95 then [backslash, b] else [(controls.lookup b).getD b]

def wordToken (word : List UInt8) : List Token := if word = [] then [] else [.word word]

/-- Outside literals.  No template has comments, and no token behind the first literal that
differs matters, so they are not told apart here. -/
def codeStep (tokens : List Token) (word : List UInt8) (b : UInt8) : Lexer :=
  if isWordByte b then ⟨tokens, .code (word ++ [b])⟩
  else if isQuote b then ⟨tokens ++ wordToken word, .literal b []⟩
  else if Decimal.isSpace b then ⟨tokens ++ wordToken word, .code []⟩
  else ⟨tokens ++ wordToken word ++ [.symbol b], .code []⟩

def Lexer.step (l : Lexer) (b : UInt8) : Lexer :=
  match l.mode with
  | .code word => codeStep l.tokens word b
  | .literal quote value =>
      if b = quote then ⟨l.tokens, .closing quote value⟩
      else if b = backslash then ⟨l.tokens, .escape quote value⟩
      else ⟨l.tokens, .literal quote (value ++ [b])⟩
  | .escape quote value => ⟨l.tokens, .literal quote (value ++ unescape b)⟩
  | .closing quote value =>
      if b = quote then ⟨l.tokens, .literal quote (value ++ [b])⟩
      else codeStep (l.tokens ++ [.literal value]) [] b

/-- The end of the text: a literal must have ended. -/
def Lexer.finish (l : Lexer) : Option (List Token) :=
  match l.mode with
  | .code word => some (l.tokens ++ wordToken word)
  | .closing _ value => some (l.tokens ++ [.literal value])
  | _ => none

def tokenise (text : List UInt8) : Option (List Token) :=
  (text.foldl Lexer.step .start).finish

/-! ## Templates -/

/-- A part of a template. -/
inductive Piece
  | byte (b : UInt8)
  -- a string between quotes
  | string (arg : List UInt8)
  | number (n : Int)

inductive Arg
  | string (arg : List UInt8)
  | int (n : Int)

/-- A format string with its arguments: `'%s'` is a string, `%d` a number, and `'%ld'` the
string of a number's digits. -/
def pieces : List UInt8 → List Arg → List Piece
  | 39 :: 37 :: 115 :: 39 :: format, .string arg :: args => .string arg :: pieces format args
  | 39 :: 37 :: 108 :: 100 :: 39 :: format, .int n :: args =>
      .string (Decimal.ofInt n) :: pieces format args
  | 37 :: 100 :: format, .int n :: args => .number n :: pieces format args
  | b :: format, args => .byte b :: pieces format args
  | [], _ => []

def Piece.bytes : Piece → List UInt8
  | .byte b => [b]
  | .string arg => singleQuote :: arg ++ [singleQuote]
  | .number n => Decimal.ofInt n

/-- The text that `sprintf` prints. -/
def render (ps : List Piece) : List UInt8 := ps.flatMap Piece.bytes

/-- The lexer on a template: a string stands for the literal that denotes it. -/
def Lexer.stepPiece (l : Lexer) : Piece → Lexer
  | .string arg =>
      match l.mode with
      | .code word => ⟨l.tokens ++ wordToken word ++ [.literal arg], .code []⟩
      | _ => l
  | p => p.bytes.foldl Lexer.step l

/-- The tokens of the template with the strings in their places. -/
def templateTokens (ps : List Piece) : Option (List Token) :=
  (ps.foldl Lexer.stepPiece .start).finish

def strings (ps : List Piece) : List (List UInt8) :=
  ps.filterMap fun
    | .string arg => some arg
    | _ => none

/-- No quote outside the strings, and behind a string neither a quote nor a backslash. -/
def spaced : List Piece → Bool
  | [] => true
  | .byte b :: ps => !isQuote b && spaced ps
  | .number _ :: ps => spaced ps
  | [.string _] => true
  | .string _ :: .byte b :: ps => b != singleQuote && b != backslash && spaced (.byte b :: ps)
  | .string _ :: _ => false

/-- No quote, and every backslash stands before `%` or `_`. -/
def Harmless : List UInt8 → Prop
  | [] => True
  | [b] => b ≠ singleQuote ∧ b ≠ backslash
  | b :: c :: arg =>
      if b = backslash then (c = 37 ∨ c = 95) ∧ Harmless arg
      else b ≠ singleQuote ∧ Harmless (c :: arg)

/-! ## Reading one literal -/

/-- The value of the literal whose opening quote has been read. -/
def literalValue : List UInt8 → Option (List UInt8)
  | [] => none
  | [b] => if b = singleQuote then some [] else none
  | b :: c :: text =>
      if b = singleQuote then
        if c = singleQuote then (literalValue text).map (singleQuote :: ·) else some []
      else if b = backslash then (literalValue text).map (unescape c ++ ·)
      else (literalValue (c :: text)).map (b :: ·)

/-- The bytes that a literal does not hold as they are. -/
def Special (b : UInt8) : Prop := b = singleQuote ∨ b = backslash

theorem special_quote : Special singleQuote := Or.inl rfl

theorem special_backslash : Special backslash := Or.inr rfl

theorem unescape_cases (c : UInt8) :
    (unescape c = [backslash, c] ∧ (c = 37 ∨ c = 95)) ∨
      ∃ d, unescape c = [d] ∧ ¬ (c = 37 ∨ c = 95) ∧ (Special d → c = d) := by
  unfold unescape
  by_cases hpattern : c = 37 ∨ c = 95
  · rw [if_pos hpattern]
    exact Or.inl ⟨rfl, hpattern⟩
  · rw [if_neg hpattern]
    refine Or.inr ⟨_, rfl, hpattern, fun hspecial => ?_⟩
    cases hlookup : controls.lookup c with
    | none => rfl
    | some d =>
        rw [hlookup, Option.getD_some] at hspecial
        obtain ⟨front, back, hsplit, _⟩ := List.lookup_eq_some_iff.mp hlookup
        have hmem : (c, d) ∈ controls := by simp [hsplit]
        have hplain : (controls.all fun p => p.2 != singleQuote && p.2 != backslash) = true := by
          decide
        have hnot := List.all_eq_true.mp hplain (c, d) hmem
        simp only [Bool.and_eq_true, bne_iff_ne] at hnot
        exact (hspecial.elim hnot.1 hnot.2).elim

theorem literalValue_doubled (text : List UInt8) :
    literalValue (singleQuote :: singleQuote :: text) =
      (literalValue text).map (singleQuote :: ·) := by
  rw [literalValue, if_pos rfl, if_pos rfl]

theorem literalValue_backslash (c : UInt8) (text : List UInt8) :
    literalValue (backslash :: c :: text) = (literalValue text).map (unescape c ++ ·) := by
  rw [literalValue, if_neg (by decide), if_pos rfl]

theorem literalValue_plain {b : UInt8} (hb : ¬ Special b) (text : List UInt8) :
    literalValue (b :: text) = (literalValue text).map (b :: ·) := by
  have hquote : b ≠ singleQuote := fun heq => hb (Or.inl heq)
  have hback : b ≠ backslash := fun heq => hb (Or.inr heq)
  cases text with
  | nil => simp [literalValue, hquote]
  | cons c text => rw [literalValue, if_neg hquote, if_neg hback]

/-- A quote that no second quote follows ends the literal. -/
theorem literalValue_end {text : List UInt8} (htext : ∀ b ∈ text.head?, b ≠ singleQuote) :
    literalValue (singleQuote :: text) = some [] := by
  cases text with
  | nil => rw [literalValue, if_pos rfl]
  | cons c text => rw [literalValue, if_pos rfl, if_neg (htext c rfl)]

section Lag

variable {rest : List UInt8} (hrest : ∀ b ∈ rest.head?, ¬ Special b)

include hrest

/-- Behind the template's quote comes no quote and no backslash. -/
theorem literalValue_rest_ne {z : List UInt8} (hz : ∀ b ∈ z, Special b) :
    literalValue rest ≠ some z := by
  intro h
  cases rest with
  | nil => cases h
  | cons b rest =>
      have hb := hrest b rfl
      rw [literalValue_plain hb] at h
      obtain ⟨v, _, hv⟩ := Option.map_eq_some_iff.mp h
      rw [← hv] at hz
      exact hb (hz b List.mem_cons_self)

/-- A value that has fallen behind the text by quotes and backslashes does not catch up. -/
theorem literalValue_lag_ne (u : List UInt8) {z : List UInt8} (hne : z ≠ [])
    (hz : ∀ b ∈ z, Special b) : literalValue (u ++ singleQuote :: rest) ≠ some (z ++ u) := by
  intro h
  obtain ⟨z₀, z₁, rfl⟩ := List.exists_cons_of_ne_nil hne
  rw [List.forall_mem_cons] at hz
  obtain ⟨hz₀, hz₁⟩ := hz
  -- a byte that the literal holds as it is would be the first one of the lag
  have hplain : ∀ {b : UInt8} {u : List UInt8}, ¬ Special b →
      literalValue (b :: u ++ singleQuote :: rest) = some (z₀ :: z₁ ++ b :: u) → False := by
    intro b u hb h
    rw [List.cons_append, literalValue_plain hb] at h
    obtain ⟨v, _, hv⟩ := Option.map_eq_some_iff.mp h
    obtain ⟨rfl, _⟩ := List.cons.inj hv
    exact hb hz₀
  match u with
  | [] =>
      rw [List.nil_append, literalValue_end fun b hb heq => hrest b hb (Or.inl heq)] at h
      cases h
  | [b] =>
      by_cases hb : Special b
      · rcases hb with rfl | rfl
        · rw [List.singleton_append, literalValue_doubled] at h
          obtain ⟨v, hread, hv⟩ := Option.map_eq_some_iff.mp h
          obtain ⟨_, rfl⟩ := List.cons.inj hv
          refine literalValue_rest_ne hrest ?_ hread
          simpa [or_imp, forall_and] using ⟨hz₁, special_quote⟩
        · rw [List.singleton_append, literalValue_backslash] at h
          obtain ⟨v, hread, hv⟩ := Option.map_eq_some_iff.mp h
          obtain ⟨_, rfl⟩ := List.cons.inj hv
          refine literalValue_rest_ne hrest ?_ hread
          simpa [or_imp, forall_and] using ⟨hz₁, special_backslash⟩
      · exact hplain hb h
  | b :: c :: u =>
      by_cases hb : Special b
      · rcases hb with rfl | rfl
        · by_cases hc : c = singleQuote
          · subst hc
            rw [List.cons_append, List.cons_append, literalValue_doubled] at h
            obtain ⟨v, hread, hv⟩ := Option.map_eq_some_iff.mp h
            obtain ⟨_, rfl⟩ := List.cons.inj hv
            refine literalValue_lag_ne u (z := z₁ ++ [singleQuote, singleQuote]) (by simp) ?_
              (by simpa using hread)
            simpa [or_imp, forall_and] using ⟨hz₁, special_quote⟩
          · rw [List.cons_append, literalValue_end (by simpa using hc)] at h
            cases h
        · rw [List.cons_append, List.cons_append, literalValue_backslash] at h
          obtain ⟨v, hread, hv⟩ := Option.map_eq_some_iff.mp h
          rcases unescape_cases c with ⟨heq, hpattern⟩ | ⟨d, heq, _, hspecial⟩
          · -- the pattern byte itself would be one of the lag
            have hc : Special c := by
              rw [heq] at hv
              obtain ⟨_, hv⟩ := List.cons.inj hv
              cases z₁ with
              | nil => obtain ⟨rfl, _⟩ := List.cons.inj hv; exact special_backslash
              | cons z z₁ =>
                  obtain ⟨rfl, _⟩ := List.cons.inj hv
                  exact hz₁ c List.mem_cons_self
            rcases hpattern with rfl | rfl <;> revert hc <;> unfold Special <;> decide
          · rw [heq] at hv
            obtain ⟨rfl, rfl⟩ := List.cons.inj hv
            have hc := hspecial hz₀
            refine literalValue_lag_ne u (z := z₁ ++ [backslash, c]) (by simp) ?_
              (by simpa using hread)
            simpa [or_imp, forall_and] using ⟨hz₁, special_backslash, hc ▸ hz₀⟩
      · exact hplain hb h

/-- The literal denotes the printed string only if that string is harmless. -/
theorem harmless_of_literalValue (arg : List UInt8)
    (h : literalValue (arg ++ singleQuote :: rest) = some arg) : Harmless arg := by
  match arg with
  | [] => trivial
  | [b] =>
      by_cases hb : Special b
      · rcases hb with rfl | rfl
        · rw [List.singleton_append, literalValue_doubled] at h
          obtain ⟨v, hread, hv⟩ := Option.map_eq_some_iff.mp h
          obtain ⟨_, rfl⟩ := List.cons.inj hv
          exact absurd hread (literalValue_rest_ne hrest (by simp))
        · rw [List.singleton_append, literalValue_backslash] at h
          obtain ⟨v, _, hv⟩ := Option.map_eq_some_iff.mp h
          exact absurd (List.cons.inj hv).1 (by decide)
      · exact ⟨fun heq => hb (Or.inl heq), fun heq => hb (Or.inr heq)⟩
  | b :: c :: arg =>
      by_cases hb : Special b
      · rcases hb with rfl | rfl
        · by_cases hc : c = singleQuote
          · subst hc
            rw [List.cons_append, List.cons_append, literalValue_doubled] at h
            obtain ⟨v, hread, hv⟩ := Option.map_eq_some_iff.mp h
            obtain ⟨_, rfl⟩ := List.cons.inj hv
            refine absurd hread (literalValue_lag_ne hrest arg (z := [singleQuote]) (by simp) ?_)
            simpa using special_quote
          · rw [List.cons_append, literalValue_end (by simpa using hc)] at h
            cases h
        · rw [List.cons_append, List.cons_append, literalValue_backslash] at h
          obtain ⟨v, hread, hv⟩ := Option.map_eq_some_iff.mp h
          rcases unescape_cases c with ⟨heq, hpattern⟩ | ⟨d, heq, _, hspecial⟩
          · rw [heq] at hv
            obtain ⟨_, hv⟩ := List.cons.inj hv
            obtain ⟨_, rfl⟩ := List.cons.inj hv
            rw [Harmless, if_pos rfl]
            exact ⟨hpattern, harmless_of_literalValue v hread⟩
          · rw [heq] at hv
            obtain ⟨rfl, rfl⟩ := List.cons.inj hv
            obtain rfl := hspecial special_backslash
            refine absurd hread (literalValue_lag_ne hrest arg (z := [backslash]) (by simp) ?_)
            simpa using special_backslash
      · rw [List.cons_append, literalValue_plain hb] at h
        obtain ⟨v, hread, hv⟩ := Option.map_eq_some_iff.mp h
        obtain ⟨_, rfl⟩ := List.cons.inj hv
        rw [Harmless, if_neg fun heq => hb (Or.inr heq)]
        exact ⟨fun heq => hb (Or.inl heq), harmless_of_literalValue (c :: arg) hread⟩

end Lag

/-! ## The lexer inside a literal -/

section Steps

variable (t : List Token) (v : List UInt8)

@[simp] theorem step_quote :
    Lexer.step ⟨t, .literal singleQuote v⟩ singleQuote = ⟨t, .closing singleQuote v⟩ := rfl

@[simp] theorem step_backslash :
    Lexer.step ⟨t, .literal singleQuote v⟩ backslash = ⟨t, .escape singleQuote v⟩ := rfl

@[simp] theorem step_plain {b : UInt8} (hb : ¬ Special b) :
    Lexer.step ⟨t, .literal singleQuote v⟩ b = ⟨t, .literal singleQuote (v ++ [b])⟩ := by
  simp only [Lexer.step]
  rw [if_neg fun heq => hb (Or.inl heq), if_neg fun heq => hb (Or.inr heq)]

@[simp] theorem step_escape (b : UInt8) :
    Lexer.step ⟨t, .escape singleQuote v⟩ b = ⟨t, .literal singleQuote (v ++ unescape b)⟩ := rfl

@[simp] theorem step_closing_quote :
    Lexer.step ⟨t, .closing singleQuote v⟩ singleQuote =
      ⟨t, .literal singleQuote (v ++ [singleQuote])⟩ := rfl

/-- Behind the end of a literal the text goes on as outside literals. -/
theorem step_closing {b : UInt8} (hb : b ≠ singleQuote) :
    Lexer.step ⟨t, .closing singleQuote v⟩ b = Lexer.step ⟨t ++ [.literal v], .code []⟩ b := by
  simp only [Lexer.step]
  rw [if_neg hb]

/-- A harmless string is read as it was printed. -/
theorem foldl_harmless : ∀ (arg v : List UInt8), Harmless arg →
    arg.foldl Lexer.step ⟨t, .literal singleQuote v⟩ = ⟨t, .literal singleQuote (v ++ arg)⟩
  | [], v, _ => by simp
  | [b], v, h => by
      have hb : ¬ Special b := fun hspecial => hspecial.elim h.1 h.2
      simp [hb]
  | b :: c :: arg, v, h => by
      rw [Harmless] at h
      by_cases hb : b = backslash
      · subst hb
        rw [if_pos rfl] at h
        have hunescape : unescape c = [backslash, c] := if_pos h.1
        rw [List.foldl_cons, List.foldl_cons, step_backslash, step_escape,
          foldl_harmless arg _ h.2, hunescape]
        simp
      · rw [if_neg hb] at h
        have hplain : ¬ Special b := fun hspecial => hspecial.elim h.1 hb
        rw [List.foldl_cons, step_plain t v hplain, foldl_harmless (c :: arg) _ h.2]
        simp

end Steps

theorem codeStep_tokens (t : List Token) (word : List UInt8) (b : UInt8) :
    t <+: (codeStep t word b).tokens := by
  unfold codeStep
  split_ifs
  · exact List.prefix_rfl
  · exact List.prefix_append _ _
  · exact List.prefix_append _ _
  · rw [List.append_assoc]
    exact List.prefix_append _ _

/-- Tokens that are complete stay. -/
theorem step_tokens (l : Lexer) (b : UInt8) : l.tokens <+: (l.step b).tokens := by
  obtain ⟨t, mode⟩ := l
  cases mode with
  | code word => exact codeStep_tokens t word b
  | literal quote v =>
      simp only [Lexer.step]
      split_ifs <;> exact List.prefix_rfl
  | escape quote v => exact List.prefix_rfl
  | closing quote v =>
      simp only [Lexer.step]
      split_ifs
      · exact List.prefix_rfl
      · exact (List.prefix_append _ _).trans (codeStep_tokens _ _ _)

theorem foldl_tokens (text : List UInt8) (l : Lexer) :
    l.tokens <+: (text.foldl Lexer.step l).tokens := by
  induction text generalizing l with
  | nil => exact List.prefix_rfl
  | cons b text ih => exact (step_tokens l b).trans (ih (l.step b))

theorem finish_tokens {l : Lexer} {tokens : List Token} (h : l.finish = some tokens) :
    l.tokens <+: tokens := by
  obtain ⟨t, mode⟩ := l
  cases mode with
  | code word => rw [← Option.some.inj h]; exact List.prefix_append _ _
  | closing quote v => rw [← Option.some.inj h]; exact List.prefix_append _ _
  | literal quote v => cases h
  | escape quote v => cases h

theorem finish_foldl_tokens {text : List UInt8} {l : Lexer} {tokens : List Token}
    (h : (text.foldl Lexer.step l).finish = some tokens) : l.tokens <+: tokens :=
  (foldl_tokens text l).trans (finish_tokens h)

/-- The next token of a text that is read inside a literal is the literal. -/
theorem literal_of_finish (t : List Token) : ∀ (text v : List UInt8) {tokens : List Token},
    (text.foldl Lexer.step ⟨t, .literal singleQuote v⟩).finish = some tokens →
    ∃ w, literalValue text = some w ∧ t ++ [.literal (v ++ w)] <+: tokens
  | [], v, tokens, h => by cases h
  | [b], v, tokens, h => by
      by_cases hb : b = singleQuote
      · subst hb
        refine ⟨[], rfl, ?_⟩
        rw [List.append_nil]
        exact (Option.some.inj h).subst List.prefix_rfl
      · by_cases hback : b = backslash
        · subst hback
          cases h
        · rw [List.foldl_cons, step_plain t v (fun hb' => hb'.elim hb hback)] at h
          cases h
  | b :: c :: text, v, tokens, h => by
      rw [List.foldl_cons] at h
      by_cases hb : Special b
      · rcases hb with rfl | rfl
        · by_cases hc : c = singleQuote
          · subst hc
            obtain ⟨w, hread, hw⟩ := literal_of_finish t text (v ++ [singleQuote]) h
            refine ⟨singleQuote :: w, by rw [literalValue_doubled, hread]; rfl, ?_⟩
            simpa using hw
          · refine ⟨[], literalValue_end (by simpa using hc), ?_⟩
            rw [step_quote, List.foldl_cons, step_closing t v hc] at h
            rw [List.append_nil]
            exact (codeStep_tokens _ _ _).trans (finish_foldl_tokens h)
        · rw [step_backslash, List.foldl_cons, step_escape] at h
          obtain ⟨w, hread, hw⟩ := literal_of_finish t text (v ++ unescape c) h
          refine ⟨unescape c ++ w, by rw [literalValue_backslash, hread]; rfl, ?_⟩
          simpa using hw
      · rw [step_plain t v hb] at h
        obtain ⟨w, hread, hw⟩ := literal_of_finish t (c :: text) (v ++ [b]) h
        refine ⟨b :: w, by rw [literalValue_plain hb, hread]; rfl, ?_⟩
        simpa using hw

/-! ## The lexer on a template -/

theorem step_code {b : UInt8} (hb : isQuote b = false) (t : List Token) (word : List UInt8) :
    ∃ t' word', Lexer.step ⟨t, .code word⟩ b = ⟨t', .code word'⟩ := by
  simp only [Lexer.step, codeStep, hb, Bool.false_eq_true, if_false]
  split_ifs <;> exact ⟨_, _, rfl⟩

theorem foldl_code {text : List UInt8} (htext : ∀ b ∈ text, isQuote b = false) (t : List Token)
    (word : List UInt8) :
    ∃ t' word', text.foldl Lexer.step ⟨t, .code word⟩ = ⟨t', .code word'⟩ := by
  induction text generalizing t word with
  | nil => exact ⟨t, word, rfl⟩
  | cons b text ih =>
      rw [List.forall_mem_cons] at htext
      obtain ⟨t', word', hstep⟩ := step_code htext.1 t word
      rw [List.foldl_cons, hstep]
      exact ih htext.2 t' word'

theorem isQuote_of_isDigit {b : UInt8} (h : Decimal.isDigit b) : isQuote b = false := by
  simp only [Decimal.isDigit, Bool.and_eq_true, decide_eq_true_eq] at h
  have hquote : b ≠ singleQuote := fun heq => absurd (heq ▸ h.1) (by decide)
  have hdouble : b ≠ 34 := fun heq => absurd (heq ▸ h.1) (by decide)
  simp [isQuote, hquote, hdouble]

theorem isQuote_of_mem_ofInt {n : Int} {b : UInt8} (h : b ∈ Decimal.ofInt n) :
    isQuote b = false := by
  cases n with
  | ofNat n => exact isQuote_of_isDigit (Decimal.isDigit_of_mem_ofNat h)
  | negSucc n =>
      rcases List.mem_cons.mp h with rfl | h
      · decide
      · exact isQuote_of_isDigit (Decimal.isDigit_of_mem_ofNat h)

theorem spaced_tail {p : Piece} {ps : List Piece} (h : spaced (p :: ps)) : spaced ps := by
  cases p with
  | byte b => exact (Bool.and_eq_true_iff.mp h).2
  | number n => exact h
  | string arg =>
      cases ps with
      | nil => rfl
      | cons p ps =>
          cases p with
          | byte b => exact (Bool.and_eq_true_iff.mp h).2
          | string arg => cases h
          | number n => cases h

/-- What stands behind a string's closing quote. -/
theorem head_of_spaced {arg : List UInt8} {ps : List Piece} (h : spaced (.string arg :: ps)) :
    ∀ b ∈ (render ps).head?, ¬ Special b := by
  cases ps with
  | nil =>
      intro b hb
      cases hb
  | cons p ps =>
      cases p with
      | byte c =>
          intro b hb
          obtain rfl : c = b := Option.some.inj hb
          simp only [spaced, Bool.and_eq_true, bne_iff_ne] at h
          exact fun hspecial => hspecial.elim h.1.1 h.1.2
      | string arg => cases h
      | number n => cases h

/-- The lexer stands outside literals behind every piece of the template. -/
theorem stepPiece_code {p : Piece} {ps : List Piece} (h : spaced (p :: ps)) (t : List Token)
    (word : List UInt8) :
    ∃ t' word', t <+: t' ∧ Lexer.stepPiece ⟨t, .code word⟩ p = ⟨t', .code word'⟩ := by
  have hcode : ∀ text : List UInt8, (∀ b ∈ text, isQuote b = false) →
      ∃ t' word', t <+: t' ∧ text.foldl Lexer.step ⟨t, .code word⟩ = ⟨t', .code word'⟩ := by
    intro text htext
    obtain ⟨t', word', hstep⟩ := foldl_code htext t word
    have hgrow := foldl_tokens text ⟨t, .code word⟩
    rw [hstep] at hgrow
    exact ⟨t', word', hgrow, hstep⟩
  cases p with
  | byte b =>
      have hb : isQuote b = false := by simpa using (Bool.and_eq_true_iff.mp h).1
      exact hcode [b] (by simpa using hb)
  | number n => exact hcode (Decimal.ofInt n) fun b hb => isQuote_of_mem_ofInt hb
  | string arg =>
      refine ⟨_, _, ?_, rfl⟩
      rw [List.append_assoc]
      exact List.prefix_append _ _

theorem foldl_stepPiece {ps : List Piece} (h : spaced ps) (t : List Token) (word : List UInt8) :
    ∃ tokens, (ps.foldl Lexer.stepPiece ⟨t, .code word⟩).finish = some tokens ∧ t <+: tokens := by
  induction ps generalizing t word with
  | nil => exact ⟨_, rfl, List.prefix_append _ _⟩
  | cons p ps ih =>
      obtain ⟨t', word', hgrow, hstep⟩ := stepPiece_code h t word
      obtain ⟨tokens, hfinish, htokens⟩ := ih (spaced_tail h) t' word'
      rw [List.foldl_cons, hstep]
      exact ⟨tokens, hfinish, hgrow.trans htokens⟩

/-- Behind a literal that has just ended the lexer goes on as the template's does. -/
theorem finish_closing {text : List UInt8} (htext : ∀ b ∈ text.head?, ¬ Special b)
    (t : List Token) (v : List UInt8) :
    (text.foldl Lexer.step ⟨t, .closing singleQuote v⟩).finish =
      (text.foldl Lexer.step ⟨t ++ [.literal v], .code []⟩).finish := by
  cases text with
  | nil => simp [Lexer.finish, wordToken]
  | cons b text =>
      rw [List.foldl_cons, List.foldl_cons, step_closing t v fun heq => htext b rfl (Or.inl heq)]

theorem render_cons (p : Piece) (ps : List Piece) : render (p :: ps) = p.bytes ++ render ps := rfl

/-- The step over a string: the text agrees with the template on it exactly if it is harmless,
and then both go on from the same place. -/
theorem finish_string_iff {arg : List UInt8} {ps : List Piece} (h : spaced (.string arg :: ps))
    (t : List Token) (word : List UInt8) :
    ((render (.string arg :: ps)).foldl Lexer.step ⟨t, .code word⟩).finish =
        ((Piece.string arg :: ps).foldl Lexer.stepPiece ⟨t, .code word⟩).finish ↔
      Harmless arg ∧
        ((render ps).foldl Lexer.step ⟨t ++ wordToken word ++ [.literal arg], .code []⟩).finish =
          (ps.foldl Lexer.stepPiece ⟨t ++ wordToken word ++ [.literal arg], .code []⟩).finish := by
  have hrest := head_of_spaced h
  have hopen : (render (.string arg :: ps)).foldl Lexer.step ⟨t, .code word⟩ =
      (arg ++ singleQuote :: render ps).foldl Lexer.step
        ⟨t ++ wordToken word, .literal singleQuote []⟩ := by
    simp [render_cons, Piece.bytes, Lexer.step, codeStep, isQuote, isWordByte, singleQuote]
  have hharmless : Harmless arg →
      ((render (.string arg :: ps)).foldl Lexer.step ⟨t, .code word⟩).finish =
        ((render ps).foldl Lexer.step
          ⟨t ++ wordToken word ++ [.literal arg], .code []⟩).finish := by
    intro harg
    rw [hopen, List.foldl_append, foldl_harmless _ arg [] harg, List.foldl_cons, step_quote]
    exact finish_closing hrest _ _
  constructor
  · intro heq
    obtain ⟨tokens, hfinish, htokens⟩ :=
      foldl_stepPiece (spaced_tail h) (t ++ wordToken word ++ [.literal arg]) []
    have hsame := heq.trans hfinish
    rw [hopen] at hsame
    obtain ⟨value, hread, hvalue⟩ := literal_of_finish _ _ _ hsame
    have harg : Harmless arg := by
      have hlast := List.prefix_of_prefix_length_le hvalue htokens (by simp)
      have hvalue : value = arg := by
        simpa using List.IsPrefix.eq_of_length hlast (by simp)
      subst hvalue
      exact harmless_of_literalValue hrest value hread
    exact ⟨harg, (hharmless harg).symm.trans heq⟩
  · rintro ⟨harg, heq⟩
    exact (hharmless harg).trans heq

theorem finish_render_iff {ps : List Piece} (h : spaced ps) (t : List Token)
    (word : List UInt8) :
    ((render ps).foldl Lexer.step ⟨t, .code word⟩).finish =
        (ps.foldl Lexer.stepPiece ⟨t, .code word⟩).finish ↔
      ∀ arg ∈ strings ps, Harmless arg := by
  induction ps generalizing t word with
  | nil => simp [strings, render]
  | cons p ps ih =>
      obtain ⟨t', word', _, hstep⟩ := stepPiece_code h t word
      cases p with
      | string arg =>
          rw [finish_string_iff h, ih (spaced_tail h)]
          simp [strings]
      | byte b =>
          rw [render_cons, List.foldl_append, List.foldl_cons, hstep]
          have hbyte : (Piece.byte b).bytes.foldl Lexer.step ⟨t, .code word⟩ = ⟨t', .code word'⟩ :=
            hstep
          rw [hbyte, ih (spaced_tail h)]
          simp [strings]
      | number n =>
          rw [render_cons, List.foldl_append, List.foldl_cons, hstep]
          have hnumber :
              (Piece.number n).bytes.foldl Lexer.step ⟨t, .code word⟩ = ⟨t', .code word'⟩ := hstep
          rw [hnumber, ih (spaced_tail h)]
          simp [strings]

/-- The printed text is read as the template with its strings exactly if these are harmless. -/
theorem tokenise_render_iff {ps : List Piece} (h : spaced ps) :
    tokenise (render ps) = templateTokens ps ↔ ∀ arg ∈ strings ps, Harmless arg :=
  finish_render_iff h [] []

theorem harmless_of_plain {arg : List UInt8} (h : ∀ b ∈ arg, ¬ Special b) : Harmless arg := by
  induction arg with
  | nil => trivial
  | cons b arg ih =>
      rw [List.forall_mem_cons] at h
      have hquote : b ≠ singleQuote := fun heq => h.1 (Or.inl heq)
      have hback : b ≠ backslash := fun heq => h.1 (Or.inr heq)
      cases arg with
      | nil => exact ⟨hquote, hback⟩
      | cons c arg =>
          rw [Harmless, if_neg hback]
          exact ⟨hquote, ih h.2⟩

theorem harmless_ofInt (n : Int) : Harmless (Decimal.ofInt n) := by
  apply harmless_of_plain
  intro b hb hspecial
  rcases hspecial with rfl | rfl
  · exact absurd (isQuote_of_mem_ofInt hb) (by decide)
  · cases n with
    | ofNat n => exact absurd (Decimal.isDigit_of_mem_ofNat hb) (by decide)
    | negSucc n =>
        rcases List.mem_cons.mp hb with h | h
        · exact absurd h (by decide)
        · exact absurd (Decimal.isDigit_of_mem_ofNat h) (by decide)

/-! ## Format strings -/

/-- The arguments that the format string has no place for. -/
def unread : List UInt8 → List Arg → List Arg
  | 39 :: 37 :: 115 :: 39 :: format, .string _ :: args => unread format args
  | 39 :: 37 :: 108 :: 100 :: 39 :: format, .int _ :: args => unread format args
  | 37 :: 100 :: format, .int _ :: args => unread format args
  | _ :: format, args => unread format args
  | [], args => args

/-- Every argument is printed, and the strings stand apart. -/
def wellFormed (format : List UInt8) (args : List Arg) : Bool :=
  spaced (pieces format args) && (unread format args).isEmpty

def stringArgs (args : List Arg) : List (List UInt8) :=
  args.filterMap fun
    | .string arg => some arg
    | .int _ => none

theorem harmless_pieces_iff {format : List UInt8} {args : List Arg} (h : unread format args = []) :
    (∀ arg ∈ strings (pieces format args), Harmless arg) ↔
      ∀ arg ∈ stringArgs args, Harmless arg := by
  induction format, args using pieces.induct with
  | case1 format arg args ih =>
      rw [unread] at h
      simpa [pieces, strings, stringArgs] using and_congr_right' (ih h)
  | case2 format n args ih =>
      rw [unread] at h
      simpa [pieces, strings, stringArgs, harmless_ofInt] using ih h
  | case3 format n args ih =>
      rw [unread] at h
      simpa [pieces, strings, stringArgs] using ih h
  | case4 b format args hstring hlong hint ih =>
      rw [unread.eq_4 _ _ _ hstring hlong hint] at h
      rw [pieces.eq_4 _ _ _ hstring hlong hint]
      simpa [strings] using ih h
  | case5 args =>
      rw [unread] at h
      subst h
      simp [pieces, strings, stringArgs]

theorem tokenise_format_iff {format : List UInt8} {args : List Arg} (h : wellFormed format args) :
    tokenise (render (pieces format args)) = templateTokens (pieces format args) ↔
      ∀ arg ∈ stringArgs args, Harmless arg := by
  obtain ⟨hspaced, hunread⟩ := Bool.and_eq_true_iff.mp h
  rw [tokenise_render_iff hspaced, harmless_pieces_iff (List.isEmpty_iff.mp hunread)]

/-! That a format string is well formed depends on the kinds of its arguments only, so it can be
decided with blank ones. -/

def Arg.blank : Arg → Arg
  | .string _ => .string []
  | .int _ => .int 0

def Piece.blank : Piece → Piece
  | .byte b => .byte b
  | .string _ => .string []
  | .number _ => .number 0

theorem spaced_map_blank (ps : List Piece) : spaced (ps.map Piece.blank) = spaced ps := by
  induction ps with
  | nil => rfl
  | cons p ps ih =>
      cases p with
      | byte b => simp [spaced, Piece.blank, ih]
      | number n => simpa [spaced, Piece.blank] using ih
      | string arg =>
          cases ps with
          | nil => rfl
          | cons q ps =>
              cases q with
              | byte b =>
                  simp only [List.map_cons, Piece.blank, spaced] at ih ⊢
                  rw [ih]
              | string arg => rfl
              | number n => rfl

theorem string_of_map_blank {args rest : List Arg} {arg : List UInt8}
    (h : args.map Arg.blank = .string arg :: rest) :
    ∃ arg' rest', args = .string arg' :: rest' := by
  cases args with
  | nil => cases h
  | cons a args =>
      cases a with
      | string arg' => exact ⟨arg', args, rfl⟩
      | int n => cases h

theorem int_of_map_blank {args rest : List Arg} {n : Int}
    (h : args.map Arg.blank = .int n :: rest) : ∃ m rest', args = .int m :: rest' := by
  cases args with
  | nil => cases h
  | cons a args =>
      cases a with
      | string arg => cases h
      | int m => exact ⟨m, args, rfl⟩

theorem pieces_map_blank (format : List UInt8) (args : List Arg) :
    (pieces format (args.map Arg.blank)).map Piece.blank =
        (pieces format args).map Piece.blank ∧
      unread format (args.map Arg.blank) = (unread format args).map Arg.blank := by
  induction format, args using pieces.induct with
  | case1 format arg args ih => simpa [pieces, unread, Arg.blank, Piece.blank] using ih
  | case2 format n args ih => simpa [pieces, unread, Arg.blank, Piece.blank] using ih
  | case3 format n args ih => simpa [pieces, unread, Arg.blank, Piece.blank] using ih
  | case4 b format args hstring hlong hint ih =>
      have hstring' : ∀ f arg rest, args.map Arg.blank = .string arg :: rest → b = 39 →
          format = 37 :: 115 :: 39 :: f → False := by
        intro f arg rest h
        obtain ⟨arg', rest', hargs⟩ := string_of_map_blank h
        exact hstring f arg' rest' hargs
      have hlong' : ∀ f n rest, args.map Arg.blank = .int n :: rest → b = 39 →
          format = 37 :: 108 :: 100 :: 39 :: f → False := by
        intro f n rest h
        obtain ⟨m, rest', hargs⟩ := int_of_map_blank h
        exact hlong f m rest' hargs
      have hint' : ∀ f n rest, args.map Arg.blank = .int n :: rest → b = 37 →
          format = 100 :: f → False := by
        intro f n rest h
        obtain ⟨m, rest', hargs⟩ := int_of_map_blank h
        exact hint f m rest' hargs
      rw [pieces.eq_4 _ _ _ hstring hlong hint, pieces.eq_4 _ _ _ hstring' hlong' hint',
        unread.eq_4 _ _ _ hstring hlong hint, unread.eq_4 _ _ _ hstring' hlong' hint',
        List.map_cons, List.map_cons, ih.1, ih.2]
      exact ⟨rfl, rfl⟩
  | case5 args => simp [pieces, unread]

theorem wellFormed_map_blank (format : List UInt8) (args : List Arg) :
    wellFormed format (args.map Arg.blank) = wellFormed format args := by
  obtain ⟨hpieces, hunread⟩ := pieces_map_blank format args
  rw [wellFormed, wellFormed, ← spaced_map_blank, hpieces, spaced_map_blank, hunread,
    List.isEmpty_map]

/-! ## Lengths -/

/-- The bytes of a piece that do not come from an argument. -/
def Piece.fixed : Piece → Nat
  | .byte _ => 1
  | .string _ => 2
  | .number _ => 0

/-- The bytes of a piece that come from an argument. -/
def Piece.size : Piece → Nat
  | .byte _ => 0
  | .string arg => arg.length
  | .number n => (Decimal.ofInt n).length

def Arg.size : Arg → Nat
  | .string arg => arg.length
  | .int n => (Decimal.ofInt n).length

theorem length_render (ps : List Piece) :
    (render ps).length = (ps.map Piece.fixed).sum + (ps.map Piece.size).sum := by
  induction ps with
  | nil => rfl
  | cons p ps ih =>
      have hpiece : p.bytes.length = p.fixed + p.size := by
        cases p with
        | byte b => rfl
        | string arg =>
            simp only [Piece.bytes, Piece.fixed, Piece.size, List.length_cons, List.length_append,
              List.length_nil]
            omega
        | number n => simp [Piece.bytes, Piece.fixed, Piece.size]
      rw [render] at ih
      rw [render, List.flatMap_cons, List.length_append, ih, hpiece, List.map_cons, List.map_cons,
        List.sum_cons, List.sum_cons]
      omega

/-- Every argument is printed once. -/
theorem size_pieces {format : List UInt8} {args : List Arg} (h : unread format args = []) :
    ((pieces format args).map Piece.size).sum = (args.map Arg.size).sum := by
  induction format, args using pieces.induct with
  | case1 format arg args ih =>
      rw [unread] at h
      simp [pieces, Piece.size, Arg.size, ih h]
  | case2 format n args ih =>
      rw [unread] at h
      simp [pieces, Piece.size, Arg.size, ih h]
  | case3 format n args ih =>
      rw [unread] at h
      simp [pieces, Piece.size, Arg.size, ih h]
  | case4 b format args hstring hlong hint ih =>
      rw [unread.eq_4 _ _ _ hstring hlong hint] at h
      rw [pieces.eq_4 _ _ _ hstring hlong hint]
      simp [Piece.size, ih h]
  | case5 args =>
      rw [unread] at h
      subst h
      rfl

/-- The bytes of the format string itself. -/
def fixedLength (format : List UInt8) (args : List Arg) : Nat :=
  ((pieces format args).map Piece.fixed).sum

theorem fixedLength_map_blank (format : List UInt8) (args : List Arg) :
    fixedLength format (args.map Arg.blank) = fixedLength format args := by
  have hfixed : Piece.fixed ∘ Piece.blank = Piece.fixed := by
    funext p
    cases p <;> rfl
  rw [fixedLength, fixedLength, ← hfixed, ← List.map_map, ← List.map_map,
    (pieces_map_blank format args).1]

theorem length_format {format : List UInt8} {args : List Arg} (h : wellFormed format args) :
    (render (pieces format args)).length =
      fixedLength format (args.map Arg.blank) + (args.map Arg.size).sum := by
  have hunread := List.isEmpty_iff.mp (Bool.and_eq_true_iff.mp h).2
  rw [length_render, size_pieces hunread, fixedLength_map_blank, fixedLength]

end SqlText
end Lib
end TcMuzi
