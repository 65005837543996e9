import Mathlib.Data.List.Basic
import Mathlib.Tactic.SplitIfs

/-!
# Machines that consume a stream

A machine takes one symbol after the other, gives something out for each, and may stop: it
leaves behind a symbol, or refuses the symbol.  What it does with a stream does not depend on
the pieces in which the stream comes.
-/

namespace TcMuzi
namespace Lib

variable {σ α ε : Type}

/-- What a machine does with a symbol. -/
inductive Reaction (σ ε : Type)
  | go (state : σ) (out : List ε)
  -- the symbols behind this one are not consumed
  | leave (state : σ) (out : List ε)
  -- nor is this one
  | refuse (state : σ)

/-- The machine behind a piece, what it gave out, and the symbols it has not consumed. -/
structure Fed (σ α ε : Type) where
  state : σ
  out : List ε
  rest : List α
  running : Bool

namespace Fed

/-- What was given out before. -/
def behind (out : List ε) (f : Fed σ α ε) : Fed σ α ε := { f with out := out ++ f.out }

@[simp] theorem behind_state (out : List ε) (f : Fed σ α ε) : (f.behind out).state = f.state := rfl
@[simp] theorem behind_out (out : List ε) (f : Fed σ α ε) : (f.behind out).out = out ++ f.out := rfl
@[simp] theorem behind_rest (out : List ε) (f : Fed σ α ε) : (f.behind out).rest = f.rest := rfl
@[simp] theorem behind_running (out : List ε) (f : Fed σ α ε) :
    (f.behind out).running = f.running := rfl

theorem behind_behind (first second : List ε) (f : Fed σ α ε) :
    (f.behind second).behind first = f.behind (first ++ second) := by
  rw [behind, behind, behind, List.append_assoc]

end Fed

section Feed

variable (react : σ → α → Reaction σ ε)

/-- A piece of the stream. -/
def feed : σ → List α → Fed σ α ε
  | s, [] => ⟨s, [], [], true⟩
  | s, a :: rest =>
      match react s a with
      | .go s' out => (feed s' rest).behind out
      | .leave s' out => ⟨s', out, rest, false⟩
      | .refuse s' => ⟨s', [], a :: rest, false⟩

variable {react} {s s' : σ} {a : α} {out : List ε}

theorem feed_go (h : react s a = .go s' out) (rest : List α) :
    feed react s (a :: rest) = (feed react s' rest).behind out := by
  rw [feed, h]

theorem feed_leave (h : react s a = .leave s' out) (rest : List α) :
    feed react s (a :: rest) = ⟨s', out, rest, false⟩ := by
  rw [feed, h]

theorem feed_refuse (h : react s a = .refuse s') (rest : List α) :
    feed react s (a :: rest) = ⟨s', [], a :: rest, false⟩ := by
  rw [feed, h]

/-- A running machine has consumed everything. -/
theorem rest_of_running {word : List α} (h : (feed react s word).running = true) :
    (feed react s word).rest = [] := by
  induction word generalizing s with
  | nil => rfl
  | cons a word ih =>
      cases hreact : react s a with
      | go s' out =>
          rw [feed_go hreact] at h ⊢
          exact ih h
      | leave s' out =>
          rw [feed_leave hreact] at h
          cases h
      | refuse s' =>
          rw [feed_refuse hreact] at h
          cases h

theorem rest_suffix (s : σ) (word : List α) : (feed react s word).rest <:+ word := by
  induction word generalizing s with
  | nil => exact List.suffix_rfl
  | cons a word ih =>
      cases hreact : react s a with
      | go s' out =>
          rw [feed_go hreact]
          exact (ih s').trans (List.suffix_cons a word)
      | leave s' out =>
          rw [feed_leave hreact]
          exact List.suffix_cons a word
      | refuse s' =>
          exact ⟨[], congrArg Fed.rest (feed_refuse hreact word)⟩

/-- The symbols behind a piece do not change what happens in it. -/
theorem feed_append (s : σ) (front back : List α) :
    feed react s (front ++ back) =
      if (feed react s front).running then
        (feed react (feed react s front).state back).behind (feed react s front).out
      else { feed react s front with rest := (feed react s front).rest ++ back } := by
  induction front generalizing s with
  | nil => rfl
  | cons a front ih =>
      rw [List.cons_append]
      cases hreact : react s a with
      | go s' out =>
          rw [feed_go hreact, feed_go hreact, ih]
          cases hrunning : (feed react s' front).running with
          | true => simp [hrunning, Fed.behind_behind]
          | false => simp [hrunning, Fed.behind]
      | leave s' out =>
          rw [feed_leave hreact, feed_leave hreact]
          rfl
      | refuse s' =>
          rw [feed_refuse hreact, feed_refuse hreact]
          rfl

/-! ## Words that are consumed -/

variable (react) in
/-- The machine consumes the word and goes on. -/
def Takes (s : σ) (word : List α) (s' : σ) (out : List ε) : Prop :=
  feed react s word = ⟨s', out, [], true⟩

theorem Takes.nil (s : σ) : Takes react s [] s [] := rfl

theorem Takes.single (h : react s a = .go s' out) : Takes react s [a] s' out := by
  rw [Takes, feed_go h]
  simp [feed, Fed.behind]

theorem Takes.append {s'' : σ} {front back : List α} {out' : List ε}
    (hfront : Takes react s front s' out) (hback : Takes react s' back s'' out') :
    Takes react s (front ++ back) s'' (out ++ out') := by
  rw [Takes, feed_append, show feed react s front = _ from hfront]
  simp only [if_true]
  rw [show feed react s' back = _ from hback]
  rfl

theorem Takes.cons {s'' : σ} {word : List α} {o out' : List ε} (h : react s a = .go s' o)
    (hword : Takes react s' word s'' out') : Takes react s (a :: word) s'' (o ++ out') :=
  (Takes.single h).append hword

/-- The word in front of the rest of a stream. -/
theorem Takes.feed_append {word : List α} (h : Takes react s word s' out) (rest : List α) :
    feed react s (word ++ rest) = (feed react s' rest).behind out := by
  rw [Lib.feed_append, show feed react s word = _ from h]
  rfl

theorem Takes.unique {s'' : σ} {word : List α} {out' : List ε} (h : Takes react s word s' out)
    (h' : Takes react s word s'' out') : s' = s'' ∧ out = out' := by
  have heq := h.symm.trans h'
  exact ⟨congrArg Fed.state heq, congrArg Fed.out heq⟩

/-- Every word that leaves the machine running is taken. -/
theorem takes_of_running {word : List α} (h : (feed react s word).running = true) :
    Takes react s word (feed react s word).state (feed react s word).out := by
  have hrest := rest_of_running h
  rw [Takes]
  cases hfed : feed react s word with
  | mk state out rest running =>
      rw [hfed] at h hrest
      obtain rfl : running = true := h
      obtain rfl : rest = [] := hrest
      rfl

theorem running_of_append {front back : List α} (h : (feed react s (front ++ back)).running = true) :
    (feed react s front).running = true := by
  rw [Lib.feed_append] at h
  split_ifs at h with hfront
  · exact hfront
  · exact h

/-- The front of a word that is taken. -/
theorem Takes.split {front back : List α} (h : Takes react s (front ++ back) s' out) :
    ∃ s1 out1 out2, Takes react s front s1 out1 ∧ Takes react s1 back s' out2 ∧
      out = out1 ++ out2 := by
  have hfront := takes_of_running (running_of_append (congrArg Fed.running h))
  have hfed := hfront.feed_append back
  rw [show feed react s (front ++ back) = _ from h] at hfed
  have hback := takes_of_running (congrArg Fed.running hfed).symm
  refine ⟨_, _, _, hfront, ?_, congrArg Fed.out hfed⟩
  have hstate : s' = (feed react (feed react s front).state back).state := congrArg Fed.state hfed
  rw [hstate]
  exact hback

/-- What is left of a word that is taken. -/
theorem Takes.cancel {s1 : σ} {front back : List α} {out1 out2 : List ε}
    (h : Takes react s (front ++ back) s' (out1 ++ out2)) (hfront : Takes react s front s1 out1) :
    Takes react s1 back s' out2 := by
  obtain ⟨s2, out3, out4, hfront', hback, hout⟩ := h.split
  obtain ⟨rfl, rfl⟩ := hfront'.unique hfront
  rwa [List.append_cancel_left hout]

/-! ## Invariants -/

/-- A property that a machine keeps as long as it runs, and one that it stops with. -/
theorem state_feed {P Q : σ → Prop} (hgo : ∀ s a s' out, P s → react s a = .go s' out → P s')
    (hleave : ∀ s a s' out, P s → react s a = .leave s' out → Q s')
    (hrefuse : ∀ s a s', P s → react s a = .refuse s' → Q s') {s : σ} (h : P s) (word : List α) :
    ((feed react s word).running = true → P (feed react s word).state) ∧
      ((feed react s word).running = false → Q (feed react s word).state) := by
  induction word generalizing s with
  | nil => exact ⟨fun _ => h, nofun⟩
  | cons a word ih =>
      cases hreact : react s a with
      | go s' out =>
          rw [feed_go hreact]
          exact ih (hgo s a s' out h hreact)
      | leave s' out =>
          rw [feed_leave hreact]
          exact ⟨nofun, fun _ => hleave s a s' out h hreact⟩
      | refuse s' =>
          rw [feed_refuse hreact]
          exact ⟨nofun, fun _ => hrefuse s a s' h hreact⟩

/-- A property of what is given out, while an invariant holds. -/
theorem forall_out_feed {P : σ → Prop} {Q : ε → Prop}
    (hgo : ∀ s a s' out, P s → react s a = .go s' out → P s' ∧ ∀ e ∈ out, Q e)
    (hleave : ∀ s a s' out, P s → react s a = .leave s' out → ∀ e ∈ out, Q e)
    {s : σ} (h : P s) (word : List α) : ∀ e ∈ (feed react s word).out, Q e := by
  induction word generalizing s with
  | nil => exact fun e he => absurd he List.not_mem_nil
  | cons a word ih =>
      cases hreact : react s a with
      | go s' out =>
          obtain ⟨hs', hout⟩ := hgo s a s' out h hreact
          rw [feed_go hreact, Fed.behind_out]
          exact fun e he => (List.mem_append.mp he).elim (hout e) (ih hs' e)
      | leave s' out =>
          rw [feed_leave hreact]
          exact hleave s a s' out h hreact
      | refuse s' =>
          rw [feed_refuse hreact]
          exact fun e he => absurd he List.not_mem_nil

end Feed

end Lib
end TcMuzi
