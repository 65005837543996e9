import Mathlib.Logic.Relation
import Mathlib.Tactic.Common

/-!
# Programs over a command signature

A program is a tree of commands: it either returns a value, issues a command
`c : C` and continues with the reply `R c`, or fails (the process dies: there
is no reply to continue with).  Nothing here fixes what the commands mean.

* `Prog` is the tree, with its monad.
* `Sem` says what a command may reply and do to a state; `Exec` is the
  big-step execution it induces and `run` the executable one of a
  deterministic meaning.
* `wp` is the weakest precondition of a program.  Besides the partial
  correctness of `Exec` it also records the obligation that a command is
  `safe` where it is issued, so that a `Sem` can serve as a protocol automaton
  that a program has to follow.
* `Ends` is the same execution with the ends by failure among it.
* `Uses` bounds the commands a program can issue.
-/

namespace TcMuzi
namespace Lib

/-- A program over the commands `C` with replies `R`. -/
inductive Prog (C : Type) (R : C → Type) (α : Type) : Type
  | ret (a : α)
  | cmd (c : C) (k : R c → Prog C R α)
  | fail

namespace Prog

variable {C : Type} {R : C → Type} {α β σ : Type}

/-- Sequencing: graft the second program onto every return of the first. -/
def bind : Prog C R α → (α → Prog C R β) → Prog C R β
  | .ret a, f => f a
  | .cmd c k, f => .cmd c fun r => (k r).bind f
  | .fail, _ => .fail

instance : Monad (Prog C R) where
  pure := .ret
  bind := bind

/-- Issue one command and return its reply. -/
def issue (c : C) : Prog C R (R c) :=
  .cmd c .ret

@[simp] theorem pure_eq_ret (a : α) : (pure a : Prog C R α) = .ret a := rfl

@[simp] theorem ret_bind (a : α) (f : α → Prog C R β) : (.ret a >>= f) = f a := rfl

@[simp] theorem cmd_bind (c : C) (k : R c → Prog C R α) (f : α → Prog C R β) :
    (.cmd c k >>= f) = .cmd c fun r => k r >>= f := rfl

@[simp] theorem fail_bind (f : α → Prog C R β) : ((.fail : Prog C R α) >>= f) = .fail := rfl

theorem bind_ret (p : Prog C R α) : p >>= .ret = p := by
  induction p with
  | ret a => rfl
  | cmd c k ih =>
      rw [cmd_bind]
      congr 1
      funext r
      exact ih r
  | fail => rfl

theorem bind_assoc {γ : Type} (p : Prog C R α) (f : α → Prog C R β) (g : β → Prog C R γ) :
    (p >>= f) >>= g = p >>= fun a => f a >>= g := by
  induction p with
  | ret a => rfl
  | cmd c k ih =>
      simp only [cmd_bind]
      congr 1
      funext r
      exact ih r
  | fail => rfl

instance : LawfulMonad (Prog C R) :=
  LawfulMonad.mk' (Prog C R) bind_ret (fun _ _ => rfl) bind_assoc

end Prog

/-- The meaning of the commands over a state `σ`.  `step c s r s'` lets `c`
reply `r` in `s` and leave `s'`; `safe s c` is the obligation of a program
that issues `c` in `s`, and `mayFail s` that of a program failing in `s`. -/
structure Sem (C : Type) (R : C → Type) (σ : Type) where
  step : (c : C) → σ → R c → σ → Prop
  safe : σ → C → Prop := fun _ _ => True
  mayFail : σ → Prop := fun _ => True

section Execution

variable {C : Type} {R : C → Type} {α β σ : Type}

/-- Big-step execution: `p` started in `s` returns `a` in `s'`. -/
inductive Exec (S : Sem C R σ) : Prog C R α → σ → α → σ → Prop
  | ret (a : α) (s : σ) : Exec S (.ret a) s a s
  | cmd {c : C} {k : R c → Prog C R α} {s s' s'' : σ} {r : R c} {a : α}
      (hstep : S.step c s r s') (hrest : Exec S (k r) s' a s'') :
      Exec S (.cmd c k) s a s''

/-- A program that fails returns nothing. -/
theorem not_exec_fail {S : Sem C R σ} {s s' : σ} {a : α} : ¬ Exec S .fail s a s' := by
  intro h
  cases h

/-- Execution of a sequence splits at the returned value of the first part. -/
theorem exec_bind_iff {S : Sem C R σ} {p : Prog C R α} {f : α → Prog C R β} {s s' : σ} {b : β} :
    Exec S (p >>= f) s b s' ↔ ∃ a m, Exec S p s a m ∧ Exec S (f a) m b s' := by
  constructor
  · intro h
    induction p generalizing s with
    | ret a => exact ⟨a, s, .ret a s, h⟩
    | cmd c k ih =>
        cases h with
        | cmd hstep hrest =>
            obtain ⟨a, m, hfirst, hsecond⟩ := ih _ hrest
            exact ⟨a, m, .cmd hstep hfirst, hsecond⟩
    | fail => cases h
  · rintro ⟨a, m, hfirst, hsecond⟩
    induction hfirst with
    | ret a s => exact hsecond
    | cmd hstep _ ih => exact .cmd hstep (ih hsecond)

/-- Where the states of one meaning stand for those of another, so do the executions. -/
theorem exec_map {τ : Type} {S : Sem C R σ} {T : Sem C R τ} (f : σ → τ)
    (h : ∀ c s r s', S.step c s r s' → T.step c (f s) r (f s')) {p : Prog C R α} {s s' : σ} {a : α}
    (hexec : Exec S p s a s') : Exec T p (f s) a (f s') := by
  induction hexec with
  | ret a s => exact .ret a (f s)
  | cmd hstep _ ih => exact .cmd (h _ _ _ _ hstep) ih

/-- A meaning with more answers has more executions. -/
theorem exec_mono {S T : Sem C R σ} (h : ∀ c s r s', S.step c s r s' → T.step c s r s')
    {p : Prog C R α} {s s' : σ} {a : α} (hexec : Exec S p s a s') : Exec T p s a s' :=
  exec_map id h hexec

/-- The executable meaning of a deterministic choice of replies: `none` means
that the command has no reply (or the program failed). -/
def run (f : (c : C) → σ → Option (R c × σ)) : Prog C R α → σ → Option (α × σ)
  | .ret a, s => some (a, s)
  | .cmd c k, s =>
      match f c s with
      | none => none
      | some (r, s') => run f (k r) s'
  | .fail, _ => none

theorem run_step (f : (c : C) → σ → Option (R c × σ)) (c : C) (k : R c → Prog C R α) (s : σ) :
    run f (.cmd c k) s = (f c s).bind fun (r, s') => run f (k r) s' := by
  rw [run]
  cases f c s <;> rfl

/-- One command that is answered. -/
theorem run_step_of_eq {f : (c : C) → σ → Option (R c × σ)} {c : C} {k : R c → Prog C R α}
    {s s' : σ} {r : R c} (h : f c s = some (r, s')) : run f (.cmd c k) s = run f (k r) s' := by
  rw [run_step, h]
  rfl

theorem run_bind (f : (c : C) → σ → Option (R c × σ)) (p : Prog C R α) (k : α → Prog C R β)
    (s : σ) : run f (p >>= k) s = (run f p s).bind fun (a, s') => run f (k a) s' := by
  induction p generalizing s with
  | ret a => rfl
  | cmd c next ih =>
      rw [Prog.cmd_bind, run, run]
      cases f c s with
      | none => rfl
      | some reply => exact ih reply.1 reply.2
  | fail => rfl

/-- A sequence runs on from where its first part ends. -/
theorem run_bind_of_eq {f : (c : C) → σ → Option (R c × σ)} {p : Prog C R α} {a : α} {s s' : σ}
    (h : run f p s = some (a, s')) (k : α → Prog C R β) :
    run f (p >>= k) s = run f (k a) s' := by
  rw [run_bind, h]
  rfl

/-- A run of a deterministic choice that the meaning allows is an execution. -/
theorem exec_of_run {S : Sem C R σ} {f : (c : C) → σ → Option (R c × σ)}
    (hf : ∀ c s r s', f c s = some (r, s') → S.step c s r s')
    {p : Prog C R α} {s s' : σ} {a : α} (h : run f p s = some (a, s')) : Exec S p s a s' := by
  induction p generalizing s with
  | ret b =>
      obtain ⟨rfl, rfl⟩ : b = a ∧ s = s' := by simpa [run] using h
      exact .ret b s
  | cmd c k ih =>
      rw [run] at h
      cases hreply : f c s with
      | none => simp [hreply] at h
      | some reply =>
          obtain ⟨r, m⟩ := reply
          rw [hreply] at h
          exact .cmd (hf c s r m hreply) (ih r h)
  | fail => simp [run] at h

/-- A run that is defined is an execution. -/
theorem exec_run_get {S : Sem C R σ} {f : (c : C) → σ → Option (R c × σ)}
    (hf : ∀ c s r s', f c s = some (r, s') → S.step c s r s')
    {p : Prog C R α} {s : σ} (h : (run f p s).isSome) :
    Exec S p s ((run f p s).get h).1 ((run f p s).get h).2 :=
  exec_of_run hf (Option.some_get h).symm

end Execution

section WeakestPrecondition

variable {C : Type} {R : C → Type} {α β σ : Type}

/-- Weakest precondition: every command issued is safe where it is issued, and
every execution ends in a value and a state satisfying `Q`. -/
def wp (S : Sem C R σ) : Prog C R α → (α → σ → Prop) → σ → Prop
  | .ret a, Q, s => Q a s
  | .cmd c k, Q, s => S.safe s c ∧ ∀ r s', S.step c s r s' → wp S (k r) Q s'
  | .fail, _, s => S.mayFail s

@[simp] theorem wp_ret (S : Sem C R σ) (a : α) (Q : α → σ → Prop) (s : σ) :
    wp S (.ret a) Q s ↔ Q a s := Iff.rfl

theorem wp_cmd (S : Sem C R σ) (c : C) (k : R c → Prog C R α) (Q : α → σ → Prop) (s : σ) :
    wp S (.cmd c k) Q s ↔ S.safe s c ∧ ∀ r s', S.step c s r s' → wp S (k r) Q s' := Iff.rfl

@[simp] theorem wp_fail (S : Sem C R σ) (Q : α → σ → Prop) (s : σ) :
    wp S .fail Q s ↔ S.mayFail s := Iff.rfl

@[simp] theorem wp_bind (S : Sem C R σ) (p : Prog C R α) (f : α → Prog C R β)
    (Q : β → σ → Prop) (s : σ) :
    wp S (p >>= f) Q s ↔ wp S p (fun a m => wp S (f a) Q m) s := by
  induction p generalizing s with
  | ret a => rfl
  | cmd c k ih =>
      rw [Prog.cmd_bind, wp_cmd, wp_cmd]
      exact and_congr_right fun _ =>
        forall_congr' fun r => forall_congr' fun m => imp_congr_right fun _ => ih r m
  | fail => rfl

@[simp] theorem wp_ite (S : Sem C R σ) (c : Prop) [Decidable c] (p q : Prog C R α)
    (Q : α → σ → Prop) (s : σ) :
    wp S (if c then p else q) Q s ↔ (c → wp S p Q s) ∧ (¬ c → wp S q Q s) := by
  split <;> simp_all

/-- Consequence: a weaker postcondition has a weaker precondition. -/
theorem wp_mono {S : Sem C R σ} {p : Prog C R α} {Q Q' : α → σ → Prop} {s : σ}
    (h : wp S p Q s) (hQ : ∀ a s', Q a s' → Q' a s') : wp S p Q' s := by
  induction p generalizing s with
  | ret a => exact hQ a s h
  | cmd c k ih => exact ⟨h.1, fun r m hstep => ih r (h.2 r m hstep)⟩
  | fail => exact h

/-- Two postconditions can be proved one at a time. -/
theorem wp_and {S : Sem C R σ} {p : Prog C R α} {Q Q' : α → σ → Prop} {s : σ}
    (h : wp S p Q s) (h' : wp S p Q' s) : wp S p (fun a s' => Q a s' ∧ Q' a s') s := by
  induction p generalizing s with
  | ret a => exact ⟨h, h'⟩
  | cmd c k ih => exact ⟨h.1, fun r m hstep => ih r (h.2 r m hstep) (h'.2 r m hstep)⟩
  | fail => exact h

/-- Two meanings side by side: what both allow happens to both states. -/
def Sem.prod {τ : Type} (S : Sem C R σ) (T : Sem C R τ) : Sem C R (σ × τ) where
  step c s r s' := S.step c s.1 r s'.1 ∧ T.step c s.2 r s'.2
  safe s c := S.safe s.1 c ∧ T.safe s.2 c
  mayFail s := S.mayFail s.1 ∧ T.mayFail s.2

/-- A program that follows two protocols follows both at once. -/
theorem wp_prod {τ : Type} {S : Sem C R σ} {T : Sem C R τ} {p : Prog C R α} {Q : α → σ → Prop}
    {Q' : α → τ → Prop} {s : σ} {t : τ} (h : wp S p Q s) (h' : wp T p Q' t) :
    wp (S.prod T) p (fun a s' => Q a s'.1 ∧ Q' a s'.2) (s, t) := by
  induction p generalizing s t with
  | ret a => exact ⟨h, h'⟩
  | cmd c k ih =>
      refine ⟨⟨h.1, h'.1⟩, ?_⟩
      rintro r ⟨m, m'⟩ ⟨hstep, hstep'⟩
      exact ih r (h.2 r m hstep) (h'.2 r m' hstep')
  | fail => exact ⟨h, h'⟩

/-- Soundness: executions end in the postcondition. -/
theorem wp_sound {S : Sem C R σ} {p : Prog C R α} {Q : α → σ → Prop} {s s' : σ} {a : α}
    (h : wp S p Q s) (hexec : Exec S p s a s') : Q a s' := by
  induction hexec with
  | ret a s => exact h
  | cmd hstep _ ih => exact ih (h.2 _ _ hstep)

/-- Where nothing is forbidden, the weakest precondition is about the executions alone. -/
theorem wp_iff_exec {S : Sem C R σ} (hsafe : ∀ s c, S.safe s c) (hfail : ∀ s, S.mayFail s)
    {p : Prog C R α} {Q : α → σ → Prop} {s : σ} :
    wp S p Q s ↔ ∀ a s', Exec S p s a s' → Q a s' := by
  constructor
  · exact fun h a s' hexec => wp_sound h hexec
  · intro h
    induction p generalizing s with
    | ret a => exact h a s (.ret a s)
    | cmd c k ih =>
        refine ⟨hsafe s c, fun r m hstep => ih r fun a s' hrest => ?_⟩
        exact h a s' (.cmd hstep hrest)
    | fail => exact hfail s

/-- What one meaning proves of a program holds under another one that it simulates, the
states of both related by `rel`. -/
theorem wp_of_simulation {τ : Type} {S : Sem C R σ} {T : Sem C R τ} (rel : σ → τ → Prop)
    (hsafe : ∀ c s t, rel s t → S.safe s c → T.safe t c)
    (hstep : ∀ c s t r t', rel s t → S.safe s c → T.step c t r t' →
      ∃ s', S.step c s r s' ∧ rel s' t')
    (hfail : ∀ s t, rel s t → S.mayFail s → T.mayFail t) {p : Prog C R α} {Q : α → σ → Prop}
    {s : σ} {t : τ} (hrel : rel s t) (h : wp S p Q s) :
    wp T p (fun a t' => ∃ s', rel s' t' ∧ Q a s') t := by
  induction p generalizing s t with
  | ret a => exact ⟨s, hrel, h⟩
  | cmd c k ih =>
      refine ⟨hsafe c s t hrel h.1, fun r t' ht => ?_⟩
      obtain ⟨s', hs, hrel'⟩ := hstep c s t r t' hrel h.1 ht
      exact ih r hrel' (h.2 r s' hs)
  | fail => exact hfail s t hrel h

end WeakestPrecondition

section Endings

variable {C : Type} {R : C → Type} {α β σ : Type}

/-- How `p` started in `s` ends in `s'`: with a value, or by failing. -/
inductive Ends (S : Sem C R σ) : Prog C R α → σ → Option α → σ → Prop
  | ret (a : α) (s : σ) : Ends S (.ret a) s (some a) s
  | fail (s : σ) : Ends S .fail s none s
  | cmd {c : C} {k : R c → Prog C R α} {s s' s'' : σ} {r : R c} {outcome : Option α}
      (hstep : S.step c s r s') (hrest : Ends S (k r) s' outcome s'') :
      Ends S (.cmd c k) s outcome s''

/-- What the precondition says of an end. -/
def EndsWell (S : Sem C R σ) (Q : α → σ → Prop) : Option α → σ → Prop
  | some a, s => Q a s
  | none, s => S.mayFail s

/-- The weakest precondition is about the ends alone, where every command is safe. -/
theorem wp_iff_ends {S : Sem C R σ} (hsafe : ∀ s c, S.safe s c) {p : Prog C R α}
    {Q : α → σ → Prop} {s : σ} :
    wp S p Q s ↔ ∀ outcome s', Ends S p s outcome s' → EndsWell S Q outcome s' := by
  constructor
  · intro h outcome s' hends
    induction hends with
    | ret a s => exact h
    | fail s => exact h
    | cmd hstep _ ih => exact ih (h.2 _ _ hstep)
  · intro h
    induction p generalizing s with
    | ret a => exact h (some a) s (.ret a s)
    | cmd c k ih =>
        refine ⟨hsafe s c, fun r m hstep => ih r fun outcome s' hrest => ?_⟩
        exact h outcome s' (.cmd hstep hrest)
    | fail => exact h none s (.fail s)

end Endings

section AnyAnswers

variable {C : Type} {R : C → Type} {α β σ : Type}

/-- Every command answers anything. -/
def anyAnswers : Sem C R Unit where
  step _ _ _ _ := True

end AnyAnswers

section Frame

variable {C : Type} {R : C → Type} {α β σ : Type}

/-- Every command that the program can issue satisfies `P`, whatever the
replies are. -/
def Uses (P : C → Prop) : Prog C R α → Prop
  | .ret _ => True
  | .cmd c k => P c ∧ ∀ r, Uses P (k r)
  | .fail => True

@[simp] theorem uses_ret (P : C → Prop) (a : α) : Uses P (.ret a : Prog C R α) := trivial

@[simp] theorem uses_fail (P : C → Prop) : Uses P (.fail : Prog C R α) := trivial

@[simp] theorem uses_issue (P : C → Prop) (c : C) : Uses P (Prog.issue c : Prog C R (R c)) ↔ P c :=
  ⟨fun h => h.1, fun h => ⟨h, fun _ => trivial⟩⟩

theorem uses_bind {P : C → Prop} {p : Prog C R α} {f : α → Prog C R β}
    (hp : Uses P p) (hf : ∀ a, Uses P (f a)) : Uses P (p >>= f) := by
  induction p with
  | ret a => exact hf a
  | cmd c k ih => exact ⟨hp.1, fun r => ih r (hp.2 r)⟩
  | fail => trivial

theorem uses_ite {P : C → Prop} {c : Prop} [Decidable c] {p q : Prog C R α}
    (hp : Uses P p) (hq : Uses P q) : Uses P (if c then p else q) := by
  split
  · exact hp
  · exact hq

theorem uses_mono {P Q : C → Prop} (h : ∀ c, P c → Q c) {p : Prog C R α} (hp : Uses P p) :
    Uses Q p := by
  induction p with
  | ret a => trivial
  | cmd c k ih => exact ⟨h c hp.1, fun r => ih r (hp.2 r)⟩
  | fail => trivial

theorem uses_of_forall {P : C → Prop} (h : ∀ c, P c) (p : Prog C R α) : Uses P p := by
  induction p with
  | ret a => trivial
  | cmd c k ih => exact ⟨h c, ih⟩
  | fail => trivial

/-- A program that issues nothing returns or fails at once. -/
theorem ret_or_fail_of_uses {p : Prog C R α} (hp : Uses (fun _ => False) p) :
    (∃ a, p = .ret a) ∨ p = .fail := by
  cases p with
  | ret a => exact Or.inl ⟨a, rfl⟩
  | cmd c k => exact absurd hp.1 id
  | fail => exact Or.inr rfl

/-- After a first part that issues nothing, its value decides. -/
theorem wp_bind_of_uses_false {S : Sem C R σ} (hfail : ∀ s, S.mayFail s) {p : Prog C R α}
    (hp : Uses (fun _ => False) p) {f : α → Prog C R β} {Q : β → σ → Prop} {s : σ} :
    wp S (p >>= f) Q s ↔ ∀ a, p = .ret a → wp S (f a) Q s := by
  obtain ⟨a, rfl⟩ | rfl := ret_or_fail_of_uses hp
  · constructor
    · intro h a' heq
      exact Prog.ret.inj heq ▸ h
    · exact fun h => h a rfl
  · exact iff_of_true (hfail s) fun a heq => nomatch heq

/-- Frame rule: when every command the program uses is safe and keeps `I`,
the program keeps `I`. -/
theorem wp_of_uses {S : Sem C R σ} {P : C → Prop} {I : σ → Prop}
    (hsafe : ∀ c s, P c → I s → S.safe s c)
    (hkeep : ∀ c s r s', P c → I s → S.step c s r s' → I s')
    (hfail : ∀ s, I s → S.mayFail s)
    {p : Prog C R α} (hp : Uses P p) {s : σ} (hs : I s) : wp S p (fun _ s' => I s') s := by
  induction p generalizing s with
  | ret a => exact hs
  | cmd c k ih =>
      exact ⟨hsafe c s hp.1 hs, fun r m hstep => ih r (hp.2 r) (hkeep c s r m hp.1 hs hstep)⟩
  | fail => exact hfail s hs

/-- The command is always safe and leaves the state alone. -/
def Sem.Idle (S : Sem C R σ) (c : C) : Prop :=
  ∀ s, S.safe s c ∧ ∀ r s', S.step c s r s' → s' = s

/-- A program of idle commands leaves the state alone. -/
theorem wp_of_idle {S : Sem C R σ} {p : Prog C R α} {Q : α → σ → Prop} {s : σ}
    (hfail : ∀ s, S.mayFail s) (hp : Uses S.Idle p) (hQ : ∀ a, Q a s) : wp S p Q s := by
  have hkeep : wp S p (fun _ s' => s' = s) s := by
    refine wp_of_uses (fun c s hc _ => (hc s).1) ?_ (fun s _ => hfail s) hp rfl
    rintro c s' r s'' hc rfl hstep
    exact (hc s').2 r s'' hstep
  refine wp_mono hkeep ?_
  rintro a _ rfl
  exact hQ a

end Frame

end Lib
end TcMuzi
