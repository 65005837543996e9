import Mathlib.Data.Fintype.Card
import Mathlib.Algebra.BigOperators.Group.Finset.Piecewise
import Mathlib.Logic.Function.Basic
import Mathlib.Data.Set.Defs
import Mathlib.Logic.Relation
import TcMuzi.Lib.Program

/-!
# Interleavings of programs

Threads indexed by an arbitrary type `ι` each run a program; the system
interleaves their commands in any order over a shared state `G`.

* `System` gives the effect of a thread's command on the shared state, what a
  command does that has to wait before it is answered, what happens when a
  thread fails, and the moves of the environment.
* `Step` and `Reachable` are the interleaved runs.
* `reachable_simulates` is the invariant rule.  Each thread follows a protocol
  automaton (a `Sem` used through `wp`); an invariant relating the shared state
  to the automaton states of all threads, kept by every single command, holds
  in every reachable state.
* `threadsIn` counts the threads in a protocol state.
* `schedule` executes the threads in a given order on a machine that answers.
* `no_circular_wait` is the argument from an order of the resources.
-/

namespace TcMuzi
namespace Lib

section Systems

variable {ι C : Type} {R : C → Type} {α G Q : Type}

/-- The shared state's side of a system of threads. -/
structure System (ι C : Type) (R : C → Type) (G : Type) where
  /-- Thread `i` issues `c` in `g`, is answered `r` and leaves `g'`. -/
  step : ι → (c : C) → G → R c → G → Prop
  /-- Thread `i` issues `c` in `g` and leaves `g'`, but is not answered yet. -/
  pause : ι → C → G → G → Prop
  /-- A thread that failed takes the shared state along. -/
  fault : G → G → Prop
  /-- A move of the environment. -/
  env : G → G → Prop

/-- The shared state and the remaining program of every thread. -/
structure Config (ι C : Type) (R : C → Type) (α G : Type) where
  shared : G
  prog : ι → Prog C R α

/-- One step of the interleaving. -/
inductive Step [DecidableEq ι] (Y : System ι C R G) :
    Config ι C R α G → Config ι C R α G → Prop
  | cmd {cfg : Config ι C R α G} {g' : G} (i : ι) {c : C} {k : R c → Prog C R α} {r : R c}
      (hprog : cfg.prog i = .cmd c k) (hstep : Y.step i c cfg.shared r g') :
      Step Y cfg ⟨g', Function.update cfg.prog i (k r)⟩
  | pause {cfg : Config ι C R α G} {g' : G} (i : ι) {c : C} {k : R c → Prog C R α}
      (hprog : cfg.prog i = .cmd c k) (hpause : Y.pause i c cfg.shared g') :
      Step Y cfg ⟨g', cfg.prog⟩
  | fault {cfg : Config ι C R α G} {g' : G} (i : ι)
      (hprog : cfg.prog i = .fail) (hfault : Y.fault cfg.shared g') :
      Step Y cfg ⟨g', cfg.prog⟩
  | env {cfg : Config ι C R α G} {g' : G} (henv : Y.env cfg.shared g') :
      Step Y cfg ⟨g', cfg.prog⟩

/-- States reached from `init` by any interleaving. -/
def Reachable [DecidableEq ι] (Y : System ι C R G) (init cfg : Config ι C R α G) : Prop :=
  Relation.ReflTransGen (Step Y) init cfg

/-- A thread has completed when it has returned. -/
def Config.Completed (cfg : Config ι C R α G) (i : ι) : Prop :=
  ∃ a, cfg.prog i = .ret a

/-- Whether the program has returned. -/
def isRet : Prog C R α → Bool
  | .ret _ => true
  | _ => false

theorem completed_of_isRet {cfg : Config ι C R α G} {i : ι} (h : isRet (cfg.prog i) = true) :
    cfg.Completed i := by
  unfold Config.Completed
  cases hprog : cfg.prog i with
  | ret a => exact ⟨a, rfl⟩
  | cmd c k => simp [hprog, isRet] at h
  | fail => simp [hprog, isRet] at h

/-- The shared state related to the protocol states `q` of all threads, each of
which still follows its protocol. -/
def Simulates (P : ι → Sem C R Q) (Inv : G → (ι → Q) → Prop) (post : ι → α → Q → Prop)
    (cfg : Config ι C R α G) (q : ι → Q) : Prop :=
  Inv cfg.shared q ∧ ∀ i, wp (P i) (cfg.prog i) (post i) (q i)

/-- A thread that neither enters nor leaves a protocol state. -/
theorem update_eq_iff [DecidableEq ι] {q : ι → Q} {i : ι} {p a : Q} (h : p = a ↔ q i = a) (j : ι) :
    Function.update q i p j = a ↔ q j = a := by
  by_cases hj : j = i
  · subst hj
    rw [Function.update_self, h]
  · rw [Function.update_of_ne hj]

variable {Y : System ι C R G} {P : ι → Sem C R Q} {Inv : G → (ι → Q) → Prop}
  {post : ι → α → Q → Prop}

/-- A completed thread satisfies its postcondition. -/
theorem Simulates.post_of_ret {cfg : Config ι C R α G} {q : ι → Q}
    (hsim : Simulates P Inv post cfg q) {i : ι} {a : α} (h : cfg.prog i = .ret a) :
    post i a (q i) := by
  have hi := hsim.2 i
  rwa [h] at hi

/-- A command that a thread is about to issue is safe. -/
theorem Simulates.safe_of_cmd {cfg : Config ι C R α G} {q : ι → Q}
    (hsim : Simulates P Inv post cfg q) {i : ι} {c : C} {k : R c → Prog C R α}
    (h : cfg.prog i = .cmd c k) : (P i).safe (q i) c := by
  have hi := hsim.2 i
  rw [h] at hi
  exact hi.1

variable [DecidableEq ι]

/-- Every single command keeps the simulation. -/
theorem step_simulates
    (hstep : ∀ i c g r g' q, Inv g q → (P i).safe (q i) c → Y.step i c g r g' →
      ∃ q', (P i).step c (q i) r q' ∧ Inv g' (Function.update q i q'))
    (hpause : ∀ i c g g' q, Inv g q → (P i).safe (q i) c → Y.pause i c g g' → Inv g' q)
    (hfault : ∀ g g' q i, Inv g q → (P i).mayFail (q i) → Y.fault g g' → Inv g' q)
    (henv : ∀ g g' q, Inv g q → Y.env g g' → Inv g' q)
    {cfg cfg' : Config ι C R α G} {q : ι → Q} (hsim : Simulates P Inv post cfg q)
    (h : Step Y cfg cfg') : ∃ q', Simulates P Inv post cfg' q' := by
  obtain ⟨hinv, hprogs⟩ := hsim
  cases h with
  | cmd i hprog hcmd =>
      have hi := hprogs i
      rw [hprog, wp_cmd] at hi
      obtain ⟨hsafe, hnext⟩ := hi
      obtain ⟨q', hq', hinv'⟩ := hstep i _ _ _ _ q hinv hsafe hcmd
      refine ⟨Function.update q i q', hinv', fun j => ?_⟩
      by_cases hj : j = i
      · subst hj
        simpa using hnext _ _ hq'
      · simpa [Function.update_of_ne hj] using hprogs j
  | pause i hprog hwait =>
      have hi := hprogs i
      rw [hprog, wp_cmd] at hi
      exact ⟨q, hpause i _ _ _ q hinv hi.1 hwait, hprogs⟩
  | fault i hprog hdown =>
      have hi := hprogs i
      rw [hprog, wp_fail] at hi
      exact ⟨q, hfault _ _ q i hinv hi hdown, hprogs⟩
  | env hmove => exact ⟨q, henv _ _ q hinv hmove, hprogs⟩

/-- Invariant rule for interleavings: what holds initially and is kept by every
command, fault and move of the environment holds in every reachable state,
together with each thread's own protocol. -/
theorem reachable_simulates
    (hstep : ∀ i c g r g' q, Inv g q → (P i).safe (q i) c → Y.step i c g r g' →
      ∃ q', (P i).step c (q i) r q' ∧ Inv g' (Function.update q i q'))
    (hpause : ∀ i c g g' q, Inv g q → (P i).safe (q i) c → Y.pause i c g g' → Inv g' q)
    (hfault : ∀ g g' q i, Inv g q → (P i).mayFail (q i) → Y.fault g g' → Inv g' q)
    (henv : ∀ g g' q, Inv g q → Y.env g g' → Inv g' q)
    {init cfg : Config ι C R α G} {q₀ : ι → Q} (hinit : Simulates P Inv post init q₀)
    (h : Reachable Y init cfg) : ∃ q, Simulates P Inv post cfg q := by
  induction h with
  | refl => exact ⟨q₀, hinit⟩
  | tail _ hlast ih =>
      obtain ⟨q, hsim⟩ := ih
      exact step_simulates hstep hpause hfault henv hsim hlast

/-- Only commands change the shared state. -/
def System.Quiet (Y : System ι C R G) : Prop :=
  (∀ i c g g', ¬ Y.pause i c g g') ∧ (∀ g g', ¬ Y.fault g g') ∧ ∀ g g', ¬ Y.env g g'

/-- There only the commands have to be looked at. -/
theorem quiet_simulates (hquiet : Y.Quiet)
    (hstep : ∀ i c g r g' q, Inv g q → (P i).safe (q i) c → Y.step i c g r g' →
      ∃ q', (P i).step c (q i) r q' ∧ Inv g' (Function.update q i q'))
    {init cfg : Config ι C R α G} {q₀ : ι → Q} (hinit : Simulates P Inv post init q₀)
    (h : Reachable Y init cfg) : ∃ q, Simulates P Inv post cfg q := by
  obtain ⟨hpause, hfault, henv⟩ := hquiet
  exact reachable_simulates hstep (fun i c g g' _ _ _ hno => absurd hno (hpause i c g g'))
    (fun g g' _ _ _ _ hno => absurd hno (hfault g g'))
    (fun g g' _ _ hno => absurd hno (henv g g')) hinit h

/-! ## Executable runs -/

/-- One more command of a thread, and what is left of its program. -/
theorem Reachable.cmd {init : Config ι C R α G} {g g' : G} {prog : ι → Prog C R α}
    (h : Reachable Y init ⟨g, prog⟩) {i : ι} {c : C} {k : R c → Prog C R α} {r : R c}
    (hprog : prog i = .cmd c k) (hstep : Y.step i c g r g') :
    ∃ prog', Reachable Y init ⟨g', prog'⟩ ∧ prog' i = k r :=
  ⟨_, h.tail (.cmd i hprog hstep), Function.update_self ..⟩

/-- Execute one command of each thread of the list in turn, as long as `f` answers. -/
def schedule (f : ι → (c : C) → G → Option (R c × G)) :
    List ι → Config ι C R α G → Option (Config ι C R α G)
  | [], cfg => some cfg
  | i :: is, cfg =>
      match cfg.prog i with
      | .cmd c k =>
          match f i c cfg.shared with
          | some (r, g) => schedule f is ⟨g, Function.update cfg.prog i (k r)⟩
          | none => none
      | _ => none

/-- What is scheduled is reachable, when the system allows the answers. -/
theorem reachable_of_schedule {f : ι → (c : C) → G → Option (R c × G)}
    (hf : ∀ i c g r g', f i c g = some (r, g') → Y.step i c g r g') {is : List ι}
    {init cfg cfg' : Config ι C R α G} (hreach : Reachable Y init cfg)
    (h : schedule f is cfg = some cfg') : Reachable Y init cfg' := by
  induction is generalizing cfg with
  | nil =>
      obtain rfl : cfg = cfg' := by simpa [schedule] using h
      exact hreach
  | cons i is ih =>
      rw [schedule] at h
      cases hprog : cfg.prog i with
      | ret a => simp [hprog] at h
      | fail => simp [hprog] at h
      | cmd c k =>
          rw [hprog] at h
          cases hreply : f i c cfg.shared with
          | none => simp [hreply] at h
          | some reply =>
              obtain ⟨r, g⟩ := reply
              simp only [hreply] at h
              exact ih (hreach.tail (.cmd i hprog (hf i c _ r g hreply))) h

end Systems

/-! ## Counting threads -/

section Counting

variable {ι Q : Type} [Fintype ι] [DecidableEq Q]

/-- The number of threads in a protocol state. -/
def threadsIn (q : ι → Q) (p : Q) : Nat :=
  (Finset.univ.filter fun i => q i = p).card

theorem threadsIn_eq_sum (q : ι → Q) (p : Q) :
    threadsIn q p = ∑ i, if q i = p then 1 else 0 :=
  Finset.card_filter ..

/-- A thread that moves leaves the count of its old state and enters that of its new one. -/
theorem threadsIn_update [DecidableEq ι] (q : ι → Q) (i : ι) (a p : Q) :
    threadsIn (Function.update q i a) p + (if q i = p then 1 else 0) =
      threadsIn q p + if a = p then 1 else 0 := by
  have hrest : ∀ f : ι → Q, threadsIn f p =
      (∑ j ∈ Finset.univ.erase i, if f j = p then 1 else 0) + if f i = p then 1 else 0 := by
    intro f
    rw [threadsIn_eq_sum]
    exact (Finset.sum_erase_add _ _ (Finset.mem_univ i)).symm
  rw [hrest q, hrest, Function.update_self]
  have hsame : (∑ j ∈ Finset.univ.erase i, if Function.update q i a j = p then 1 else 0) =
      ∑ j ∈ Finset.univ.erase i, if q j = p then 1 else 0 := by
    refine Finset.sum_congr rfl fun j hj => ?_
    rw [Function.update_of_ne (Finset.ne_of_mem_erase hj)]
  rw [hsame]
  omega

theorem threadsIn_eq_zero {q : ι → Q} {p : Q} (h : ∀ i, q i ≠ p) : threadsIn q p = 0 := by
  rw [threadsIn, Finset.card_eq_zero, Finset.filter_eq_empty_iff]
  exact fun i _ => h i

theorem threadsIn_pos {q : ι → Q} {p : Q} {i : ι} (h : q i = p) : 0 < threadsIn q p :=
  Finset.card_pos.mpr ⟨i, by simp [h]⟩

end Counting

/-- Threads that wait for a resource only while they hold lower ones never wait in a
circle: there is no set of threads each of which waits for a resource that one of the set
holds. -/
theorem no_circular_wait {ι ρ : Type} {holds waits : ι → ρ → Prop} (rank : ρ → Nat) (bound : Nat)
    (hbound : ∀ p, rank p < bound)
    (hordered : ∀ i p p', waits i p → holds i p' → rank p' < rank p) {S : Set ι}
    (hS : ∀ i ∈ S, ∃ p, waits i p ∧ ∃ j ∈ S, holds j p) : ¬ S.Nonempty := by
  -- the holder of a resource waits for a higher one, and there is a highest
  have hnone : ∀ n p, bound - rank p ≤ n → ∀ j ∈ S, ¬ holds j p := by
    intro n
    induction n with
    | zero =>
        intro p hle
        have := hbound p
        omega
    | succ n ih =>
        intro p hle j hj hholds
        obtain ⟨p', hwaits, j', hj', hholds'⟩ := hS j hj
        have hlt := hordered j p' p hwaits hholds
        have hlt' := hbound p'
        exact ih p' (by omega) j' hj' hholds'
  rintro ⟨i, hi⟩
  obtain ⟨p, _, j, hj, hholds⟩ := hS i hi
  exact hnone _ p (Nat.le_refl _) j hj hholds

end Lib
end TcMuzi
