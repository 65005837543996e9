import Mathlib.Data.List.Nodup
import Mathlib.Tactic.Common

/-!
# Monitors with one condition variable

Threads call into data that a mutex protects.  A call is cut into critical sections at the
waits on the condition variable: a section ends when the call returns, possibly after a
`notify_one`, or when it waits.  `body` says what a section does; whether it is the first
one of its call or one after a wait is its first argument.

A waiting thread is blocked until a notification, a timeout or a spurious wake-up makes it
a woken one, which takes the mutex again at any later time and in any order with threads
that enter.

* `Reachable.invariant` lifts what every section keeps to all reachable states.
* `Reachable.blocked_le` is the rule against lost wake-ups.
-/

namespace TcMuzi
namespace Lib

/-- How a critical section ends. -/
inductive Ending (ρ : Type)
  | returns (r : ρ) (notifies : Bool)
  | waits

/-- The critical sections of the calls `α` with results `ρ` on data `σ`. -/
structure Monitor (ι α ρ σ : Type) where
  body : (resumed : Bool) → ι → α → σ → Ending ρ → σ → Prop

/-- The threads inside a wait: blocked ones, and woken ones that do not have the mutex
yet. -/
structure WaitQueue (ι α : Type) where
  blocked : List (ι × α)
  woken : List (ι × α)

namespace WaitQueue

variable {ι α : Type}

def empty : WaitQueue ι α := ⟨[], []⟩

def threads (q : WaitQueue ι α) : List ι :=
  (q.blocked ++ q.woken).map Prod.fst

/-- One blocked thread, if there is one, becomes a woken one. -/
inductive Notified : WaitQueue ι α → WaitQueue ι α → Prop
  | nobody (woken : List (ι × α)) : Notified ⟨[], woken⟩ ⟨[], woken⟩
  | one (pre post woken : List (ι × α)) (w : ι × α) :
      Notified ⟨pre ++ w :: post, woken⟩ ⟨pre ++ post, w :: woken⟩

/-- A thread gets the mutex: it enters, or it was woken. -/
inductive Acquires : Bool → ι → α → WaitQueue ι α → WaitQueue ι α → Prop
  | enters {i : ι} {a : α} {q : WaitQueue ι α} (hidle : i ∉ q.threads) : Acquires false i a q q
  | resumes {i : ι} {a : α} (blocked pre post : List (ι × α)) :
      Acquires true i a ⟨blocked, pre ++ (i, a) :: post⟩ ⟨blocked, pre ++ post⟩

/-- A section that returns notifies or not. -/
def Signals (notifies : Bool) (q q' : WaitQueue ι α) : Prop :=
  if notifies then Notified q q' else q' = q

def block (q : WaitQueue ι α) (i : ι) (a : α) : WaitQueue ι α :=
  { q with blocked := (i, a) :: q.blocked }

theorem Notified.threads_perm {q q' : WaitQueue ι α} (h : Notified q q') :
    q'.threads.Perm q.threads := by
  cases h with
  | nobody woken => exact List.Perm.refl _
  | one pre post woken w =>
      apply List.Perm.map
      rw [List.append_assoc, List.append_assoc, List.cons_append]
      exact List.Perm.append_left pre List.perm_middle

theorem Signals.threads_perm {notifies : Bool} {q q' : WaitQueue ι α} (h : Signals notifies q q') :
    q'.threads.Perm q.threads := by
  unfold Signals at h
  cases notifies with
  | false =>
      obtain rfl : q' = q := by simpa using h
      exact List.Perm.refl _
  | true => exact Notified.threads_perm (by simpa using h)

/-- The thread that got the mutex is in no wait, the others are where they were. -/
theorem Acquires.threads_perm {resumed : Bool} {i : ι} {a : α} {q q' : WaitQueue ι α}
    (h : Acquires resumed i a q q') :
    q.threads.Perm (if resumed then i :: q'.threads else q'.threads) := by
  cases h with
  | enters hidle => exact List.Perm.refl _
  | resumes blocked pre post =>
      rw [if_pos rfl]
      simp only [threads, List.map_append, List.map_cons, ← List.append_assoc]
      exact List.perm_middle

theorem Acquires.mem_threads {resumed : Bool} {i : ι} {a : α} {q q' : WaitQueue ι α}
    (h : Acquires resumed i a q q') {j : ι} (hj : j ∈ q'.threads) : j ∈ q.threads := by
  rw [h.threads_perm.mem_iff]
  cases resumed with
  | false => exact hj
  | true => exact List.mem_cons_of_mem i hj

theorem Acquires.nodup {resumed : Bool} {i : ι} {a : α} {q q' : WaitQueue ι α}
    (h : Acquires resumed i a q q') (hnodup : q.threads.Nodup) : (i :: q'.threads).Nodup := by
  have hperm := h.threads_perm
  cases h with
  | enters hidle => exact List.nodup_cons.mpr ⟨hidle, hnodup⟩
  | resumes blocked pre post => exact (hperm.nodup_iff).mp hnodup

end WaitQueue

namespace Monitor

variable {ι α ρ σ : Type}

/-- The data and the waiting threads. -/
structure State (ι α σ : Type) where
  shared : σ
  queue : WaitQueue ι α

/-- What a step shows: a thread's section with the result of its call, if it returned. -/
abbrev Label (ι α ρ : Type) := Option (ι × α × Option ρ)

/-- One step of the monitor. -/
inductive Step (M : Monitor ι α ρ σ) : State ι α σ → Label ι α ρ → State ι α σ → Prop
  | returns {resumed notifies : Bool} {i : ι} {a : α} {r : ρ} {g g' : σ} {q q₁ q' : WaitQueue ι α}
      (hacq : WaitQueue.Acquires resumed i a q q₁)
      (hbody : M.body resumed i a g (.returns r notifies) g')
      (hsignal : WaitQueue.Signals notifies q₁ q') : Step M ⟨g, q⟩ (some (i, a, some r)) ⟨g', q'⟩
  | waits {resumed : Bool} {i : ι} {a : α} {g g' : σ} {q q₁ : WaitQueue ι α}
      (hacq : WaitQueue.Acquires resumed i a q q₁) (hbody : M.body resumed i a g .waits g') :
      Step M ⟨g, q⟩ (some (i, a, none)) ⟨g', q₁.block i a⟩
  -- a timeout or a spurious wake-up
  | wakes (g : σ) (pre post woken : List (ι × α)) (w : ι × α) :
      Step M ⟨g, ⟨pre ++ w :: post, woken⟩⟩ none ⟨g, ⟨pre ++ post, w :: woken⟩⟩

/-- The states reached when no thread waits at first. -/
inductive Reachable (M : Monitor ι α ρ σ) (init : σ → Prop) : State ι α σ → Prop
  | start {g : σ} (hinit : init g) : Reachable M init ⟨g, .empty⟩
  | step {s s' : State ι α σ} {label : Label ι α ρ} (hreach : Reachable M init s)
      (hstep : Step M s label s') : Reachable M init s'

variable {M : Monitor ι α ρ σ} {init : σ → Prop}

/-- A step changes the data as a section does, or not at all. -/
theorem Step.shared {s s' : State ι α σ} {label : Label ι α ρ} (h : Step M s label s') {I : σ → Prop}
    (hbody : ∀ resumed i a g e g', I g → M.body resumed i a g e g' → I g') (hI : I s.shared) :
    I s'.shared := by
  cases h with
  | returns hacq hb hsignal => exact hbody _ _ _ _ _ _ hI hb
  | waits hacq hb => exact hbody _ _ _ _ _ _ hI hb
  | wakes g pre post woken w => exact hI

/-- What holds of the data initially and is kept by every section holds in every reachable
state. -/
theorem Reachable.invariant {I : σ → Prop} (hinit : ∀ g, init g → I g)
    (hbody : ∀ resumed i a g e g', I g → M.body resumed i a g e g' → I g')
    {s : State ι α σ} (h : Reachable M init s) : I s.shared := by
  induction h with
  | start hg => exact hinit _ hg
  | step _ hstep ih => exact hstep.shared hbody ih

/-- A thread waits at most once. -/
theorem Step.threads_nodup {s s' : State ι α σ} {label : Label ι α ρ} (h : Step M s label s')
    (hnodup : s.queue.threads.Nodup) : s'.queue.threads.Nodup := by
  cases h with
  | returns hacq hb hsignal =>
      have hrest := hacq.nodup hnodup
      exact (hsignal.threads_perm.nodup_iff).mpr (List.nodup_cons.mp hrest).2
  | waits hacq hb => exact hacq.nodup hnodup
  | wakes g pre post woken w =>
      exact ((WaitQueue.Notified.one pre post woken w).threads_perm.nodup_iff).mpr hnodup

theorem Reachable.threads_nodup {s : State ι α σ} (h : Reachable M init s) :
    s.queue.threads.Nodup := by
  induction h with
  | start hg => exact List.nodup_nil
  | step _ hstep ih => exact hstep.threads_nodup ih

/-! ### Who waits after a step -/

theorem Step.waiting_of_wakes {s s' : State ι α σ} (h : Step M s none s') {j : ι}
    (hj : j ∈ s'.queue.threads) : j ∈ s.queue.threads := by
  cases h with
  | wakes g pre post woken w =>
      exact ((WaitQueue.Notified.one pre post woken w).threads_perm.mem_iff).mp hj

theorem Step.waiting_of_waits {s s' : State ι α σ} {i : ι} {a : α}
    (h : Step M s (some (i, a, none)) s') {j : ι} (hj : j ∈ s'.queue.threads) :
    j = i ∨ j ∈ s.queue.threads := by
  cases h with
  | waits hacq hb =>
      rcases List.mem_cons.mp hj with heq | hrest
      · exact Or.inl heq
      · exact Or.inr (hacq.mem_threads hrest)

/-- A thread whose call returned waits no more. -/
theorem Step.waiting_of_returns {s s' : State ι α σ} {i : ι} {a : α} {r : ρ}
    (h : Step M s (some (i, a, some r)) s') (hnodup : s.queue.threads.Nodup) {j : ι}
    (hj : j ∈ s'.queue.threads) : j ≠ i ∧ j ∈ s.queue.threads := by
  cases h with
  | returns hacq hb hsignal =>
      have hrest := (hsignal.threads_perm.mem_iff).mp hj
      refine ⟨?_, hacq.mem_threads hrest⟩
      rintro rfl
      exact (List.nodup_cons.mp (hacq.nodup hnodup)).1 hrest

/-- While a thread is blocked there is no more to take than threads on their way to it. -/
def NoLostWakeup (avail : σ → Nat) (s : State ι α σ) : Prop :=
  s.queue.blocked ≠ [] → avail s.shared ≤ s.queue.woken.length

/-- Getting the mutex keeps the blocked threads. -/
theorem acquires_length {resumed : Bool} {i : ι} {a : α} {q q' : WaitQueue ι α}
    (h : WaitQueue.Acquires resumed i a q q') :
    q'.blocked = q.blocked ∧ q.woken.length = q'.woken.length + resumed.toNat := by
  cases h with
  | enters hidle => exact ⟨rfl, rfl⟩
  | resumes blocked pre post =>
      refine ⟨rfl, ?_⟩
      simp only [List.length_append, List.length_cons, Bool.toNat_true]
      omega

/-- A notification while a thread stays blocked leaves one more woken thread. -/
theorem signals_length {notifies : Bool} {q q' : WaitQueue ι α}
    (h : WaitQueue.Signals notifies q q') (hblocked : q'.blocked ≠ []) :
    q.blocked ≠ [] ∧ q'.woken.length = q.woken.length + notifies.toNat := by
  unfold WaitQueue.Signals at h
  cases notifies with
  | false =>
      obtain rfl : q' = q := by simpa using h
      exact ⟨hblocked, rfl⟩
  | true =>
      rw [if_pos rfl] at h
      cases h with
      | nobody woken => exact absurd rfl hblocked
      | one pre post woken w => exact ⟨by simp, rfl⟩

theorem Step.noLostWakeup {avail : σ → Nat} {I : σ → Prop}
    (hreturns : ∀ resumed i a g r notifies g', I g → M.body resumed i a g (.returns r notifies) g' →
      avail g' = 0 ∨ avail g' + resumed.toNat ≤ avail g + notifies.toNat)
    (hwaits : ∀ resumed i a g g', I g → M.body resumed i a g .waits g' → avail g' = 0)
    {s s' : State ι α σ} {label : Label ι α ρ} (h : Step M s label s') (hI : I s.shared)
    (hs : NoLostWakeup avail s) : NoLostWakeup avail s' := by
  intro hblocked
  cases h with
  | returns hacq hb hsignal =>
      obtain ⟨hblocked₁, hwoken'⟩ := signals_length hsignal hblocked
      obtain ⟨hsame, hwoken⟩ := acquires_length hacq
      have hle := hs (hsame ▸ hblocked₁)
      rcases hreturns _ _ _ _ _ _ _ hI hb with hzero | htake
      · simp only at hwoken' hzero ⊢
        omega
      · simp only at hwoken hwoken' hle htake ⊢
        omega
  | waits hacq hb =>
      have hzero := hwaits _ _ _ _ _ hI hb
      simp only at hzero ⊢
      omega
  | wakes g pre post woken w =>
      have hle := hs (by simp)
      simp only [List.length_cons] at hle ⊢
      omega

/-- No wake-up is lost when a section waits only with nothing to take, and one that
returns leaves nothing to take or no more than it may: it takes one thing if it comes
from a wait, and it adds at most the one that it notifies for. -/
theorem Reachable.noLostWakeup {avail : σ → Nat} {I : σ → Prop} (hinit : ∀ g, init g → I g)
    (hbody : ∀ resumed i a g e g', I g → M.body resumed i a g e g' → I g')
    (hreturns : ∀ resumed i a g r notifies g', I g → M.body resumed i a g (.returns r notifies) g' →
      avail g' = 0 ∨ avail g' + resumed.toNat ≤ avail g + notifies.toNat)
    (hwaits : ∀ resumed i a g g', I g → M.body resumed i a g .waits g' → avail g' = 0)
    {s : State ι α σ} (h : Reachable M init s) : NoLostWakeup avail s := by
  induction h with
  | start hg => exact fun hblocked => absurd rfl hblocked
  | step hreach hstep ih =>
      exact hstep.noLostWakeup hreturns hwaits (hreach.invariant hinit hbody) ih

end Monitor

end Lib
end TcMuzi
