import Mathlib.Data.Nat.Init
import Mathlib.Tactic.Common

/-!
# Readers that wait for more

A reader takes one step on the elements it has not used yet: it either uses some of them,
perhaps with an output, or waits until there are more.  `Steady` says that a step uses at
least one element and does not look at what comes behind.

* `settle` takes steps until the reader waits; `settle_append` lets the input come in two
  parts.
* `pull` stops at the first output: `settle_pull` says that the other ones are still to come.
-/

namespace TcMuzi
namespace Lib
namespace Reassembly

variable {σ α ω : Type}

/-- What is left when a reader waits, and its outputs. -/
structure Settled (σ α ω : Type) where
  state : σ
  rest : List α
  outs : List ω

/-- The step of a reader: `none` waits. -/
abbrev Step (σ α ω : Type) := σ → List α → Option (σ × List α × Option ω)

/-- A step uses something and does not look behind it. -/
structure Steady (step : Step σ α ω) : Prop where
  shrinks : ∀ {s s' : σ} {unread rest : List α} {out : Option ω},
    step s unread = some (s', rest, out) → rest.length < unread.length
  append : ∀ {s s' : σ} {unread rest : List α} {out : Option ω},
    step s unread = some (s', rest, out) → ∀ more,
      step s (unread ++ more) = some (s', rest ++ more, out)

namespace Settled

/-- Earlier outputs in front. -/
def after (outs : List ω) (r : Settled σ α ω) : Settled σ α ω := { r with outs := outs ++ r.outs }

@[simp] theorem after_nil (r : Settled σ α ω) : r.after [] = r := rfl

@[simp] theorem after_after (outs outs' : List ω) (r : Settled σ α ω) :
    (r.after outs').after outs = r.after (outs ++ outs') := by
  simp [after]

@[simp] theorem state_after (outs : List ω) (r : Settled σ α ω) : (r.after outs).state = r.state :=
  rfl

@[simp] theorem rest_after (outs : List ω) (r : Settled σ α ω) : (r.after outs).rest = r.rest :=
  rfl

@[simp] theorem outs_after (outs : List ω) (r : Settled σ α ω) :
    (r.after outs).outs = outs ++ r.outs := rfl

end Settled

/-- Steps as long as the reader does not wait, with a bound on their number. -/
def settleFor (step : Step σ α ω) : Nat → σ → List α → Settled σ α ω
  | 0, s, unread => ⟨s, unread, []⟩
  | n + 1, s, unread =>
      match step s unread with
      | none => ⟨s, unread, []⟩
      | some (s', rest, out) => (settleFor step n s' rest).after out.toList

/-- Steps as long as the reader does not wait. -/
def settle (step : Step σ α ω) (s : σ) (unread : List α) : Settled σ α ω :=
  settleFor step unread.length s unread

/-- Steps up to the first output, with a bound on their number. -/
def pullFor (step : Step σ α ω) : Nat → σ → List α → σ × List α × Option ω
  | 0, s, unread => (s, unread, none)
  | n + 1, s, unread =>
      match step s unread with
      | none => (s, unread, none)
      | some (s', rest, none) => pullFor step n s' rest
      | some (s', rest, some out) => (s', rest, some out)

/-- Steps up to the first output. -/
def pull (step : Step σ α ω) (s : σ) (unread : List α) : σ × List α × Option ω :=
  pullFor step unread.length s unread

theorem settle_wait {step : Step σ α ω} {s : σ} {unread : List α} (hstep : step s unread = none) :
    settle step s unread = ⟨s, unread, []⟩ := by
  cases hlen : unread.length with
  | zero => rw [settle, hlen, settleFor]
  | succ n => simp [settle, hlen, settleFor, hstep]

theorem pull_wait {step : Step σ α ω} {s : σ} {unread : List α} (hstep : step s unread = none) :
    pull step s unread = (s, unread, none) := by
  cases hlen : unread.length with
  | zero => rw [pull, hlen, pullFor]
  | succ n => simp [pull, hlen, pullFor, hstep]

section Steady

variable {step : Step σ α ω} (h : Steady step)

include h

theorem settleFor_eq {n m : Nat} {s : σ} {unread : List α} (hn : unread.length ≤ n)
    (hm : unread.length ≤ m) : settleFor step n s unread = settleFor step m s unread := by
  induction n generalizing m s unread with
  | zero =>
      obtain rfl := List.length_eq_zero_iff.mp (Nat.le_zero.mp hn)
      cases m with
      | zero => rfl
      | succ m =>
          cases hstep : step s [] with
          | none => simp [settleFor, hstep]
          | some r =>
              obtain ⟨s', rest, out⟩ := r
              exact absurd (h.shrinks hstep) (Nat.not_lt_zero _)
  | succ n ih =>
      cases hstep : step s unread with
      | none =>
          cases m with
          | zero => simp [settleFor, hstep]
          | succ m => simp [settleFor, hstep]
      | some r =>
          obtain ⟨s', rest, out⟩ := r
          have hlt := h.shrinks hstep
          obtain ⟨m, rfl⟩ : ∃ k, m = k + 1 := ⟨m - 1, by omega⟩
          simp only [settleFor, hstep]
          rw [@ih m s' rest (by omega) (by omega)]

theorem settle_step {s s' : σ} {unread rest : List α} {out : Option ω}
    (hstep : step s unread = some (s', rest, out)) :
    settle step s unread = (settle step s' rest).after out.toList := by
  have hlt := h.shrinks hstep
  obtain ⟨n, hn⟩ : ∃ n, unread.length = n + 1 := ⟨unread.length - 1, by omega⟩
  rw [settle, hn]
  simp only [settleFor, hstep]
  rw [settle, settleFor_eq h (by omega) (Nat.le_refl _)]

/-- Nothing is put back. -/
theorem length_rest_settle_le (s : σ) (unread : List α) :
    (settle step s unread).rest.length ≤ unread.length := by
  induction hn : unread.length using Nat.strongRecOn generalizing s unread with
  | ind n ih =>
      cases hstep : step s unread with
      | none =>
          rw [settle_wait hstep]
          exact Nat.le_of_eq hn
      | some r =>
          obtain ⟨s', rest, out⟩ := r
          have hlt := h.shrinks hstep
          have hrest := ih rest.length (by omega) s' rest rfl
          rw [settle_step h hstep, Settled.rest_after]
          omega

/-- Input that comes in two parts. -/
theorem settle_append (s : σ) (unread more : List α) :
    settle step s (unread ++ more) =
      (settle step (settle step s unread).state ((settle step s unread).rest ++ more)).after
        (settle step s unread).outs := by
  induction hn : unread.length using Nat.strongRecOn generalizing s unread with
  | ind n ih =>
      cases hstep : step s unread with
      | none => rw [settle_wait hstep, Settled.after_nil]
      | some r =>
          obtain ⟨s', rest, out⟩ := r
          have hlt := h.shrinks hstep
          rw [settle_step h (h.append hstep more), settle_step h hstep,
            ih rest.length (by omega) s' rest rfl]
          simp

theorem settle_pullFor {n : Nat} {s : σ} {unread : List α} (hn : unread.length ≤ n) :
    settle step s unread =
      (settle step (pullFor step n s unread).1 (pullFor step n s unread).2.1).after
        (pullFor step n s unread).2.2.toList ∧
    ((pullFor step n s unread).2.2 = none →
      step (pullFor step n s unread).1 (pullFor step n s unread).2.1 = none) := by
  induction n generalizing s unread with
  | zero =>
      obtain rfl := List.length_eq_zero_iff.mp (Nat.le_zero.mp hn)
      refine ⟨rfl, fun _ => ?_⟩
      cases hstep : step s [] with
      | none => exact hstep
      | some r =>
          obtain ⟨s', rest, out⟩ := r
          exact absurd (h.shrinks hstep) (Nat.not_lt_zero _)
  | succ n ih =>
      cases hstep : step s unread with
      | none =>
          simp only [pullFor, hstep]
          exact ⟨rfl, fun _ => trivial⟩
      | some r =>
          obtain ⟨s', rest, out⟩ := r
          have hlt := h.shrinks hstep
          rw [settle_step h hstep]
          cases out with
          | none =>
              simp only [pullFor, hstep]
              exact ih (by omega)
          | some out =>
              simp [pullFor, hstep]

theorem pullFor_eq {n m : Nat} {s : σ} {unread : List α} (hn : unread.length ≤ n)
    (hm : unread.length ≤ m) : pullFor step n s unread = pullFor step m s unread := by
  induction n generalizing m s unread with
  | zero =>
      obtain rfl := List.length_eq_zero_iff.mp (Nat.le_zero.mp hn)
      cases m with
      | zero => rfl
      | succ m =>
          cases hstep : step s [] with
          | none => simp [pullFor, hstep]
          | some r =>
              obtain ⟨s', rest, out⟩ := r
              exact absurd (h.shrinks hstep) (Nat.not_lt_zero _)
  | succ n ih =>
      cases hstep : step s unread with
      | none =>
          cases m with
          | zero => simp [pullFor, hstep]
          | succ m => simp [pullFor, hstep]
      | some r =>
          obtain ⟨s', rest, out⟩ := r
          have hlt := h.shrinks hstep
          obtain ⟨m, rfl⟩ : ∃ k, m = k + 1 := ⟨m - 1, by omega⟩
          cases out with
          | none =>
              simp only [pullFor, hstep]
              exact ih (by omega) (by omega)
          | some out => simp only [pullFor, hstep]

theorem pull_next {s s' : σ} {unread rest : List α}
    (hstep : step s unread = some (s', rest, none)) : pull step s unread = pull step s' rest := by
  have hlt := h.shrinks hstep
  obtain ⟨n, hn⟩ : ∃ n, unread.length = n + 1 := ⟨unread.length - 1, by omega⟩
  rw [pull, hn]
  simp only [pullFor, hstep]
  exact pullFor_eq h (by omega) (Nat.le_refl _)

theorem pull_out {s s' : σ} {unread rest : List α} {out : ω}
    (hstep : step s unread = some (s', rest, some out)) :
    pull step s unread = (s', rest, some out) := by
  have hlt := h.shrinks hstep
  obtain ⟨n, hn⟩ : ∃ n, unread.length = n + 1 := ⟨unread.length - 1, by omega⟩
  rw [pull, hn]
  simp only [pullFor, hstep]

/-- The first output and the rest of the outputs. -/
theorem settle_pull (s : σ) (unread : List α) :
    settle step s unread =
      (settle step (pull step s unread).1 (pull step s unread).2.1).after
        (pull step s unread).2.2.toList :=
  (settle_pullFor h (Nat.le_refl _)).1

theorem settle_of_pull_none {s s' : σ} {unread rest : List α}
    (hpull : pull step s unread = (s', rest, none)) :
    settle step s unread = ⟨s', rest, []⟩ ∧ step s' rest = none := by
  have hwait := (settle_pullFor h (Nat.le_refl unread.length) : _ ∧ (_ →
    step (pullFor step unread.length s unread).1 _ = none)).2
  rw [show pullFor step unread.length s unread = _ from hpull] at hwait
  refine ⟨?_, hwait rfl⟩
  rw [settle_pull h, hpull, settle_wait (hwait rfl)]
  rfl

end Steady

end Reassembly
end Lib
end TcMuzi
