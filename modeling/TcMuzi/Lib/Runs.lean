import TcMuzi.Lib.Program

/-!
# Runs of requests

A run takes one step after another, each labelled by an event and taken only where the
event's condition holds.  `Run.invariant` is the induction over runs.  `Completes` is the
step of a program that is executed to its end, and `sampleRun` makes a run of programs out
of an executable choice of replies.
-/

namespace TcMuzi
namespace Lib

variable {C : Type} {R : C → Type} {α σ ι : Type}

/-- The states reached from `init` by steps each of which meets `cond` where it starts. -/
inductive Run (step : ι → σ → σ → Prop) (init : σ → Prop) (cond : ι → σ → Prop) : σ → Prop
  | start {s : σ} (hinit : init s) : Run step init cond s
  | step {s s' : σ} {r : ι} (hrun : Run step init cond s) (hcond : cond r s)
      (hstep : step r s s') : Run step init cond s'

/-- What holds initially and is kept by every step that meets its condition holds in every
state of a run. -/
theorem Run.invariant {step : ι → σ → σ → Prop} {init : σ → Prop} {cond : ι → σ → Prop}
    {I : σ → Prop} (hinit : ∀ s, init s → I s)
    (hstep : ∀ r s s', I s → cond r s → step r s s' → I s') {s : σ}
    (h : Run step init cond s) : I s := by
  induction h with
  | start hs => exact hinit _ hs
  | step _ hcond hs ih => exact hstep _ _ _ ih hcond hs

/-- Executing the program of a request to its end. -/
def Completes (S : Sem C R σ) (prog : ι → Prog C R α) (r : ι) (s s' : σ) : Prop :=
  ∃ a, Exec S (prog r) s a s'

/-- Execute a list of requests on a machine that answers as `f` says, as long as every
request meets its condition. -/
def sampleRun (f : (c : C) → σ → Option (R c × σ)) (prog : ι → Prog C R α)
    (cond : ι → σ → Prop) [∀ r s, Decidable (cond r s)] : List ι → σ → Option σ
  | [], s => some s
  | r :: rs, s =>
      if cond r s then
        match run f (prog r) s with
        | none => none
        | some (_, s') => sampleRun f prog cond rs s'
      else
        none

theorem run_of_sampleRun {S : Sem C R σ} {f : (c : C) → σ → Option (R c × σ)}
    (hf : ∀ c s r s', f c s = some (r, s') → S.step c s r s') {prog : ι → Prog C R α}
    {init : σ → Prop} {cond : ι → σ → Prop} [∀ r s, Decidable (cond r s)] {rs : List ι}
    {s s' : σ} (hrun : Run (Completes S prog) init cond s) (h : sampleRun f prog cond rs s = some s') :
    Run (Completes S prog) init cond s' := by
  induction rs generalizing s with
  | nil =>
      obtain rfl : s = s' := by simpa [sampleRun] using h
      exact hrun
  | cons r rs ih =>
      rw [sampleRun] at h
      by_cases hcond : cond r s
      · rw [if_pos hcond] at h
        cases hstep : run f (prog r) s with
        | none => simp [hstep] at h
        | some reply =>
            rw [hstep] at h
            exact ih (.step hrun hcond ⟨_, exec_of_run hf hstep⟩) h
      · simp [hcond] at h

/-- The same with the reached state written out. -/
theorem run_sampleRun_getD {S : Sem C R σ} {f : (c : C) → σ → Option (R c × σ)}
    (hf : ∀ c s r s', f c s = some (r, s') → S.step c s r s') {prog : ι → Prog C R α}
    {init : σ → Prop} {cond : ι → σ → Prop} [∀ r s, Decidable (cond r s)] {rs : List ι}
    {s : σ} (hinit : init s) (h : (sampleRun f prog cond rs s).isSome) :
    Run (Completes S prog) init cond ((sampleRun f prog cond rs s).getD s) := by
  obtain ⟨s', hs'⟩ := Option.isSome_iff_exists.mp h
  rw [hs']
  exact run_of_sampleRun hf (.start hinit) hs'

end Lib
end TcMuzi
