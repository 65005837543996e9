import TcMuzi.Api.Common
import TcMuzi.Lib.FloorCounter
import TcMuzi.Redis.Sequential
import TcMuzi.Server.Interleaved

/-!
# Concurrent counting in Redis

Any number of `CacheIncrCount` and `CacheDecrCount` calls on one key interleave their
commands.  A decrement that takes the number below zero writes a zero with a second command,
and what has been added in between is overwritten.
-/

namespace TcMuzi
namespace Files

open Base Server Redis Api Lib

/-- The call of a thread. -/
def tallyProg (key : CString) : CountOp → Handler Int
  | .incr => cacheIncrCount .conn key
  | .decr => cacheDecrCount .conn key

/-- How far a call has come. -/
inductive TallyPhase
  | ready
  | added
  -- the answer was negative, and the zero has not been written
  | below
  | taken
deriving DecidableEq

def tallyStep : (c : Server.Command) → TallyPhase → c.Reply → TallyPhase → Prop
  | .redis (.incr _), _, _, q' => q' = .added
  | .redis (.decr _), _, r, q' =>
      ∃ n, r = .reply (.integer n) ∧ q' = if n < 0 then .below else .taken
  | .redis (.set _ _), _, r, q' => r = .reply statusOk ∧ q' = .taken
  | _, _, _, _ => False

def tallyMay (key : CString) (op : CountOp) : TallyPhase → Server.Command → Prop
  | .ready, .redis (.incr k) => op = .incr ∧ k = key
  | .ready, .redis (.decr k) => op = .decr ∧ k = key
  | .below, .redis (.set k value) => k = key ∧ value = CString.ofInt 0
  | _, _ => False

def tallyPhases (key : CString) (op : CountOp) : Sem Server.Command Command.Reply TallyPhase where
  step := tallyStep
  safe := tallyMay key op

/-- The last phase of a call. -/
def tallyEnd : CountOp → TallyPhase
  | .incr => .added
  | .decr => .taken

theorem wp_tallyProg (key : CString) (op : CountOp) :
    wp (tallyPhases key op) (tallyProg key op) (fun _ q => q = tallyEnd op) .ready := by
  cases op with
  | incr =>
      refine ⟨⟨rfl, rfl⟩, ?_⟩
      rintro result _ rfl
      cases result with
      | initFailed => rfl
      | noReply => rfl
      | reply r => rfl
  | decr =>
      refine ⟨⟨rfl, rfl⟩, ?_⟩
      rintro _ _ ⟨n, rfl, rfl⟩
      show wp _ (if n < 0 then _ else _) _ _
      by_cases hneg : n < 0
      · rw [if_pos hneg, if_pos hneg]
        refine ⟨⟨rfl, rfl⟩, ?_⟩
        rintro _ _ ⟨rfl, rfl⟩
        rfl
      · rw [if_neg hneg, if_neg hneg]
        rfl

section Race

variable {ι : Type} [Fintype ι] [DecidableEq ι] {key : CString} {op : ι → CountOp} {n : Int}

/-- How many calls have taken one away. -/
def takenBy (q : ι → TallyPhase) : Nat := threadsIn q .below + threadsIn q .taken

/-- Nothing that was added is lost, nothing is taken twice, and who left a negative number
will write the zero. -/
def Tallies (key : CString) (n : Int) (w : World) (q : ι → TallyPhase) : Prop :=
  ∃ c, counterOf w.redis key = .ok c ∧
    n + threadsIn q .added - takenBy q ≤ c ∧
    c ≤ max 0 (n - takenBy q) + threadsIn q .added ∧
    (c < 0 → 0 < threadsIn q .below)

/-- A zero is written only where it takes nothing away. -/
def FloorsOnly (key : CString) : Server.Command → World → Prop
  | .redis (.set _ _), w => ∀ c, counterOf w.redis key = .ok c → c ≤ 0
  | _, _ => True

theorem Tallies.incr {w : World} {q : ι → TallyPhase} {i : ι} {ks : Keyspace} {c : Int}
    (h : Tallies key n w q) (hq : q i = .ready) (hold : counterOf w.redis key = .ok c)
    (hnew : counterOf ks key = .ok (c + 1)) :
    Tallies key n { w with redis := ks } (Function.update q i .added) := by
  obtain ⟨c', hcount, hlo, hhi, hneg⟩ := h
  obtain rfl : c = c' := Except.ok.inj (hold.symm.trans hcount)
  have hadded := threadsIn_update q i .added .added
  have hbelow := threadsIn_update q i .added .below
  have htaken := threadsIn_update q i .added .taken
  simp only [hq, reduceCtorEq, if_false, if_true, Nat.add_zero] at hadded hbelow htaken
  rw [takenBy] at hlo hhi
  refine ⟨c + 1, hnew, ?_, ?_, fun hlt => ?_⟩
  · rw [takenBy]
    omega
  · rw [takenBy]
    omega
  · have := hneg (by omega)
    omega

theorem Tallies.decr {w : World} {q : ι → TallyPhase} {i : ι} {ks : Keyspace} {c : Int}
    (h : Tallies key n w q) (hq : q i = .ready) (hold : counterOf w.redis key = .ok c)
    (hnew : counterOf ks key = .ok (c - 1)) :
    Tallies key n { w with redis := ks }
      (Function.update q i (if c - 1 < 0 then .below else .taken)) := by
  obtain ⟨c', hcount, hlo, hhi, hneg⟩ := h
  obtain rfl : c = c' := Except.ok.inj (hold.symm.trans hcount)
  obtain ⟨p, hp⟩ : ∃ p : TallyPhase, p = if c - 1 < 0 then .below else .taken := ⟨_, rfl⟩
  have hadded := threadsIn_update q i p .added
  have hbelow := threadsIn_update q i p .below
  have htaken := threadsIn_update q i p .taken
  rw [← hp]
  rw [takenBy] at hlo hhi
  by_cases hlt : c - 1 < 0
  · rw [if_pos hlt] at hp
    subst hp
    simp only [hq, reduceCtorEq, if_false, if_true, Nat.add_zero] at hadded hbelow htaken
    refine ⟨c - 1, hnew, ?_, ?_, fun _ => by omega⟩
    · rw [takenBy]
      omega
    · rw [takenBy]
      omega
  · rw [if_neg hlt] at hp
    subst hp
    simp only [hq, reduceCtorEq, if_false, if_true, Nat.add_zero] at hadded hbelow htaken
    refine ⟨c - 1, hnew, ?_, ?_, fun hneg => absurd hneg hlt⟩
    · rw [takenBy]
      omega
    · rw [takenBy]
      omega

/-- The zero replaces a number that is not above it. -/
theorem Tallies.floor {w : World} {q : ι → TallyPhase} {i : ι} {ks : Keyspace}
    (h : Tallies key n w q) (hq : q i = .below)
    (hfloor : ∀ c, counterOf w.redis key = .ok c → c ≤ 0) (hnew : counterOf ks key = .ok 0) :
    Tallies key n { w with redis := ks } (Function.update q i .taken) := by
  obtain ⟨c, hcount, hlo, hhi, hneg⟩ := h
  have hle := hfloor c hcount
  have hadded := threadsIn_update q i .taken .added
  have hbelow := threadsIn_update q i .taken .below
  have htaken := threadsIn_update q i .taken .taken
  simp only [hq, reduceCtorEq, if_false, if_true, Nat.add_zero] at hadded hbelow htaken
  rw [takenBy] at hlo hhi
  refine ⟨0, hnew, ?_, ?_, fun hlt => absurd hlt (by decide)⟩
  · rw [takenBy]
    omega
  · rw [takenBy]
    omega

/-- One command of one call. -/
theorem tallies_step (i : ι) (c : Server.Command) (w : World) (r : c.Reply) (w' : World)
    (q : ι → TallyPhase) (h : Tallies key n w q) (hmay : tallyMay key (op i) (q i) c)
    (hcond : FloorsOnly key c w) (hstep : okStep c w r w') :
    ∃ q', tallyStep c (q i) r q' ∧ Tallies key n w' (Function.update q i q') := by
  cases c with
  | redis c =>
      obtain ⟨hok, rfl, rfl⟩ := hstep
      cases hq : q i with
      | ready =>
          rw [hq] at hmay
          cases c with
          | incr k =>
              obtain ⟨_, rfl⟩ := hmay
              obtain ⟨c, hold, _, hnew, _⟩ := addTo_cases hok
              exact ⟨.added, rfl, h.incr hq hold hnew⟩
          | decr k =>
              obtain ⟨_, rfl⟩ := hmay
              obtain ⟨c, hold, hreply, hnew, _⟩ := addTo_cases hok
              exact ⟨_, ⟨c - 1, congrArg RedisResult.reply hreply, rfl⟩, h.decr hq hold hnew⟩
          | _ => exact absurd hmay id
      | below =>
          rw [hq] at hmay
          cases c with
          | set k value =>
              obtain ⟨rfl, rfl⟩ := hmay
              refine ⟨.taken, ⟨rfl, rfl⟩, h.floor hq hcond ?_⟩
              exact counterOf_ofInt (by simp [Redis.Command.exec, valueAt]) (by decide) (by decide)
          | _ => exact absurd hmay id
      | added =>
          rw [hq] at hmay
          exact absurd hmay id
      | taken =>
          rw [hq] at hmay
          exact absurd hmay id
  | _ => cases hq : q i <;> rw [hq] at hmay <;> exact absurd hmay id

omit [DecidableEq ι] in
theorem threadsIn_of_end {q : ι → TallyPhase} (h : ∀ i, q i = tallyEnd (op i)) :
    threadsIn q .added = CountOp.total op .incr ∧ takenBy q = CountOp.total op .decr ∧
      threadsIn q .below = 0 := by
  have hadded : ∀ i, q i = .added ↔ op i = .incr := fun i => by
    rw [h i]
    cases op i <;> simp [tallyEnd]
  have htaken : ∀ i, q i = .taken ↔ op i = .decr := fun i => by
    rw [h i]
    cases op i <;> simp [tallyEnd]
  have hbelow : threadsIn q .below = 0 := by
    refine threadsIn_eq_zero fun i => ?_
    rw [h i]
    cases op i <;> simp [tallyEnd]
  refine ⟨?_, ?_, hbelow⟩
  · rw [threadsIn, CountOp.total]
    simp only [hadded]
  · rw [takenBy, hbelow, Nat.zero_add, threadsIn, CountOp.total]
    simp only [htaken]

/-- The calls in any interleaving, one command after another. -/
def TallyReachable (key : CString) (op : ι → CountOp) (cond : Server.Command → World → Prop)
    (w : World) : OkConfig ι Int → Prop :=
  Reachable (okSystem fun _ => cond) ⟨w, fun i => tallyProg key (op i)⟩

/-- The number left in the end is what the calls leave in some order, if no zero overwrites a
number above it. -/
theorem tallyReachable_sequential (key : CString) (op : ι → CountOp) (w : World) (n : Int)
    (hn : 0 ≤ n) (hcount : counterOf w.redis key = .ok n) (cfg : OkConfig ι Int)
    (hreach : TallyReachable key op (FloorsOnly key) w cfg) (hdone : ∀ i, cfg.Completed i) :
    ∃ order : List ι, order.Nodup ∧ (∀ i, i ∈ order) ∧
      counterOf cfg.shared.redis key = .ok (CountOp.outcome op order n) := by
  have hstart : Simulates (fun i => tallyPhases key (op i)) (Tallies key n)
      (fun i (_ : Int) q => q = tallyEnd (op i)) ⟨w, fun i => tallyProg key (op i)⟩
      (fun _ => .ready) := by
    refine ⟨⟨n, hcount, ?_, ?_, fun hneg => absurd hn (by omega)⟩, fun i => wp_tallyProg key (op i)⟩
    · have hadded : threadsIn (fun _ : ι => TallyPhase.ready) .added = 0 :=
        threadsIn_eq_zero fun _ => by decide
      omega
    · have hbelow : threadsIn (fun _ : ι => TallyPhase.ready) .below = 0 :=
        threadsIn_eq_zero fun _ => by decide
      have htaken : threadsIn (fun _ : ι => TallyPhase.ready) .taken = 0 :=
        threadsIn_eq_zero fun _ => by decide
      rw [takenBy, hbelow, htaken]
      omega
  obtain ⟨q, hinv, hposts⟩ := okReachable_simulates
    (fun i c w r w' q hq hmay hcond hs => tallies_step i c w r w' q hq hmay hcond hs) hstart hreach
  have hend : ∀ i, q i = tallyEnd (op i) := by
    intro i
    obtain ⟨a, hret⟩ := hdone i
    exact Simulates.post_of_ret ⟨hinv, hposts⟩ hret
  obtain ⟨hadded, htaken, hbelow⟩ := threadsIn_of_end hend
  obtain ⟨c, hc, hlo, hhi, hneg⟩ := hinv
  rw [hadded, htaken] at hlo hhi
  have hpos : 0 ≤ c := by
    by_contra hlt
    have := hneg (by omega)
    omega
  obtain ⟨order, hnodup, hall, houtcome⟩ := CountOp.exists_order op hn hpos hlo hhi
  exact ⟨order, hnodup, hall, houtcome ▸ hc⟩

end Race

instance (key : CString) (c : Server.Command) (w : World) : Decidable (FloorsOnly key c w) := by
  unfold FloorsOnly
  split
  · cases h : counterOf w.redis key with
    | ok n => exact decidable_of_iff (n ≤ 0) (by simp)
    | error e => exact isTrue (by simp)
  · exact isTrue trivial

/-! ## One decrement and two increments of a zero -/

def sampleOps : Fin 3 → CountOp
  | 0 => .decr
  | _ => .incr

def tallyWorld : World :=
  ⟨Mysql.Tables.empty, none, store ∅ filePublicCount (.str (CString.ofInt 0))⟩

theorem counterOf_tallyWorld : counterOf tallyWorld.redis filePublicCount = .ok 0 :=
  counterOf_ofInt (valueAt_store ..) (by decide) (by decide)

def tallyStart : OkConfig (Fin 3) Int :=
  ⟨tallyWorld, fun i => tallyProg filePublicCount (sampleOps i)⟩

/-- The run that executes the threads in this order. -/
def tallyRun (cond : Server.Command → World → Prop) [∀ c w, Decidable (cond c w)]
    (order : List (Fin 3)) : Option (OkConfig (Fin 3) Int) :=
  schedule (okReplyWhen fun _ => cond) order tallyStart

/-- The number left, when all calls have returned. -/
def tallyLeft (cfg : OkConfig (Fin 3) Int) : Option Int :=
  if ∀ i, isRet (cfg.prog i) = true then (counterOf cfg.shared.redis filePublicCount).toOption
  else none

theorem tallyReachable_of_run {cond : Server.Command → World → Prop} [∀ c w, Decidable (cond c w)]
    {order : List (Fin 3)} {n : Int} (h : (tallyRun cond order).bind tallyLeft = some n) :
    ∃ cfg, TallyReachable filePublicCount sampleOps cond tallyWorld cfg ∧
      (∀ i, cfg.Completed i) ∧ counterOf cfg.shared.redis filePublicCount = .ok n := by
  obtain ⟨cfg, hcfg, hleft⟩ := Option.bind_eq_some_iff.mp h
  unfold tallyLeft at hleft
  split at hleft
  · rename_i hdone
    refine ⟨cfg, reachable_of_schedule (step_of_okReplyWhen fun _ => cond) .refl hcfg,
      fun i => completed_of_isRet (hdone i), ?_⟩
    cases hcount : counterOf cfg.shared.redis filePublicCount with
    | ok m =>
        rw [hcount] at hleft
        exact congrArg Except.ok (Option.some.inj hleft)
    | error e =>
        rw [hcount] at hleft
        cases hleft
  · cases hleft

/-- One increment before the zero and one behind it. -/
theorem tallyReachable_sequential_sample :
    ∃ cfg, TallyReachable filePublicCount sampleOps (FloorsOnly filePublicCount) tallyWorld cfg ∧
      counterOf cfg.shared.redis filePublicCount = .ok 1 ∧
      ∃ order : List (Fin 3), order.Nodup ∧ (∀ i, i ∈ order) ∧
        counterOf cfg.shared.redis filePublicCount =
          .ok (CountOp.outcome sampleOps order 0) := by
  obtain ⟨cfg, hreach, hdone, hleft⟩ := tallyReachable_of_run
    (show (tallyRun (FloorsOnly filePublicCount) [0, 1, 0, 2]).bind tallyLeft = some 1 by decide)
  exact ⟨cfg, hreach, hleft, tallyReachable_sequential filePublicCount sampleOps tallyWorld 0
    (by decide) counterOf_tallyWorld cfg hreach hdone⟩

/-- The zero overwrites both increments, and every order of the calls leaves more. -/
theorem not_tallyReachable_sequential :
    ¬ ∀ cfg, TallyReachable filePublicCount sampleOps (fun _ _ => True) tallyWorld cfg →
      (∀ i, cfg.Completed i) →
      ∃ order : List (Fin 3), order.Nodup ∧ (∀ i, i ∈ order) ∧
        counterOf cfg.shared.redis filePublicCount =
          .ok (CountOp.outcome sampleOps order 0) := by
  intro hclaim
  obtain ⟨cfg, hreach, hdone, hleft⟩ := tallyReachable_of_run
    (show (tallyRun (fun _ _ => True) [0, 1, 2, 0]).bind tallyLeft = some 0 by decide)
  obtain ⟨order, hnodup, hall, horder⟩ := hclaim cfg hreach hdone
  have hperm : order.Perm [0, 1, 2] :=
    (List.perm_ext_iff_of_nodup hnodup (by decide)).mpr fun i => by
      simp only [hall i, true_iff]
      revert i
      decide
  have hle := CountOp.le_outcome sampleOps order 0
  have hincr : order.countP (sampleOps · = .incr) = 2 := hperm.countP_eq _
  have hdecr : order.countP (sampleOps · = .decr) = 1 := hperm.countP_eq _
  have hzero : (0 : Int) = CountOp.outcome sampleOps order 0 :=
    Except.ok.inj (hleft.symm.trans horder)
  rw [hincr, hdecr] at hle
  omega

end Files
end TcMuzi
