import Mathlib.Data.List.Perm.Basic
import Mathlib.Order.Lattice
import TcMuzi.Pool.ConnPool

/-!
# The pools under any interleaving

`PoolInv` is the invariant of the data that the mutex protects, kept by every critical
section; `PoolSafe` is what it says about a reachable pool.  That no wake-up is lost
follows from the rule for monitors: `Get` waits only while the list is empty, and a
connection given back is notified for.
-/

namespace TcMuzi
namespace Pool

open Lib

/-! ## The parts of `Get` -/

/-- What a part of `Get` does to a pool that is not being destroyed. -/
inductive GetStep {κ : Type} (created : Option κ) (pool : ConnPool κ) :
    Outcome κ × ConnPool κ → Prop
  | null (hempty : pool.freeList = []) : GetStep created pool (.null, pool)
  | wait (hempty : pool.freeList = []) : GetStep created pool (.wait, pool)
  | front {c : κ} {rest : List κ} (hfree : pool.freeList = c :: rest) :
      GetStep created pool (.conn c, { pool with freeList := rest })
  | create {c : κ} (hempty : pool.freeList = []) (hc : c ∈ created)
      (hroom : (pool.curConnCnt : Int) < pool.maxConnCnt) :
      GetStep created pool
        (.conn c, { pool with freeList := [], curConnCnt := pool.curConnCnt + 1 })

section Parts

variable {κ : Type} {pool : ConnPool κ}

/-- After the wait's predicate held or the time was over. -/
theorem getStep_afterWait {timeoutMs : Int} (hrun : pool.abortRequest = false)
    (hready : pool.ready ∨ 0 < timeoutMs) (created : Option κ) :
    GetStep created pool (pool.afterWait timeoutMs) := by
  unfold ConnPool.afterWait
  cases hfree : pool.freeList with
  | nil =>
      have hnot : pool.ready = false := by simp [ConnPool.ready, hfree, hrun]
      have htimed : 0 < timeoutMs := by
        rcases hready with hready | htimed
        · rw [hnot] at hready
          cases hready
        · exact htimed
      rw [if_pos ⟨htimed, rfl⟩]
      exact .null hfree
  | cons c rest =>
      rw [if_neg (by simp), if_neg (by simp [hrun])]
      simp only [ConnPool.popFront, hfree]
      exact .front hfree

theorem getStep_waitReady (timeoutMs : Int) (timedOut : Bool) (hrun : pool.abortRequest = false)
    (created : Option κ) : GetStep created pool (pool.waitReady timeoutMs timedOut) := by
  unfold ConnPool.waitReady
  by_cases hready : pool.ready = true ∨ (0 < timeoutMs ∧ timedOut = true)
  · rw [if_pos hready]
    exact getStep_afterWait hrun (hready.imp_right And.left) created
  · rw [if_neg hready]
    have hnot := (not_or.mp hready).1
    refine .wait ?_
    simpa [ConnPool.ready, hrun] using hnot

theorem getStep_get (timeoutMs : Int) (hrun : pool.abortRequest = false) (created : Option κ) :
    GetStep created pool (pool.get timeoutMs created) := by
  unfold ConnPool.get
  rw [if_neg (by simp [hrun])]
  cases hfree : pool.freeList with
  | nil =>
      rw [if_pos List.isEmpty_nil]
      by_cases hfull : pool.maxConnCnt ≤ pool.curConnCnt
      · rw [if_pos hfull]
        exact getStep_waitReady timeoutMs false hrun created
      · rw [if_neg hfull]
        cases created with
        | none => exact .null hfree
        | some c => exact .create hfree rfl (by omega)
  | cons c rest =>
      rw [if_neg (by simp)]
      simp only [ConnPool.popFront, hfree]
      exact .front hfree

/-- `Init` that sets up every connection puts them into the list. -/
theorem init_map_some (created : List κ) (pool : ConnPool κ) :
    pool.init (created.map some) = some { pool with freeList := pool.freeList ++ created } := by
  induction created generalizing pool with
  | nil => simp [ConnPool.init]
  | cons c created ih =>
      rw [List.map_cons, ConnPool.init, ih]
      simp

end Parts

/-! ## The invariant -/

variable {ι κ : Type} {kind : PoolKind} {maxConnCnt : Int}

structure PoolInv (kind : PoolKind) (maxConnCnt : Int) (s : PoolState ι κ) : Prop where
  live : s.live.Nodup
  count : s.pool.freeList.length + s.held.length = s.pool.curConnCnt
  least : kind.minConnCnt ≤ s.pool.curConnCnt
  bound : (s.pool.curConnCnt : Int) ≤ max maxConnCnt kind.minConnCnt
  maxConnCnt_eq : s.pool.maxConnCnt = maxConnCnt
  running : s.pool.abortRequest = false
  noEmptyPop : s.poppedEmpty = false

theorem poolInv_initial {s : PoolState ι κ} (h : Initial kind maxConnCnt s) :
    PoolInv kind maxConnCnt s := by
  obtain ⟨created, hnodup, hlen, hinit, hheld, hpopped⟩ := h
  rw [init_map_some] at hinit
  have hpool := Option.some.inj hinit
  refine ⟨?_, ?_, ?_, ?_, ?_, ?_, hpopped⟩
  · simpa [PoolState.live, ← hpool, ConnPool.new, hheld] using hnodup
  · rw [← hpool, hheld]
    simpa [ConnPool.new] using hlen
  · rw [← hpool]
    exact le_rfl
  · rw [← hpool]
    exact le_max_right _ _
  · rw [← hpool]
    rfl
  · rw [← hpool]
    rfl

/-- A part of `Get` keeps the invariant. -/
theorem poolInv_settle {s : PoolState ι κ} {created : Option κ} {out : Outcome κ × ConnPool κ}
    (h : PoolInv kind maxConnCnt s) (hfresh : ∀ c ∈ created, c ∉ s.live)
    (hout : GetStep created s.pool out) (i : ι) : PoolInv kind maxConnCnt (s.settle i out).2 := by
  obtain ⟨hlive, hcount, hleast, hbound, hmax, hrun, hpop⟩ := h
  cases hout with
  | null hempty => exact ⟨hlive, hcount, hleast, hbound, hmax, hrun, hpop⟩
  | wait hempty => exact ⟨hlive, hcount, hleast, hbound, hmax, hrun, hpop⟩
  | @front c rest hfree =>
      refine ⟨?_, ?_, hleast, hbound, hmax, hrun, hpop⟩
      · -- the connection moves from the front of the list to the holders
        have hperm : (rest ++ c :: s.held.map Prod.snd).Perm s.live := by
          rw [PoolState.live, hfree]
          exact List.perm_middle
        exact (hperm.nodup_iff).mpr hlive
      · rw [hfree, List.length_cons] at hcount
        simp only [PoolState.settle, List.length_cons]
        omega
  | @create c hempty hc hroom =>
      refine ⟨?_, ?_, Nat.le_succ_of_le hleast, ?_, hmax, hrun, hpop⟩
      · have hnew := hfresh c hc
        rw [PoolState.live, hempty, List.nil_append] at hnew hlive
        exact List.nodup_cons.mpr ⟨hnew, hlive⟩
      · rw [hempty, List.length_nil] at hcount
        simp only [PoolState.settle, List.length_cons, List.length_nil]
        omega
      · have hmaxle := le_max_left maxConnCnt (kind.minConnCnt : Int)
        rw [hmax] at hroom
        simp only [PoolState.settle]
        omega

/-- A part of `Get` leaves an empty list or returns with a connection. -/
theorem freeList_settle {s : PoolState ι κ} {created : Option κ} {out : Outcome κ × ConnPool κ}
    (hout : GetStep created s.pool out) (i : ι) :
    (s.settle i out).2.pool.freeList = [] ∨
      (s.settle i out).2.pool.freeList.length + 1 = s.pool.freeList.length ∧
        (s.settle i out).1 ≠ .waits := by
  cases hout with
  | null hempty => exact Or.inl hempty
  | wait hempty => exact Or.inl hempty
  | front hfree => exact Or.inr ⟨by simp [PoolState.settle, hfree], by simp [PoolState.settle]⟩
  | create hempty hc hroom => exact Or.inl rfl

/-- No connection is twice in the list, in the list and held, or held twice; the two are
all connections, which are not too many; no empty list is popped. -/
structure PoolSafe (kind : PoolKind) (maxConnCnt : Int) (s : PoolState ι κ) : Prop where
  freeNodup : s.pool.freeList.Nodup
  freeNotHeld : ∀ i c, (i, c) ∈ s.held → c ∉ s.pool.freeList
  heldOnce : (s.held.map Prod.snd).Nodup
  oneHolder : ∀ i j c, (i, c) ∈ s.held → (j, c) ∈ s.held → i = j
  count : s.pool.freeList.length + s.held.length = s.pool.curConnCnt
  bound : (s.pool.curConnCnt : Int) ≤ max maxConnCnt kind.minConnCnt
  noEmptyPop : s.poppedEmpty = false

theorem PoolInv.poolSafe {s : PoolState ι κ} (h : PoolInv kind maxConnCnt s) :
    PoolSafe kind maxConnCnt s := by
  obtain ⟨hfree, hheld, hdisjoint⟩ := List.nodup_append.mp h.live
  refine ⟨hfree, ?_, hheld, ?_, h.count, h.bound, h.noEmptyPop⟩
  · intro i c hmem hc
    exact hdisjoint c hc c (List.mem_map.mpr ⟨(i, c), hmem, rfl⟩) rfl
  · intro i j c hi hj
    exact congrArg Prod.fst (List.inj_on_of_nodup_map hheld hi hj rfl)

variable [DecidableEq κ]

/-- A held connection is not in the list, so giving it back notifies. -/
theorem rel_of_held {s : PoolState ι κ} (hlive : s.live.Nodup) {i : ι} {c : κ}
    (hheld : (i, c) ∈ s.held) :
    s.pool.rel c = (true, { s.pool with freeList := s.pool.freeList ++ [c] }) := by
  have hmem : c ∈ s.held.map Prod.snd := List.mem_map.mpr ⟨(i, c), hheld, rfl⟩
  have hnot : c ∉ s.pool.freeList := fun hfree =>
    (List.nodup_append.mp hlive).2.2 c hfree c hmem rfl
  rw [ConnPool.rel, if_neg hnot]

variable [DecidableEq ι]

theorem poolInv_rel {s : PoolState ι κ} (h : PoolInv kind maxConnCnt s) {i : ι} {c : κ}
    (hheld : (i, c) ∈ s.held) :
    PoolInv kind maxConnCnt
      { s with pool := (s.pool.rel c).2, held := s.held.erase (i, c) } := by
  rw [rel_of_held h.live hheld]
  have hperm := List.perm_cons_erase hheld
  refine ⟨?_, ?_, h.least, h.bound, h.maxConnCnt_eq, h.running, h.noEmptyPop⟩
  · -- the connection moves from the holders to the end of the list
    have hlive : (s.pool.freeList ++ [c] ++ (s.held.erase (i, c)).map Prod.snd).Perm s.live := by
      rw [List.append_assoc]
      exact List.Perm.append_left _ (hperm.map Prod.snd).symm
    exact (hlive.nodup_iff).mpr h.live
  · have hlen := hperm.length_eq
    have hcount := h.count
    simp only [List.length_cons, List.length_append, List.length_nil] at hlen ⊢
    omega

/-- Every critical section keeps the invariant. -/
theorem poolInv_body {resumed : Bool} {i : ι} {a : Call κ} {s s' : PoolState ι κ}
    {e : Ending (Option κ)} (h : PoolInv kind maxConnCnt s)
    (hbody : (connMonitor ι κ).body resumed i a s e s') : PoolInv kind maxConnCnt s' := by
  cases hbody with
  | enter timeoutMs created hfresh =>
      exact poolInv_settle h hfresh (getStep_get timeoutMs h.running created) i
  | resume timeoutMs timedOut =>
      have hnone : ∀ c ∈ (none : Option κ), c ∉ s.live := by
        rintro c ⟨⟩
      exact poolInv_settle h hnone (getStep_waitReady timeoutMs timedOut h.running none) i
  | rel c hheld => exact poolInv_rel h hheld

theorem PoolReachable.poolInv {s : PoolThreads ι κ} (h : PoolReachable kind maxConnCnt s) :
    PoolInv kind maxConnCnt s.shared :=
  Monitor.Reachable.invariant (I := PoolInv kind maxConnCnt) (fun _ => poolInv_initial)
    (fun _ _ _ _ _ _ => poolInv_body) h

/-! ## Reachable pools -/

/-- What a section does to the number of free connections. -/
theorem avail_body {resumed : Bool} {i : ι} {a : Call κ} {s s' : PoolState ι κ}
    {e : Ending (Option κ)} (h : PoolInv kind maxConnCnt s)
    (hbody : (connMonitor ι κ).body resumed i a s e s') :
    s'.pool.freeList.length = 0 ∨
      (s'.pool.freeList.length + 1 = s.pool.freeList.length ∧ e ≠ .waits) ∨
      (resumed = false ∧ s'.pool.freeList.length = s.pool.freeList.length + 1 ∧
        e = .returns none true) := by
  cases hbody with
  | enter timeoutMs created hfresh =>
      rcases freeList_settle (s := s) (getStep_get timeoutMs h.running created) i with hempty | htaken
      · exact Or.inl (by rw [hempty]; rfl)
      · exact Or.inr (Or.inl htaken)
  | resume timeoutMs timedOut =>
      rcases freeList_settle (s := s)
        (getStep_waitReady timeoutMs timedOut h.running none) i with hempty | htaken
      · exact Or.inl (by rw [hempty]; rfl)
      · exact Or.inr (Or.inl htaken)
  | rel c hheld =>
      refine Or.inr (Or.inr ⟨rfl, ?_, ?_⟩)
      · rw [rel_of_held h.live hheld, List.length_append]
        rfl
      · rw [rel_of_held h.live hheld]

theorem PoolReachable.noLostWakeup {s : PoolThreads ι κ} (h : PoolReachable kind maxConnCnt s) :
    Monitor.NoLostWakeup (fun s => s.pool.freeList.length) s := by
  refine Monitor.Reachable.noLostWakeup (I := PoolInv kind maxConnCnt) (fun _ => poolInv_initial)
    (fun _ _ _ _ _ _ => poolInv_body) ?_ ?_ h
  · intro resumed i a g r notifies g' hI hbody
    rcases avail_body hI hbody with hempty | ⟨htaken, _⟩ | ⟨hfirst, hgiven, hends⟩
    · exact Or.inl hempty
    · refine Or.inr ?_
      have := Bool.toNat_le resumed
      omega
    · obtain ⟨rfl, rfl⟩ := Ending.returns.inj hends
      subst hfirst
      exact Or.inr (Nat.le_of_eq (by rw [hgiven]; rfl))
  · intro resumed i a g g' hI hbody
    rcases avail_body hI hbody with hempty | ⟨_, hends⟩ | ⟨_, _, hends⟩
    · exact hempty
    · exact absurd rfl hends
    · cases hends

/-- Every reachable state of either kind of pool is safe. -/
theorem poolReachable_poolSafe (kind : PoolKind) (maxConnCnt : Int) (s : PoolThreads ι κ)
    (h : PoolReachable kind maxConnCnt s) : PoolSafe kind maxConnCnt s.shared :=
  h.poolInv.poolSafe

/-- A thread holds the only connection. -/
def sampleFull : PoolState Nat Nat :=
  ⟨⟨[], 1, 1, false⟩, [(1, 0)], false⟩

/-- Nobody holds it. -/
def sampleFree : PoolState Nat Nat :=
  ⟨⟨[0], 1, 1, false⟩, [], false⟩

theorem body_sampleFree : Body false 1 (.get 0) sampleFree (.returns (some 0) false) sampleFull :=
  .enter 0 none (by simp)

theorem body_sampleFull (i : Nat) : Body false i (.get 0) sampleFull .waits sampleFull :=
  .enter 0 none (by simp)

/-- The connection came back while two threads wait: one of them was notified. -/
def sampleThreads : PoolThreads Nat Nat :=
  ⟨sampleFree, ⟨[(3, .get 0)], [(2, .get 0)]⟩⟩

theorem poolReachable_sampleThreads : PoolReachable .db 1 sampleThreads := by
  have hstart : PoolReachable .db 1 ⟨sampleFree, .empty⟩ :=
    .start ⟨[0], by decide, rfl, rfl, rfl, rfl⟩
  have hgot : PoolReachable .db 1 ⟨sampleFull, .empty⟩ :=
    .step hstart (.returns (.enters (by decide)) body_sampleFree rfl)
  have hsecond : PoolReachable .db 1 ⟨sampleFull, ⟨[(2, .get 0)], []⟩⟩ :=
    .step hgot (.waits (q := .empty) (.enters (by decide)) (body_sampleFull 2))
  have hthird : PoolReachable .db 1 ⟨sampleFull, ⟨[(3, .get 0), (2, .get 0)], []⟩⟩ :=
    .step hsecond (.waits (q := ⟨[(2, Call.get 0)], []⟩) (.enters (by decide)) (body_sampleFull 3))
  have hgives : Body false 1 (.rel 0) sampleFull (.returns none true) sampleFree :=
    .rel 0 (by decide)
  exact .step hthird (.returns (.enters (by decide)) hgives
    (WaitQueue.Notified.one [(3, Call.get 0)] [] [] (2, Call.get 0)))

theorem poolReachable_poolSafe_sampleThreads : PoolSafe .db 1 sampleThreads.shared :=
  poolReachable_poolSafe .db 1 sampleThreads poolReachable_sampleThreads

/-- While a thread is blocked, every free connection has a woken thread on its way: none
sits free with nobody about to take it. -/
theorem poolReachable_noLostWakeup (kind : PoolKind) (maxConnCnt : Int) (s : PoolThreads ι κ)
    (h : PoolReachable kind maxConnCnt s) (hblocked : s.queue.blocked ≠ []) :
    s.queue.threads.Nodup ∧ s.shared.pool.freeList.length ≤ s.queue.woken.length ∧
      (s.shared.pool.freeList ≠ [] → s.queue.woken ≠ []) := by
  have hle : s.shared.pool.freeList.length ≤ s.queue.woken.length := h.noLostWakeup hblocked
  refine ⟨Monitor.Reachable.threads_nodup h, hle, fun hfree => ?_⟩
  have hpos := List.length_pos_iff.mpr hfree
  exact List.length_pos_iff.mp (by omega)

theorem poolReachable_noLostWakeup_sampleThreads : sampleThreads.queue.woken ≠ [] :=
  (poolReachable_noLostWakeup .db 1 sampleThreads poolReachable_sampleThreads (by decide)).2.2
    (by decide)

end Pool
end TcMuzi
