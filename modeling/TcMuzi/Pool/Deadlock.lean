import TcMuzi.Lib.Interleaving
import TcMuzi.Pool.Nesting
import TcMuzi.Pool.PoolSafe

/-!
# Concurrent requests and their connections

Any number of requests run against the three pools.  A request that has to wait in `Get`
stays in the queue of that pool until it is woken and answered.  `Matches` relates the
pools to what the automaton of each request says it holds; from the nesting of the
requests no set of them can wait for each other.
-/

namespace TcMuzi
namespace Pool

open Base Server Redis Api Lib

/-! ## The system -/

/-- The pools of the configuration. -/
inductive PoolId
  | db (pool : DBInstance)
  | cache
deriving DecidableEq

def PoolId.kind : PoolId → PoolKind
  | .db _ => .db
  | .cache => .cache

/-- The pools, and which requests have an open transaction. -/
structure Shared (ι κ : Type) where
  pools : PoolId → PoolThreads ι κ
  txn : ι → Bool

variable {ι κ : Type} [DecidableEq ι] [DecidableEq κ]

/-- One step of one pool. -/
def PoolStep (p : PoolId) (label : Monitor.Label ι (Call κ) (Option κ)) (g g' : Shared ι κ) : Prop :=
  ∃ t, Monitor.Step (connMonitor ι κ) (g.pools p) label t ∧
    g' = { g with pools := Function.update g.pools p t }

/-- The pointer that `Get` returns. -/
def ptrOf : Option κ → Ptr
  | none => .null
  | some _ => .conn

/-- A command that is answered. -/
def answer (i : ι) : (c : Server.Command) → Shared ι κ → c.Reply → Shared ι κ → Prop
  | .getDBConn pool, g, ptr, g' =>
      ∃ got, ptr = ptrOf got ∧ PoolStep (.db pool) (some (i, .get 0, some got)) g g'
  | .getCacheConn, g, ptr, g' =>
      ∃ got, ptr = ptrOf got ∧ PoolStep .cache (some (i, .get 0, some got)) g g'
  | .relDBConn pool, g, _, g' => ∃ c, PoolStep (.db pool) (some (i, .rel c, some none)) g g'
  | .relCacheConn, g, _, g' => ∃ c, PoolStep .cache (some (i, .rel c, some none)) g g'
  | c, g, r, g' => g' = { g with txn := Function.update g.txn i (openAfter c r (g.txn i)) }

/-- A command that has to wait, once more if it was woken. -/
def await (i : ι) : Server.Command → Shared ι κ → Shared ι κ → Prop
  | .getDBConn pool, g, g' => PoolStep (.db pool) (some (i, .get 0, none)) g g'
  | .getCacheConn, g, g' => PoolStep .cache (some (i, .get 0, none)) g g'
  | _, _, _ => False

/-- A request that failed keeps what it holds. -/
def server (ι κ : Type) [DecidableEq ι] [DecidableEq κ] :
    System ι Server.Command Command.Reply (Shared ι κ) where
  step := answer
  pause := await
  fault g g' := g' = g
  env g g' := ∃ p, PoolStep p none g g'

abbrev ServerConfig (ι κ : Type) := Config ι Server.Command Command.Reply Response (Shared ι κ)

/-- New pools with the configured limits, and requests that did nothing yet. -/
structure Starts (maxConnCnt : PoolId → Int) (requests : ι → Request) (cfg : ServerConfig ι κ) :
    Prop where
  pools : ∀ p, Initial p.kind (maxConnCnt p) (cfg.shared.pools p).shared
  queues : ∀ p, (cfg.shared.pools p).queue = .empty
  txn : ∀ i, cfg.shared.txn i = false
  prog : ∀ i, cfg.prog i = (requests i).prog

/-- The states of the server under any interleaving. -/
def ServerReachable (maxConnCnt : PoolId → Int) (cfg : ServerConfig ι κ) : Prop :=
  ∃ requests init, Starts maxConnCnt requests init ∧ Reachable (server ι κ) init cfg

/-! ## Waiting and holding -/

/-- The request is inside a wait of the pool's `Get`. -/
def WaitsFor (cfg : ServerConfig ι κ) (i : ι) (p : PoolId) : Prop :=
  i ∈ (cfg.shared.pools p).queue.threads

def Holding (g : Shared ι κ) (i : ι) (p : PoolId) : Prop :=
  ∃ c, (i, c) ∈ (g.pools p).shared.held

/-- All connections of the pool are held by requests of the set. -/
def AllHeldBy (cfg : ServerConfig ι κ) (p : PoolId) (S : Set ι) : Prop :=
  (cfg.shared.pools p).shared.pool.freeList = [] ∧
    ∀ i c, (i, c) ∈ (cfg.shared.pools p).shared.held → i ∈ S

/-- Requests that wait for each other. -/
def Deadlocked (cfg : ServerConfig ι κ) (S : Set ι) : Prop :=
  S.Nonempty ∧ ∀ i ∈ S, ∃ p, WaitsFor cfg i p ∧ AllHeldBy cfg p S

/-! ## Who holds what after a step of a pool -/

/-- How many connections of the pool a request holds. -/
def heldCount (t : PoolThreads ι κ) (i : ι) : Nat :=
  t.shared.held.countP fun entry => entry.1 = i

section PoolSteps

variable {t t' : PoolThreads ι κ} {i : ι} {timeoutMs : Int}

theorem body_get {resumed : Bool} {g g' : PoolState ι κ} {e : Ending (Option κ)}
    (h : Body resumed i (.get timeoutMs) g e g') :
    ∃ out, e = (g.settle i out).1 ∧ g' = (g.settle i out).2 := by
  cases h with
  | enter timeoutMs created hfresh => exact ⟨_, rfl, rfl⟩
  | resume timeoutMs timedOut => exact ⟨_, rfl, rfl⟩

theorem held_of_got {got : Option κ}
    (h : Monitor.Step (connMonitor ι κ) t (some (i, .get timeoutMs, some got)) t') :
    t'.shared.held = got.elim t.shared.held fun c => (i, c) :: t.shared.held := by
  cases h with
  | returns hacq hbody hsignal =>
      obtain ⟨⟨outcome, pool⟩, he, rfl⟩ := body_get hbody
      cases outcome with
      | null => cases he; rfl
      | conn c => cases he; rfl
      | wait => cases he
      | emptyPop => cases he; rfl

theorem heldCount_of_got {got : Option κ}
    (h : Monitor.Step (connMonitor ι κ) t (some (i, .get timeoutMs, some got)) t') (j : ι) :
    heldCount t' j = if j = i then heldCount t i + got.isSome.toNat else heldCount t j := by
  rw [heldCount, held_of_got h]
  cases got with
  | none =>
      by_cases hj : j = i
      · rw [if_pos hj, hj]
        rfl
      · rw [if_neg hj]
        rfl
  | some c =>
      show List.countP _ ((i, c) :: t.shared.held) = _
      rw [List.countP_cons]
      by_cases hj : j = i
      · subst hj
        simp [heldCount]
      · simp [heldCount, hj, Ne.symm hj]

theorem held_of_waits
    (h : Monitor.Step (connMonitor ι κ) t (some (i, .get timeoutMs, none)) t') :
    t'.shared.held = t.shared.held := by
  cases h with
  | waits hacq hbody =>
      obtain ⟨⟨outcome, pool⟩, he, rfl⟩ := body_get hbody
      cases outcome with
      | null => cases he
      | conn c => cases he
      | wait => rfl
      | emptyPop => cases he

theorem held_of_rel {c : κ} {r : Option κ}
    (h : Monitor.Step (connMonitor ι κ) t (some (i, .rel c, some r)) t') :
    (i, c) ∈ t.shared.held ∧ t'.shared.held = t.shared.held.erase (i, c) := by
  cases h with
  | returns hacq hbody hsignal =>
      cases hbody with
      | rel c hmem => exact ⟨hmem, rfl⟩

theorem heldCount_of_rel {c : κ} {r : Option κ}
    (h : Monitor.Step (connMonitor ι κ) t (some (i, .rel c, some r)) t') (j : ι) :
    heldCount t j = if j = i then heldCount t' i + 1 else heldCount t' j := by
  obtain ⟨hmem, hheld⟩ := held_of_rel h
  rw [heldCount, heldCount, heldCount, hheld, (List.perm_cons_erase hmem).countP_eq,
    List.countP_cons]
  by_cases hj : j = i
  · subst hj
    simp
  · simp [hj, Ne.symm hj]

theorem shared_of_wakes (h : Monitor.Step (connMonitor ι κ) t none t') : t'.shared = t.shared := by
  cases h with
  | wakes g pre post woken w => rfl

end PoolSteps

/-! ## The pools match what the requests hold -/

/-- How many connections of the pool the automaton says a request holds. -/
def Held.count (h : Held) : PoolId → Nat
  | .db pool => if h.db = some pool then 1 else 0
  | .cache => h.cache.toNat

structure Matches (maxConnCnt : PoolId → Int) (g : Shared ι κ) (q : ι → Held) : Prop where
  pools : ∀ p, PoolReachable p.kind (maxConnCnt p) (g.pools p)
  count : ∀ i p, heldCount (g.pools p) i = (q i).count p
  txn : ∀ i, g.txn i = (q i).txn

section Matching

variable {maxConnCnt : PoolId → Int} {g g' : Shared ι κ} {q : ι → Held} {i : ι} {p : PoolId}

theorem PoolStep.self {label : Monitor.Label ι (Call κ) (Option κ)} (h : PoolStep p label g g') :
    Monitor.Step (connMonitor ι κ) (g.pools p) label (g'.pools p) := by
  obtain ⟨t, hstep, rfl⟩ := h
  simpa using hstep

/-- The other pools stay as they are. -/
theorem PoolStep.other {label : Monitor.Label ι (Call κ) (Option κ)} (h : PoolStep p label g g')
    {p' : PoolId} (hp : p' ≠ p) : g'.pools p' = g.pools p' := by
  obtain ⟨t, _, rfl⟩ := h
  exact Function.update_of_ne hp ..

theorem PoolStep.txn {label : Monitor.Label ι (Call κ) (Option κ)} (h : PoolStep p label g g') :
    g'.txn = g.txn := by
  obtain ⟨t, _, rfl⟩ := h
  rfl

theorem PoolStep.reachable {label : Monitor.Label ι (Call κ) (Option κ)}
    (h : PoolStep p label g g') (hm : Matches maxConnCnt g q) (p' : PoolId) :
    PoolReachable p'.kind (maxConnCnt p') (g'.pools p') := by
  by_cases hp : p' = p
  · subst hp
    exact .step (hm.pools p') h.self
  · rw [h.other hp]
    exact hm.pools p'

/-- A step of a pool by a request and what its automaton makes of it. -/
theorem Matches.poolStep {label : Monitor.Label ι (Call κ) (Option κ)}
    (hm : Matches maxConnCnt g q) (h : PoolStep p label g g') {held : Held}
    (hcount : ∀ j, heldCount (g'.pools p) j = if j = i then held.count p else heldCount (g.pools p) j)
    (hother : ∀ p', p' ≠ p → held.count p' = (q i).count p') (htxn : held.txn = (q i).txn) :
    Matches maxConnCnt g' (Function.update q i held) := by
  refine ⟨h.reachable hm, fun j p' => ?_, fun j => ?_⟩
  · by_cases hp : p' = p
    · subst hp
      rw [hcount]
      by_cases hj : j = i
      · subst hj
        simp
      · rw [if_neg hj, Function.update_of_ne hj, hm.count]
    · rw [h.other hp]
      by_cases hj : j = i
      · subst hj
        rw [Function.update_self, hother p' hp, hm.count]
      · rw [Function.update_of_ne hj, hm.count]
  · rw [h.txn]
    by_cases hj : j = i
    · subst hj
      rw [Function.update_self, htxn, hm.txn]
    · rw [Function.update_of_ne hj, hm.txn]

/-- A step in which nobody gets or gives back a connection. -/
theorem Matches.sameHeld {label : Monitor.Label ι (Call κ) (Option κ)}
    (hm : Matches maxConnCnt g q) (h : PoolStep p label g g')
    (hheld : (g'.pools p).shared.held = (g.pools p).shared.held) : Matches maxConnCnt g' q := by
  refine ⟨h.reachable hm, fun j p' => ?_, fun j => ?_⟩
  · rw [← hm.count]
    by_cases hp : p' = p
    · subst hp
      rw [heldCount, hheld, heldCount]
    · rw [h.other hp]
  · rw [h.txn, hm.txn]

/-- `Get` answers a request that holds no connection of the pool. -/
theorem Matches.gets {got : Option κ} {timeoutMs : Int} (hm : Matches maxConnCnt g q)
    (h : PoolStep p (some (i, .get timeoutMs, some got)) g g') {held : Held}
    (hcount : held.count p = (q i).count p + got.isSome.toNat)
    (hother : ∀ p', p' ≠ p → held.count p' = (q i).count p') (htxn : held.txn = (q i).txn) :
    Matches maxConnCnt g' (Function.update q i held) := by
  refine hm.poolStep h (fun j => ?_) hother htxn
  rw [heldCount_of_got h.self, hm.count, hcount]

/-- A request gives a connection of the pool back. -/
theorem Matches.gives {c : κ} {r : Option κ} (hm : Matches maxConnCnt g q)
    (h : PoolStep p (some (i, .rel c, some r)) g g') {held : Held}
    (hcount : held.count p + 1 = (q i).count p)
    (hother : ∀ p', p' ≠ p → held.count p' = (q i).count p') (htxn : held.txn = (q i).txn) :
    Matches maxConnCnt g' (Function.update q i held) := by
  refine hm.poolStep h (fun j => ?_) hother htxn
  have hrel := heldCount_of_rel h.self j
  by_cases hj : j = i
  · subst hj
    rw [if_pos rfl, hm.count] at hrel
    rw [if_pos rfl]
    omega
  · rw [if_neg hj] at hrel ⊢
    exact hrel.symm

/-- A command that takes no connection. -/
theorem Matches.txnStep (hm : Matches maxConnCnt g q) (i : ι) (txn : Bool) :
    Matches maxConnCnt { g with txn := Function.update g.txn i txn }
      (Function.update q i { q i with txn := txn }) := by
  refine ⟨hm.pools, fun j p => ?_, fun j => ?_⟩
  · by_cases hj : j = i
    · subst hj
      rw [Function.update_self]
      exact hm.count j p
    · rw [Function.update_of_ne hj, hm.count]
  · by_cases hj : j = i
    · subst hj
      simp
    · simp only [Function.update_of_ne hj, hm.txn]

/-- Every answered command keeps the match. -/
theorem Matches.answer {c : Server.Command} {r : c.Reply} (hm : Matches maxConnCnt g q)
    (hmay : mayIssue (q i) c) (h : answer i c g r g') :
    Matches maxConnCnt g' (Function.update q i (heldAfter c r (q i))) := by
  cases c with
  | getDBConn pool =>
      obtain ⟨got, rfl, hstep⟩ := h
      obtain ⟨hdb, hcache, htxn⟩ := hmay
      refine hm.gets hstep ?_ (fun p' hp => ?_) rfl
      · cases got <;> simp [Held.count, heldAfter, dbOf, ptrOf, hdb]
      · cases p' with
        | cache => rfl
        | db pool' =>
            have hne : pool ≠ pool' := fun heq => hp (congrArg PoolId.db heq.symm)
            cases got <;> simp [Held.count, heldAfter, dbOf, ptrOf, hdb, hne]
  | relDBConn pool =>
      obtain ⟨c, hstep⟩ := h
      have hdb : (q i).db = some pool := hmay
      refine hm.gives hstep ?_ (fun p' hp => ?_) rfl
      · simp [Held.count, heldAfter, hdb]
      · cases p' with
        | cache => rfl
        | db pool' =>
            have hne : pool ≠ pool' := fun heq => hp (congrArg PoolId.db heq.symm)
            simp [Held.count, heldAfter, hdb, hne]
  | getCacheConn =>
      obtain ⟨got, rfl, hstep⟩ := h
      obtain ⟨hdb, hcache, htxn⟩ := hmay
      refine hm.gets hstep ?_ (fun p' hp => ?_) rfl
      · cases got <;> simp [Held.count, heldAfter, cacheOf, ptrOf, hcache]
      · cases p' with
        | cache => exact absurd rfl hp
        | db pool' => rfl
  | relCacheConn =>
      obtain ⟨c, hstep⟩ := h
      have hcache : (q i).cache = true := hmay
      refine hm.gives hstep ?_ (fun p' hp => ?_) rfl
      · simp [Held.count, heldAfter, hcache]
      · cases p' with
        | cache => exact absurd rfl hp
        | db pool' => rfl
  | _ =>
      have hafter : g' = { g with txn := Function.update g.txn i (openAfter _ r (g.txn i)) } := h
      rw [hafter, hm.txn]
      exact hm.txnStep i _

/-- So does a command that has to wait. -/
theorem Matches.await {c : Server.Command} (hm : Matches maxConnCnt g q) (h : await i c g g') :
    Matches maxConnCnt g' q := by
  cases c with
  | getDBConn pool => exact hm.sameHeld h (held_of_waits (PoolStep.self h))
  | getCacheConn => exact hm.sameHeld h (held_of_waits (PoolStep.self h))
  | _ => exact absurd h id

end Matching

/-! ## Reachable states -/

section Runs

variable {maxConnCnt : PoolId → Int} {cfg : ServerConfig ι κ}

/-- A request that was not answered holds what its automaton says, and ends holding
nothing. -/
def Follows (maxConnCnt : PoolId → Int) (cfg : ServerConfig ι κ) (q : ι → Held) : Prop :=
  Simulates (fun _ => nesting) (Matches maxConnCnt)
    (fun _ _ held => held.db = none ∧ held.cache = false ∧ True) cfg q

theorem Starts.follows {requests : ι → Request} (h : Starts maxConnCnt requests cfg) :
    Follows maxConnCnt cfg fun _ => Held.nothing := by
  refine ⟨⟨fun p => ?_, fun i p => ?_, fun i => h.txn i⟩, fun i => ?_⟩
  · have hnew : cfg.shared.pools p = ⟨(cfg.shared.pools p).shared, .empty⟩ := by
      rw [← h.queues p]
    rw [hnew]
    exact .start (h.pools p)
  · obtain ⟨_, _, _, _, hheld, _⟩ := h.pools p
    rw [heldCount, hheld]
    cases p <;> rfl
  · rw [h.prog]
    exact finishes_prog (requests i)

/-- Every step keeps the match. -/
theorem follows_of_reachable {init : ServerConfig ι κ} {q₀ : ι → Held}
    (hinit : Follows maxConnCnt init q₀) (h : Reachable (server ι κ) init cfg) :
    ∃ q, Follows maxConnCnt cfg q := by
  refine reachable_simulates ?_ ?_ ?_ ?_ hinit h
  · intro i c g r g' q hm hsafe hstep
    exact ⟨_, rfl, hm.answer hsafe hstep⟩
  · intro i c g g' q hm _ hpause
    exact hm.await hpause
  · rintro g g' q i hm _ rfl
    exact hm
  · rintro g g' q hm ⟨p, hstep⟩
    exact hm.sameHeld hstep (by rw [shared_of_wakes hstep.self])

/-! ## Who waits -/

/-- The pool that a command gets a connection from. -/
def poolOf : Server.Command → Option PoolId
  | .getDBConn pool => some (.db pool)
  | .getCacheConn => some .cache
  | _ => none

/-- A request waits only where its next command is the `Get` of that pool. -/
def Queued (cfg : ServerConfig ι κ) : Prop :=
  ∀ p i, WaitsFor cfg i p → ∃ c k, cfg.prog i = .cmd c k ∧ poolOf c = some p

/-- An answered request waits nowhere, and nobody begins to wait. -/
theorem waiting_of_answer {i : ι} {c : Server.Command} {r : c.Reply} {g g' : Shared ι κ}
    (h : answer i c g r g') (hnodup : ∀ p, (g.pools p).queue.threads.Nodup) {p : PoolId} {j : ι}
    (hj : j ∈ (g'.pools p).queue.threads) :
    j ∈ (g.pools p).queue.threads ∧ (j = i → poolOf c ≠ some p) := by
  have hstep : ∀ {p'} {a : Call κ} {r : Option κ}, PoolStep p' (some (i, a, some r)) g g' →
      j ∈ (g.pools p).queue.threads ∧ (j = i → p' ≠ p) := by
    intro p' a r hstep
    by_cases hp : p = p'
    · subst hp
      obtain ⟨hne, hmem⟩ := hstep.self.waiting_of_returns (hnodup p) hj
      exact ⟨hmem, fun heq => absurd heq hne⟩
    · rw [hstep.other hp] at hj
      exact ⟨hj, fun _ heq => hp heq.symm⟩
  cases c with
  | getDBConn pool =>
      obtain ⟨got, _, hget⟩ := h
      exact ⟨(hstep hget).1, fun heq hpool => (hstep hget).2 heq (Option.some.inj hpool)⟩
  | getCacheConn =>
      obtain ⟨got, _, hget⟩ := h
      exact ⟨(hstep hget).1, fun heq hpool => (hstep hget).2 heq (Option.some.inj hpool)⟩
  | relDBConn pool =>
      obtain ⟨c, hrel⟩ := h
      exact ⟨(hstep hrel).1, fun _ hpool => by cases hpool⟩
  | relCacheConn =>
      obtain ⟨c, hrel⟩ := h
      exact ⟨(hstep hrel).1, fun _ hpool => by cases hpool⟩
  | _ =>
      have hafter : g' = { g with txn := Function.update g.txn i (openAfter _ r (g.txn i)) } := h
      rw [hafter] at hj
      exact ⟨hj, fun _ hpool => by cases hpool⟩

theorem waiting_of_await {i : ι} {c : Server.Command} {g g' : Shared ι κ} (h : await i c g g')
    {p : PoolId} {j : ι} (hj : j ∈ (g'.pools p).queue.threads) :
    j ∈ (g.pools p).queue.threads ∨ (j = i ∧ poolOf c = some p) := by
  have hstep : ∀ {p'}, PoolStep p' (some (i, .get 0, none)) g g' →
      j ∈ (g.pools p).queue.threads ∨ (j = i ∧ p' = p) := by
    intro p' hstep
    by_cases hp : p = p'
    · subst hp
      rcases hstep.self.waiting_of_waits hj with heq | hmem
      · exact Or.inr ⟨heq, rfl⟩
      · exact Or.inl hmem
    · rw [hstep.other hp] at hj
      exact Or.inl hj
  cases c with
  | getDBConn pool => exact (hstep h).imp_right fun ⟨heq, hpool⟩ => ⟨heq, congrArg some hpool⟩
  | getCacheConn => exact (hstep h).imp_right fun ⟨heq, hpool⟩ => ⟨heq, congrArg some hpool⟩
  | _ => exact absurd h id

theorem queued_of_step {cfg' : ServerConfig ι κ} (hqueued : Queued cfg)
    (hnodup : ∀ p, (cfg.shared.pools p).queue.threads.Nodup) (h : Step (server ι κ) cfg cfg') :
    Queued cfg' := by
  cases h with
  | cmd i hprog hcmd =>
      intro p j hj
      obtain ⟨hmem, hother⟩ := waiting_of_answer hcmd hnodup hj
      obtain ⟨c', k', hprog', hpool⟩ := hqueued p j hmem
      by_cases hji : j = i
      · -- the request that was answered asked for this pool
        subst hji
        rw [hprog] at hprog'
        cases hprog'
        exact absurd hpool (hother rfl)
      · exact ⟨c', k', (Function.update_of_ne hji ..).trans hprog', hpool⟩
  | pause i hprog hpause =>
      intro p j hj
      rcases waiting_of_await hpause hj with hmem | ⟨rfl, hpool⟩
      · exact hqueued p j hmem
      · exact ⟨_, _, hprog, hpool⟩
  | fault i hprog hfault =>
      have hsame : _ = cfg.shared := hfault
      subst hsame
      exact hqueued
  | env henv =>
      obtain ⟨p', hstep⟩ := henv
      intro p j hj
      refine hqueued p j ?_
      by_cases hp : p = p'
      · subst hp
        exact hstep.self.waiting_of_wakes hj
      · have hsame := hstep.other hp
        unfold WaitsFor at hj ⊢
        rwa [hsame] at hj

theorem queued_of_reachable {init : ServerConfig ι κ} {requests : ι → Request}
    (hstart : Starts maxConnCnt requests init) (h : Reachable (server ι κ) init cfg) :
    Queued cfg := by
  induction h with
  | refl =>
      intro p i hi
      rw [WaitsFor, hstart.queues] at hi
      cases hi
  | tail hreach hlast ih =>
      obtain ⟨q, hm, _⟩ := follows_of_reachable hstart.follows hreach
      exact queued_of_step ih (fun p => Monitor.Reachable.threads_nodup (hm.pools p)) hlast

/-! ## No deadlock -/

/-- MySQL comes before Redis. -/
def rank : PoolId → Nat
  | .db _ => 0
  | .cache => 1

/-- Where a request waits it may ask. -/
theorem mayIssue_of_waits {q : ι → Held} (hf : Follows maxConnCnt cfg q) (hqueued : Queued cfg)
    {i : ι} {p : PoolId} (h : WaitsFor cfg i p) :
    (q i).cache = false ∧ (q i).txn = false ∧
      match p with
      | .db _ => (q i).db = none
      | .cache => (q i).db ≠ some .tuchuangMaster := by
  obtain ⟨c, k, hprog, hpool⟩ := hqueued p i h
  have hmay : mayIssue (q i) c := Simulates.safe_of_cmd hf hprog
  cases c with
  | getDBConn pool =>
      cases hpool
      exact ⟨hmay.2.1, hmay.2.2, hmay.1⟩
  | getCacheConn =>
      cases hpool
      exact ⟨hmay.2.1, hmay.2.2, hmay.1⟩
  | _ => cases hpool

/-- A request that waits for a pool holds connections of lower pools only. -/
theorem rank_lt_of_waits {q : ι → Held} (hf : Follows maxConnCnt cfg q) (hqueued : Queued cfg)
    {i : ι} {p p' : PoolId} (hwaits : WaitsFor cfg i p) (hholds : Holding cfg.shared i p') :
    rank p' < rank p := by
  obtain ⟨hcache, _, hdb⟩ := mayIssue_of_waits hf hqueued hwaits
  obtain ⟨c, hmem⟩ := hholds
  have hpos : 0 < (q i).count p' := by
    rw [← hf.1.count]
    exact List.countP_pos_iff.mpr ⟨(i, c), hmem, by simp⟩
  cases p' with
  | cache => simp [Held.count, hcache] at hpos
  | db pool' =>
      cases p with
      | db pool => simp [Held.count, hdb] at hpos
      | cache => exact Nat.zero_lt_one

/-- A pool with no free connection has a holder. -/
theorem exists_holder {q : ι → Held} (hf : Follows maxConnCnt cfg q) {p : PoolId} {S : Set ι}
    (h : AllHeldBy cfg p S) : ∃ i ∈ S, Holding cfg.shared i p := by
  obtain ⟨hfree, hall⟩ := h
  have hinv := (hf.1.pools p).poolInv
  have hcount := hinv.count
  have hleast := hinv.least
  have hmin : 1 ≤ p.kind.minConnCnt := by
    cases p with
    | db pool => exact Nat.le_refl 1
    | cache => exact Nat.le_succ 1
  rw [hfree, List.length_nil] at hcount
  cases hheld : (cfg.shared.pools p).shared.held with
  | nil =>
      rw [hheld, List.length_nil] at hcount
      omega
  | cons entry held =>
      obtain ⟨i, c⟩ := entry
      have hmem : (i, c) ∈ (cfg.shared.pools p).shared.held := by simp [hheld]
      exact ⟨i, hall i c hmem, c, hmem⟩

end Runs

/-- No set of requests waits for itself, and no request waits inside a transaction. -/
theorem serverReachable_noDeadlock (maxConnCnt : PoolId → Int) (cfg : ServerConfig ι κ)
    (h : ServerReachable maxConnCnt cfg) :
    (∀ S, ¬ Deadlocked cfg S) ∧ ∀ i p, WaitsFor cfg i p → cfg.shared.txn i = false := by
  obtain ⟨requests, init, hstart, hreach⟩ := h
  obtain ⟨q, hf⟩ := follows_of_reachable hstart.follows hreach
  have hqueued := queued_of_reachable hstart hreach
  refine ⟨fun S hdead => ?_, fun i p hwaits => ?_⟩
  · obtain ⟨hne, hall⟩ := hdead
    have hbound : ∀ p, rank p < 2 := by
      intro p
      cases p with
      | db pool => exact Nat.zero_lt_two
      | cache => exact Nat.one_lt_two
    have hordered : ∀ i p p', WaitsFor cfg i p → Holding cfg.shared i p' → rank p' < rank p :=
      fun i p p' => rank_lt_of_waits hf hqueued
    refine no_circular_wait rank 2 hbound hordered (fun i hi => ?_) hne
    obtain ⟨p, hwaits, hheld⟩ := hall i hi
    exact ⟨p, hwaits, exists_holder hf hheld⟩
  · rw [hf.1.txn]
    exact (mayIssue_of_waits hf hqueued hwaits).2.1

/-- Every pool of the sample server has its first connections free. -/
def samplePool (p : PoolId) : PoolThreads Nat Nat :=
  ⟨⟨⟨List.range p.kind.minConnCnt, p.kind.minConnCnt, 1, false⟩, [], false⟩, .empty⟩

/-- Every request is an upload. -/
def sampleRequest : Request :=
  .upload ⟨CString.empty, CString.empty, CString.empty, CString.empty⟩ [] [45]

def sampleServer : ServerConfig Nat Nat :=
  ⟨⟨samplePool, fun _ => false⟩, fun _ => sampleRequest.prog⟩

theorem starts_sampleServer : Starts (fun _ => 1) (fun _ => sampleRequest) sampleServer where
  pools p := by
    refine ⟨List.range p.kind.minConnCnt, List.nodup_range, List.length_range, ?_, rfl, rfl⟩
    rw [init_map_some]
    rfl
  queues _ := rfl
  txn _ := rfl
  prog _ := rfl

/-- Request 1 holds the only connection to the master. -/
def sampleShared (q : WaitQueue Nat (Call Nat)) : Shared Nat Nat :=
  ⟨Function.update samplePool (.db .tuchuangMaster) ⟨sampleFull, q⟩, fun _ => false⟩

theorem answer_sampleServer :
    answer 1 (.getDBConn .tuchuangMaster) sampleServer.shared .conn (sampleShared .empty) := by
  have hstep : Monitor.Step (connMonitor Nat Nat) ⟨sampleFree, .empty⟩
      (some (1, .get 0, some (some 0))) ⟨sampleFull, .empty⟩ :=
    .returns (.enters (by decide)) body_sampleFree rfl
  exact ⟨some 0, rfl, ⟨sampleFull, .empty⟩, hstep, rfl⟩

theorem await_sampleShared :
    await 2 (.getDBConn .tuchuangMaster) (sampleShared .empty)
      (sampleShared ⟨[(2, .get 0)], []⟩) := by
  have hstep : Monitor.Step (connMonitor Nat Nat) ⟨sampleFull, .empty⟩
      (some (2, .get 0, none)) ⟨sampleFull, ⟨[(2, .get 0)], []⟩⟩ :=
    .waits (q := .empty) (.enters (by decide)) (body_sampleFull 2)
  refine ⟨⟨sampleFull, ⟨[(2, .get 0)], []⟩⟩, ?_, ?_⟩
  · simpa [sampleShared] using hstep
  · simp [sampleShared]

/-- Two uploads meet at the only connection to the master. -/
theorem serverReachable_noDeadlock_uploads :
    ∃ cfg : ServerConfig Nat Nat, ServerReachable (fun _ => 1) cfg ∧
      WaitsFor cfg 2 (.db .tuchuangMaster) ∧ (∀ S, ¬ Deadlocked cfg S) ∧
      cfg.shared.txn 2 = false := by
  have hgets : ∃ k, Step (server Nat Nat) sampleServer
      ⟨sampleShared .empty, Function.update sampleServer.prog 1 k⟩ :=
    ⟨_, .cmd 1 rfl answer_sampleServer⟩
  obtain ⟨k, hgets⟩ := hgets
  have hwaits : Step (server Nat Nat) ⟨sampleShared .empty, Function.update sampleServer.prog 1 k⟩
      ⟨sampleShared ⟨[(2, .get 0)], []⟩, Function.update sampleServer.prog 1 k⟩ :=
    .pause 2 rfl await_sampleShared
  have hreach : ServerReachable (fun _ => 1)
      ⟨sampleShared ⟨[(2, .get 0)], []⟩, Function.update sampleServer.prog 1 k⟩ :=
    ⟨_, sampleServer, starts_sampleServer, .tail (.single hgets) hwaits⟩
  have hwaiting : WaitsFor
      (⟨sampleShared ⟨[(2, .get 0)], []⟩, Function.update sampleServer.prog 1 k⟩ :
        ServerConfig Nat Nat) 2 (.db .tuchuangMaster) := by
    simp [WaitsFor, sampleShared, WaitQueue.threads]
  have hsafe := serverReachable_noDeadlock (fun _ => 1) _ hreach
  exact ⟨_, hreach, hwaiting, hsafe.1, hsafe.2 2 _ hwaiting⟩

end Pool
end TcMuzi
