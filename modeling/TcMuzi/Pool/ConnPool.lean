import TcMuzi.Lib.Monitor

/-!
# The connection pools

`CDBPool` and `CachePool` are one algorithm with different initial sizes.  The functions
here are the parts of their methods that run with the mutex held; `connMonitor` puts them
into the steps of threads that call `Get` and give back what they got.  A connection is
any pointer, and `new` yields one that no live connection has.
-/

namespace TcMuzi
namespace Pool

open Lib

/-! ## The methods -/

structure ConnPool (κ : Type) where
  freeList : List κ
  curConnCnt : Nat
  maxConnCnt : Int
  abortRequest : Bool

/-- The two kinds of pools. -/
inductive PoolKind
  | db
  | cache
deriving DecidableEq

/-- `MIN_DB_CONN_CNT` and `MIN_CACHE_CONN_CNT`. -/
def PoolKind.minConnCnt : PoolKind → Nat
  | .db => 1
  | .cache => 2

/-- How a part of `Get` ends.  `emptyPop` is `front()` of an empty list. -/
inductive Outcome (κ : Type)
  | null
  | conn (c : κ)
  | wait
  | emptyPop

namespace ConnPool

variable {ι κ : Type}

/-- The constructor. -/
def new (kind : PoolKind) (maxConnCnt : Int) : ConnPool κ :=
  ⟨[], kind.minConnCnt, maxConnCnt, false⟩

/-- `Init`, with what setting up each connection gives; `none` when one fails. -/
def init (pool : ConnPool κ) : List (Option κ) → Option (ConnPool κ)
  | [] => some pool
  | none :: _ => none
  | some c :: created => init { pool with freeList := pool.freeList ++ [c] } created

/-- `front` and `pop_front`. -/
def popFront (pool : ConnPool κ) : Outcome κ × ConnPool κ :=
  match pool.freeList with
  | [] => (.emptyPop, pool)
  | c :: rest => (.conn c, { pool with freeList := rest })

/-- The predicate of the waits. -/
def ready (pool : ConnPool κ) : Bool :=
  !pool.freeList.isEmpty || pool.abortRequest

/-- From the end of the wait on. -/
def afterWait (timeoutMs : Int) (pool : ConnPool κ) : Outcome κ × ConnPool κ :=
  if 0 < timeoutMs ∧ pool.freeList.isEmpty then (.null, pool)
  else if pool.abortRequest then (.null, pool)
  else pool.popFront

/-- Each evaluation of the wait's predicate.  Only `wait_for` gives up when it timed out. -/
def waitReady (timeoutMs : Int) (timedOut : Bool) (pool : ConnPool κ) : Outcome κ × ConnPool κ :=
  if pool.ready ∨ (0 < timeoutMs ∧ timedOut) then pool.afterWait timeoutMs else (.wait, pool)

/-- `GetDBConn` and `GetCacheConn` up to the first wait; `created` is what setting up a
new connection gives. -/
def get (timeoutMs : Int) (created : Option κ) (pool : ConnPool κ) : Outcome κ × ConnPool κ :=
  if pool.abortRequest then
    (.null, pool)
  else if pool.freeList.isEmpty then
    if pool.maxConnCnt ≤ pool.curConnCnt then
      pool.waitReady timeoutMs false
    else
      match created with
      | none => (.null, pool)
      | some c =>
          popFront { pool with
            freeList := pool.freeList ++ [c]
            curConnCnt := pool.curConnCnt + 1 }
  else
    pool.popFront

/-- `RelDBConn` and `RelCacheConn`, and whether they notify. -/
def rel [DecidableEq κ] (c : κ) (pool : ConnPool κ) : Bool × ConnPool κ :=
  if c ∈ pool.freeList then (false, pool)
  else (true, { pool with freeList := pool.freeList ++ [c] })

end ConnPool

/-! ## Threads -/

/-- The calls of a thread. -/
inductive Call (κ : Type)
  | get (timeoutMs : Int)
  | rel (c : κ)

/-- The pool, who holds which connection, and whether an empty list was popped. -/
structure PoolState (ι κ : Type) where
  pool : ConnPool κ
  held : List (ι × κ)
  poppedEmpty : Bool

namespace PoolState

variable {ι κ : Type}

/-- The pointers in use. -/
def live (s : PoolState ι κ) : List κ := s.pool.freeList ++ s.held.map Prod.snd

/-- What a part of `Get` of thread `i` does. -/
def settle (i : ι) (s : PoolState ι κ) : Outcome κ × ConnPool κ → Ending (Option κ) × PoolState ι κ
  | (.null, pool) => (.returns none false, { s with pool := pool })
  | (.conn c, pool) => (.returns (some c) false, { s with pool := pool, held := (i, c) :: s.held })
  | (.wait, pool) => (.waits, { s with pool := pool })
  | (.emptyPop, pool) => (.returns none false, { s with pool := pool, poppedEmpty := true })

end PoolState

variable {ι κ : Type} [DecidableEq ι] [DecidableEq κ]

/-- The critical sections.  A thread gives back what it holds, once: it no longer holds
it. -/
inductive Body : (resumed : Bool) → ι → Call κ → PoolState ι κ → Ending (Option κ) →
    PoolState ι κ → Prop
  | enter {i : ι} {s : PoolState ι κ} (timeoutMs : Int) (created : Option κ)
      (hfresh : ∀ c ∈ created, c ∉ s.live) :
      Body false i (.get timeoutMs) s (s.settle i (s.pool.get timeoutMs created)).1
        (s.settle i (s.pool.get timeoutMs created)).2
  | resume {i : ι} {s : PoolState ι κ} (timeoutMs : Int) (timedOut : Bool) :
      Body true i (.get timeoutMs) s (s.settle i (s.pool.waitReady timeoutMs timedOut)).1
        (s.settle i (s.pool.waitReady timeoutMs timedOut)).2
  | rel {i : ι} {s : PoolState ι κ} (c : κ) (hheld : (i, c) ∈ s.held) :
      Body false i (.rel c) s (.returns none (s.pool.rel c).1)
        { s with pool := (s.pool.rel c).2, held := s.held.erase (i, c) }

def connMonitor (ι κ : Type) [DecidableEq ι] [DecidableEq κ] :
    Monitor ι (Call κ) (Option κ) (PoolState ι κ) where
  body := Body

/-- A pool whose `Init` set up all its connections, held by nobody. -/
def Initial (kind : PoolKind) (maxConnCnt : Int) (s : PoolState ι κ) : Prop :=
  ∃ created : List κ, created.Nodup ∧ created.length = kind.minConnCnt ∧
    (ConnPool.new kind maxConnCnt).init (created.map some) = some s.pool ∧
    s.held = [] ∧ s.poppedEmpty = false

/-- The states of a pool and its threads. -/
abbrev PoolThreads (ι κ : Type) := Monitor.State ι (Call κ) (PoolState ι κ)

/-- The states reached by any threads in any order. -/
def PoolReachable (kind : PoolKind) (maxConnCnt : Int) : PoolThreads ι κ → Prop :=
  Monitor.Reachable (connMonitor ι κ) (Initial kind maxConnCnt)

end Pool
end TcMuzi
