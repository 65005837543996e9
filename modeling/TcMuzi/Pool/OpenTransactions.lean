import TcMuzi.Pool.Deadlock
import TcMuzi.Server.Locking

/-!
# Transactions and the pools

MySQL's transactions belong to the connections, and a connection goes from one request to
the next.  `bracketing` is an automaton that follows the transaction of one request: it
allows a connection to be given back only outside of it, while every start, commit and
rollback succeeds.  From that and the nesting of the connections no open transaction ever
gets into a pool, and what waits for its end was written by the request that holds the
connection.
-/

namespace TcMuzi
namespace Pool

open Base Server Redis Api Lib Mysql

/-! ## The transaction of one request -/

def TxnSucceeds : (c : Server.Command) → c.Reply → Prop
  | .startTransaction, started => started = true
  | .commit, ended => ended = true
  | .rollback, ended => ended = true
  | _, _ => True

/-- Whether the request is between its start and its end of a transaction. -/
def bracketing : Sem Server.Command Command.Reply Bool where
  step c txn r txn' := TxnSucceeds c r ∧ txn' = openAfter c r txn
  safe txn c := ∀ pool, c = .relDBConn pool → txn = false

/-- Commands that neither begin nor end a transaction. -/
def NoTransaction : Server.Command → Prop
  | .startTransaction => False
  | .commit => False
  | .rollback => False
  | _ => True

theorem openAfter_of_noTransaction {c : Server.Command} (hc : NoTransaction c) (r : c.Reply)
    (txn : Bool) : openAfter c r txn = txn := by
  cases c <;> first | rfl | exact hc.elim

theorem heldAfter_txn (c : Server.Command) (r : c.Reply) (h : Held) :
    (heldAfter c r h).txn = openAfter c r h.txn := by
  cases c <;> rfl

theorem noTransaction_of_isLocal (c : Server.Command) (hc : IsLocal c) : NoTransaction c := by
  cases c <;> trivial

theorem idle_of_isStatement (c : Server.Command) (hc : IsStatement c) : bracketing.Idle c := by
  have hlocal : IsLocal c := sql (fun _ h => h) c hc
  refine fun txn => ⟨?_, ?_⟩
  · rintro pool rfl
    exact absurd hlocal id
  · rintro r txn' ⟨_, rfl⟩
    exact openAfter_of_noTransaction (noTransaction_of_isLocal c hlocal) r txn

section Closing

variable {α β : Type}

/-- From outside a transaction to outside a transaction. -/
def Closes (p : Handler α) : Prop :=
  wp bracketing p (fun _ txn => txn = false) false

theorem Closes.bind {p : Handler α} {k : α → Handler β} (hp : Closes p)
    (hk : ∀ a, Closes (k a)) : Closes (p >>= k) := by
  rw [Closes, wp_bind]
  refine wp_mono hp ?_
  rintro a txn rfl
  exact hk a

theorem closes_of_uses {p : Handler α} (hp : Uses NoTransaction p) : Closes p := by
  refine wp_of_uses (I := (· = false)) (fun _ _ _ htxn _ _ => htxn) ?_ (fun _ _ => trivial) hp rfl
  rintro c txn r txn' hc rfl ⟨_, rfl⟩
  exact openAfter_of_noTransaction hc r false

theorem closes_withDBConn {pool : DBInstance} {body : Ptr → Handler α}
    (h : ∀ ptr, Closes (body ptr)) : Closes (withDBConn pool body) := by
  have hget : Uses NoTransaction (getDBConn pool) := (uses_issue ..).mpr trivial
  refine (closes_of_uses hget).bind fun ptr => (h ptr).bind fun a => closes_of_uses ?_
  cases ptr with
  | null => trivial
  | conn => exact uses_bind ((uses_issue ..).mpr trivial) fun _ => trivial

theorem closes_withCacheConn {body : Ptr → Handler α} (h : ∀ ptr, Closes (body ptr)) :
    Closes (withCacheConn body) := by
  have hget : Uses NoTransaction getCacheConn := (uses_issue ..).mpr trivial
  refine (closes_of_uses hget).bind fun ptr => (h ptr).bind fun a => closes_of_uses ?_
  cases ptr with
  | null => trivial
  | conn => exact uses_bind ((uses_issue ..).mpr trivial) fun _ => trivial

/-- A call through a NULL pointer ends the handler. -/
theorem wp_onConn {ptr : Ptr} {call : Handler α} {Q : α → Bool → Prop} {txn : Bool}
    (h : wp bracketing call Q txn) : wp bracketing (onConn ptr call) Q txn := by
  cases ptr with
  | null => trivial
  | conn => exact h

theorem wp_startTransaction {ptr : Ptr} {Q : Bool → Bool → Prop} (hQ : ∀ r, Q r true) :
    wp bracketing (startTransaction ptr) Q false := by
  refine wp_onConn ⟨fun _ h => (by cases h), ?_⟩
  rintro r txn ⟨rfl, rfl⟩
  exact hQ true

theorem wp_commit {ptr : Ptr} {Q : Bool → Bool → Prop} {txn : Bool} (hQ : ∀ r, Q r false) :
    wp bracketing (commit ptr) Q txn := by
  refine wp_onConn ⟨fun _ h => (by cases h), ?_⟩
  rintro r txn' ⟨rfl, rfl⟩
  simpa [openAfter] using hQ true

theorem wp_rollback {ptr : Ptr} {Q : Bool → Bool → Prop} {txn : Bool} (hQ : ∀ r, Q r false) :
    wp bracketing (rollback ptr) Q txn := by
  refine wp_onConn ⟨fun _ h => (by cases h), ?_⟩
  rintro r txn' ⟨rfl, rfl⟩
  simpa [openAfter] using hQ true

/-- Statements may fail or not: the transaction stays open. -/
theorem wp_statements {p : Handler α} (hp : Uses bracketing.Idle p) {Q : α → Bool → Prop}
    {txn : Bool} (hQ : ∀ a, Q a txn) : wp bracketing p Q txn :=
  wp_of_idle (fun _ => trivial) hp hQ

/-- Each way out of the transaction commits it or rolls it back. -/
theorem closes_dealMd5Transaction (ptr : Ptr) (user md5 filename : CString) :
    Closes (dealMd5Transaction ptr user md5 filename) := by
  rw [Closes, dealMd5Transaction, wp_bind]
  refine wp_startTransaction fun _ => ?_
  rw [wp_bind]
  refine wp_statements (uses_checkwhetherHaveRecord idle_of_isStatement ptr _) fun ret => ?_
  rw [wp_ite]
  refine ⟨fun _ => ?_, fun _ => ?_⟩
  · rw [wp_bind]
    exact wp_commit fun _ => rfl
  · rw [wp_bind]
    refine wp_statements (uses_addReference idle_of_isStatement ptr ..) fun succeed => ?_
    rw [wp_ite]
    refine ⟨fun _ => ?_, fun _ => ?_⟩
    · rw [wp_bind]
      exact wp_commit fun _ => rfl
    · rw [wp_bind]
      exact wp_rollback fun _ => rfl

theorem closes_incrSharePv (ptr : Ptr) (md5 filename : CString) :
    Closes (incrSharePv ptr md5 filename) := by
  rw [Closes, incrSharePv, wp_bind]
  refine wp_startTransaction fun _ => ?_
  rw [wp_bind]
  refine wp_statements (uses_executeQuery idle_of_isStatement ptr _) fun resultSet => ?_
  split
  · rw [wp_bind]
    refine wp_statements (uses_executeUpdate idle_of_isStatement ptr _ _) fun updated => ?_
    rw [wp_ite]
    refine ⟨fun _ => ?_, fun _ => ?_⟩
    · rw [wp_bind]
      exact wp_commit fun _ => rfl
    · rw [wp_bind]
      exact wp_rollback fun _ => rfl
  · rw [wp_bind]
    exact wp_rollback fun _ => rfl

theorem closes_handleDealMd5 (user md5 filename : CString) :
    Closes (handleDealMd5 user md5 filename) :=
  closes_withDBConn fun ptr => closes_dealMd5Transaction ptr user md5 filename

theorem closes_handlePvFile (md5 filename : CString) : Closes (handlePvFile md5 filename) := by
  have hredis : ∀ c, FileCommand CString.empty c → NoTransaction (.redis c) := fun _ _ => trivial
  refine closes_withDBConn fun ptr => closes_withCacheConn fun cacheConn => ?_
  refine (closes_incrSharePv ptr md5 filename).bind fun pv => closes_of_uses ?_
  cases pv with
  | none => trivial
  | some pv =>
      exact uses_bind (uses_incrShareScore hredis cacheConn md5 filename pv) fun _ => trivial

theorem parts_closes : Parts NoTransaction Closes where
  allows := ⟨noTransaction_of_isLocal, fun _ _ _ => trivial⟩
  get _ := trivial
  ret _ := rfl
  plain hp hk := (closes_of_uses hp).bind hk
  onDB hp hk := (closes_of_uses (uses_of_onDB (fun _ => ⟨trivial, trivial⟩) hp)).bind hk
  onCache hp hk := (closes_of_uses (uses_of_onCache ⟨trivial, trivial⟩ hp)).bind hk
  onSlaveAndCache hp hk :=
    (closes_of_uses (uses_of_onSlaveAndCache (fun _ => ⟨trivial, trivial⟩) ⟨trivial, trivial⟩
      hp)).bind hk
  dealMd5 user md5 filename _ := (closes_handleDealMd5 user md5 filename).bind fun _ => rfl
  sharePv md5 filename _ := (closes_handlePvFile md5 filename).bind fun _ => rfl

/-- Every request is outside a transaction whenever it gives a connection back. -/
theorem closes_prog (request : Request) : Closes request.prog :=
  parts_closes.prog request fun reader postData _ =>
    parts_closes.userLogin (fun _ _ => trivial) reader postData

end Closing

/-! ## The system -/

/-- The tables, and the writes that took effect with the requests that issued them. -/
structure Journal (ι : Type) where
  tables : Tables
  effects : List (ι × Update)

def Journal.apply {ι : Type} (write : ι × Update) (journal : Journal ι) : Journal ι :=
  ⟨applyUpdate write.2 journal.tables, journal.effects ++ [write]⟩

/-- The pools, and MySQL with a transaction for each connection.  Locks only make
statements wait and are left out. -/
structure Backend (ι κ : Type) where
  conns : Shared ι κ
  store : Store (DBInstance × κ) (Journal ι) (ι × Update) Empty

variable {ι κ : Type} [DecidableEq ι] [DecidableEq κ]

/-- The request holds the connection. -/
def Backend.Holds (g : Backend ι κ) (i : ι) (conn : DBInstance × κ) : Prop :=
  (i, conn.2) ∈ (g.conns.pools (.db conn.1)).shared.held

/-- A write fails, or it is executed on the connection that the request holds. -/
def executes (i : ι) (u : Update) (g : Backend ι κ) (r : Option Nat)
    (store : Store (DBInstance × κ) (Journal ι) (ι × Update) Empty) : Prop :=
  (r = none ∧ store = g.store) ∨
    ∃ conn n t, g.Holds i conn ∧ u.exec (g.store.view Journal.apply conn).tables = some (n, t) ∧
      r = some n ∧ store = g.store.execute Journal.apply conn [] [(i, u)]

/-- What MySQL does for a command.  A query answers anything. -/
def effect (i : ι) : (c : Server.Command) → Backend ι κ → c.Reply →
    Store (DBInstance × κ) (Journal ι) (ι × Update) Empty → Prop
  | .update u, g, r, store => executes i u g r store
  | .execute u, g, r, store => executes i u g r store
  | .startTransaction, g, r, store =>
      r = true ∧ ∃ conn, g.Holds i conn ∧ store = g.store.start Journal.apply conn
  | .commit, g, r, store =>
      r = true ∧ ∃ conn, g.Holds i conn ∧ store = g.store.commit Journal.apply conn
  | .rollback, g, r, store =>
      r = true ∧ ∃ conn, g.Holds i conn ∧ store = g.store.rollback conn
  | _, g, _, store => store = g.store

/-- MySQL may roll a transaction back by itself, as the victim of a deadlock or with a
connection that is lost. -/
def backend (ι κ : Type) [DecidableEq ι] [DecidableEq κ] :
    System ι Server.Command Command.Reply (Backend ι κ) where
  step i c g r g' := answer i c g.conns r g'.conns ∧ effect i c g r g'.store
  pause i c g g' := await i c g.conns g'.conns ∧ g'.store = g.store
  fault g g' := g' = g
  env g g' := ((server ι κ).env g.conns g'.conns ∧ g'.store = g.store) ∨
    ∃ conn, g' = { g with store := g.store.rollback conn }

abbrev BackendConfig (ι κ : Type) := Config ι Server.Command Command.Reply Response (Backend ι κ)

/-- The requests did nothing yet and no transaction is open. -/
structure BackendStarts (maxConnCnt : PoolId → Int) (requests : ι → Request)
    (cfg : BackendConfig ι κ) : Prop where
  starts : Starts maxConnCnt requests ⟨cfg.shared.conns, cfg.prog⟩
  closed : ∀ conn, cfg.shared.store.txns conn = none

def BackendReachable (maxConnCnt : PoolId → Int) (cfg : BackendConfig ι κ) : Prop :=
  ∃ requests init, BackendStarts maxConnCnt requests init ∧ Reachable (backend ι κ) init cfg

/-! ## Who holds a connection after a step -/

/-- Only a request that gives a connection back stops holding one. -/
theorem answer_held {i j : ι} {c : Server.Command} {r : c.Reply} {g g' : Shared ι κ}
    (h : answer i c g r g') {pool : DBInstance} {conn : κ}
    (hrel : j = i → c ≠ .relDBConn pool) (hheld : (j, conn) ∈ (g.pools (.db pool)).shared.held) :
    (j, conn) ∈ (g'.pools (.db pool)).shared.held := by
  have hother : ∀ {p label}, PoolStep p label g g' → PoolId.db pool ≠ p →
      (j, conn) ∈ (g'.pools (.db pool)).shared.held := by
    intro p label hstep hp
    rw [hstep.other hp]
    exact hheld
  cases c with
  | getDBConn pool' =>
      obtain ⟨got, _, hstep⟩ := h
      by_cases hpool : pool' = pool
      · subst hpool
        rw [held_of_got hstep.self]
        cases got with
        | none => exact hheld
        | some conn' => exact List.mem_cons_of_mem _ hheld
      · exact hother hstep fun heq => hpool (PoolId.db.inj heq).symm
  | relDBConn pool' =>
      obtain ⟨conn', hstep⟩ := h
      by_cases hpool : pool' = pool
      · subst hpool
        have hj : j ≠ i := fun heq => hrel heq rfl
        have hne : (j, conn) ≠ (i, conn') := fun heq => hj (congrArg Prod.fst heq)
        rw [(held_of_rel hstep.self).2]
        exact (List.mem_erase_of_ne hne).mpr hheld
      · exact hother hstep fun heq => hpool (PoolId.db.inj heq).symm
  | getCacheConn =>
      obtain ⟨got, _, hstep⟩ := h
      exact hother hstep nofun
  | relCacheConn =>
      obtain ⟨conn', hstep⟩ := h
      exact hother hstep nofun
  | _ =>
      have hafter : g' = { g with txn := Function.update g.txn i (openAfter _ r (g.txn i)) } := h
      rw [hafter]
      exact hheld

/-- A step of one pool that leaves its holders leaves all holders. -/
theorem PoolStep.held_eq {p p' : PoolId} {label : Monitor.Label ι (Call κ) (Option κ)}
    {g g' : Shared ι κ} (h : PoolStep p label g g')
    (hheld : (g'.pools p).shared.held = (g.pools p).shared.held) :
    (g'.pools p').shared.held = (g.pools p').shared.held := by
  by_cases hp : p' = p
  · rw [hp, hheld]
  · rw [h.other hp]

theorem await_held {i : ι} {c : Server.Command} {g g' : Shared ι κ} (h : await i c g g')
    {p : PoolId} : (g'.pools p).shared.held = (g.pools p).shared.held := by
  cases c with
  | getDBConn pool => exact PoolStep.held_eq h (held_of_waits (PoolStep.self h))
  | getCacheConn => exact PoolStep.held_eq h (held_of_waits (PoolStep.self h))
  | _ => exact absurd h id

section Matching

variable {maxConnCnt : PoolId → Int} {g : Shared ι κ} {q : ι → Held}

/-- A connection is held by one request. -/
theorem Matches.oneHolder (hm : Matches maxConnCnt g q) {i j : ι} {p : PoolId} {conn : κ}
    (hi : (i, conn) ∈ (g.pools p).shared.held) (hj : (j, conn) ∈ (g.pools p).shared.held) : i = j :=
  (hm.pools p).poolInv.poolSafe.oneHolder i j conn hi hj

/-- A request holds one connection of MySQL. -/
theorem Matches.oneHeld (hm : Matches maxConnCnt g q) {i : ι} {pool pool' : DBInstance}
    {conn conn' : κ} (h : (i, conn) ∈ (g.pools (.db pool)).shared.held)
    (h' : (i, conn') ∈ (g.pools (.db pool')).shared.held) : (pool, conn) = (pool', conn') := by
  have hdb : ∀ {pool : DBInstance} {conn : κ}, (i, conn) ∈ (g.pools (.db pool)).shared.held →
      (q i).db = some pool := by
    intro pool conn hmem
    have hpos : 0 < (q i).count (.db pool) := by
      rw [← hm.count]
      exact List.countP_pos_iff.mpr ⟨(i, conn), hmem, by simp⟩
    by_contra hne
    simp [Held.count, hne] at hpos
  have hpool : pool = pool' := Option.some.inj ((hdb h).symm.trans (hdb h'))
  subst hpool
  -- the request occurs once among the holders
  have hcount : ((g.pools (.db pool)).shared.held.filter fun entry => entry.1 = i).length = 1 := by
    rw [← List.countP_eq_length_filter]
    have hone := hm.count i (.db pool)
    simpa [heldCount, Held.count, hdb h] using hone
  obtain ⟨entry, hentry⟩ := List.length_eq_one_iff.mp hcount
  have hmem : ∀ {conn : κ}, (i, conn) ∈ (g.pools (.db pool)).shared.held → (i, conn) = entry := by
    intro conn hmem
    have hfilter : (i, conn) ∈
        (g.pools (.db pool)).shared.held.filter fun entry => entry.1 = i :=
      List.mem_filter.mpr ⟨hmem, by simp⟩
    rw [hentry] at hfilter
    exact List.mem_singleton.mp hfilter
  have hsame := congrArg Prod.snd ((hmem h).trans (hmem h').symm)
  exact congrArg (Prod.mk pool) hsame

end Matching

/-! ## The transactions match the requests -/

/-- The request that holds the connection is inside its transaction and has issued what
waits for its end. -/
def Backend.OwnedBy (g : Backend ι κ) (txn : Txn (ι × Update) Empty) (conn : DBInstance × κ)
    (i : ι) : Prop :=
  g.Holds i conn ∧ ∀ write ∈ txn.writes, write.1 = i

/-- The states of the two automata of every request, the pools and the transactions. -/
structure Separated (maxConnCnt : PoolId → Int) (g : Backend ι κ) (q : ι → Held × Bool) :
    Prop where
  conns : Matches maxConnCnt g.conns fun i => (q i).1
  inside : ∀ i, (q i).1.txn = (q i).2
  owner : ∀ conn txn, g.store.txns conn = some txn → ∃ i, (q i).2 = true ∧ g.OwnedBy txn conn i

namespace Separated

variable {maxConnCnt : PoolId → Int} {g g' : Backend ι κ} {q : ι → Held × Bool} {i : ι}
  {c : Server.Command} {r : c.Reply}

theorem owned_of_holds (h : Separated maxConnCnt g q) {conn : DBInstance × κ}
    {txn : Txn (ι × Update) Empty} (htxn : g.store.txns conn = some txn)
    (hheld : g.Holds i conn) : (q i).2 = true ∧ ∀ write ∈ txn.writes, write.1 = i := by
  obtain ⟨j, hj, hholds, hwrites⟩ := h.owner conn txn htxn
  obtain rfl := h.conns.oneHolder hheld hholds
  exact ⟨hj, hwrites⟩

/-- A request outside its transaction holds no connection with an open one. -/
theorem closed (h : Separated maxConnCnt g q) (hi : (q i).2 = false) {conn : DBInstance × κ}
    (hheld : g.Holds i conn) : g.store.txns conn = none := by
  cases htxn : g.store.txns conn with
  | none => rfl
  | some txn =>
      obtain ⟨hinside, _⟩ := h.owned_of_holds htxn hheld
      rw [hi] at hinside
      cases hinside

/-- A connection in a pool is held by no request. -/
theorem free (h : Separated maxConnCnt g q) {pool : DBInstance} {conn : κ}
    (hfree : conn ∈ (g.conns.pools (.db pool)).shared.pool.freeList) :
    g.store.txns (pool, conn) = none := by
  cases htxn : g.store.txns (pool, conn) with
  | none => rfl
  | some txn =>
      obtain ⟨j, _, hholds, _⟩ := h.owner _ txn htxn
      exact absurd hfree ((h.conns.pools (.db pool)).poolInv.poolSafe.freeNotHeld j conn hholds)

/-- After a command the pools match again; the transactions have to be looked at. -/
theorem step_of_owner (h : Separated maxConnCnt g q) (hsafe : mayIssue (q i).1 c)
    (hanswer : answer i c g.conns r g'.conns)
    (howner : ∀ conn txn, g'.store.txns conn = some txn →
      ∃ j, (Function.update (fun k => (q k).2) i (openAfter c r (q i).2)) j = true ∧
        g'.OwnedBy txn conn j) :
    Separated maxConnCnt g'
      (Function.update q i (heldAfter c r (q i).1, openAfter c r (q i).2)) := by
  have hfst : ∀ p : Held × Bool,
      (fun k => (Function.update q i p k).1) = Function.update (fun k => (q k).1) i p.1 := by
    intro p
    funext k
    by_cases hk : k = i
    · subst hk
      simp
    · simp [Function.update_of_ne hk]
  have hsnd : ∀ p : Held × Bool,
      (fun k => (Function.update q i p k).2) = Function.update (fun k => (q k).2) i p.2 := by
    intro p
    funext k
    by_cases hk : k = i
    · subst hk
      simp
    · simp [Function.update_of_ne hk]
  refine ⟨?_, fun j => ?_, fun conn txn htxn => ?_⟩
  · rw [hfst]
    exact h.conns.answer hsafe hanswer
  · by_cases hj : j = i
    · subst hj
      rw [Function.update_self, ← h.inside]
      exact heldAfter_txn c r (q j).1
    · rw [Function.update_of_ne hj]
      exact h.inside j
  · obtain ⟨j, hj, howned⟩ := howner conn txn htxn
    refine ⟨j, ?_, howned⟩
    rw [← hj]
    exact congrFun (hsnd _) j

/-- A request inside its transaction keeps its connection. -/
theorem holds_kept (hsafe : bracketing.safe (q i).2 c) (hanswer : answer i c g.conns r g'.conns)
    {j : ι} (hj : (q j).2 = true) {conn : DBInstance × κ} (hheld : g.Holds j conn) :
    g'.Holds j conn := by
  refine answer_held hanswer ?_ hheld
  rintro rfl hc
  have houtside := hsafe _ hc
  rw [hj] at houtside
  cases houtside

/-- The owner of an open transaction stays, unless it ends it. -/
theorem owner_kept (h : Separated maxConnCnt g q) (hsafe : bracketing.safe (q i).2 c)
    (hanswer : answer i c g.conns r g'.conns) {conn : DBInstance × κ}
    {txn : Txn (ι × Update) Empty} (htxn : g.store.txns conn = some txn)
    (hopen : g.Holds i conn → openAfter c r true = true) :
    ∃ j, (Function.update (fun k => (q k).2) i (openAfter c r (q i).2)) j = true ∧
      g'.OwnedBy txn conn j := by
  obtain ⟨j, hj, hholds, hwrites⟩ := h.owner conn txn htxn
  refine ⟨j, ?_, holds_kept hsafe hanswer hj hholds, hwrites⟩
  by_cases hji : j = i
  · subst hji
    rw [Function.update_self, hj]
    exact hopen hholds
  · rw [Function.update_of_ne hji]
    exact hj

theorem step_idle (h : Separated maxConnCnt g q) (hmay : mayIssue (q i).1 c)
    (hsafe : bracketing.safe (q i).2 c) (hanswer : answer i c g.conns r g'.conns)
    (hopen : openAfter c r true = true) (hstore : g'.store = g.store) :
    Separated maxConnCnt g'
      (Function.update q i (heldAfter c r (q i).1, openAfter c r (q i).2)) := by
  refine h.step_of_owner hmay hanswer fun conn txn htxn => ?_
  rw [hstore] at htxn
  exact h.owner_kept hsafe hanswer htxn fun _ => hopen

/-- A write joins the transaction of its own request. -/
theorem step_executes (h : Separated maxConnCnt g q) (hmay : mayIssue (q i).1 c)
    (hsafe : bracketing.safe (q i).2 c) (hanswer : answer i c g.conns r g'.conns)
    (hopen : openAfter c r true = true) {u : Update} {n : Option Nat}
    (hexec : executes i u g n g'.store) :
    Separated maxConnCnt g'
      (Function.update q i (heldAfter c r (q i).1, openAfter c r (q i).2)) := by
  rcases hexec with ⟨_, hstore⟩ | ⟨conn, n, t, hheld, _, _, hstore⟩
  · exact h.step_idle hmay hsafe hanswer hopen hstore
  · refine h.step_of_owner hmay hanswer fun conn' txn htxn => ?_
    rw [hstore] at htxn
    by_cases hconn : conn' = conn
    · subst hconn
      cases hold : g.store.txns conn' with
      | none =>
          rw [Store.execute, hold] at htxn
          cases hold.symm.trans htxn
      | some old =>
          obtain ⟨hi, hwrites⟩ := h.owned_of_holds hold hheld
          rw [Store.txns_execute_self hold] at htxn
          cases htxn
          refine ⟨i, ?_, holds_kept hsafe hanswer hi hheld, fun write hwrite => ?_⟩
          · rw [Function.update_self, hi]
            exact hopen
          · rcases List.mem_append.mp hwrite with hwrite | hwrite
            · exact hwrites write hwrite
            · rw [List.mem_singleton.mp hwrite]
    · rw [Store.txns_execute_of_ne hconn] at htxn
      exact h.owner_kept hsafe hanswer htxn fun _ => hopen

/-- The new transaction is empty; one that was open is committed. -/
theorem step_start (h : Separated maxConnCnt g q)
    (hanswer : answer i .startTransaction g.conns true g'.conns) {conn : DBInstance × κ}
    (hheld : g.Holds i conn) (hstore : g'.store = g.store.start Journal.apply conn) :
    Separated maxConnCnt g'
      (Function.update q i (heldAfter .startTransaction true (q i).1,
        openAfter .startTransaction true (q i).2)) := by
  have hsafe : bracketing.safe (q i).2 .startTransaction := fun _ hc => by cases hc
  refine h.step_of_owner trivial hanswer fun conn' txn htxn => ?_
  rw [hstore] at htxn
  by_cases hconn : conn' = conn
  · subst hconn
    rw [Store.txns_start_self] at htxn
    cases htxn
    have hkept : g'.Holds i conn' := answer_held hanswer (fun _ hc => by cases hc) hheld
    exact ⟨i, by simp [openAfter], hkept, fun write hwrite => by cases hwrite⟩
  · rw [Store.txns_start_of_ne hconn] at htxn
    exact h.owner_kept hsafe hanswer htxn fun _ => rfl

/-- The transaction of the connection is over. -/
theorem step_ends (h : Separated maxConnCnt g q) (hmay : mayIssue (q i).1 c)
    (hsafe : bracketing.safe (q i).2 c) (hanswer : answer i c g.conns r g'.conns)
    {conn : DBInstance × κ} (hheld : g.Holds i conn) (hself : g'.store.txns conn = none)
    (hother : ∀ conn', conn' ≠ conn → g'.store.txns conn' = g.store.txns conn') :
    Separated maxConnCnt g'
      (Function.update q i (heldAfter c r (q i).1, openAfter c r (q i).2)) := by
  refine h.step_of_owner hmay hanswer fun conn' txn htxn => ?_
  by_cases hconn : conn' = conn
  · rw [hconn, hself] at htxn
    cases htxn
  · rw [hother conn' hconn] at htxn
    exact h.owner_kept hsafe hanswer htxn fun hheld' => absurd (h.conns.oneHeld hheld' hheld) hconn

/-- Every command that is answered keeps the match. -/
theorem step (h : Separated maxConnCnt g q) (hmay : mayIssue (q i).1 c)
    (hsafe : bracketing.safe (q i).2 c) (hstep : (backend ι κ).step i c g r g') :
    TxnSucceeds c r ∧ Separated maxConnCnt g'
      (Function.update q i (heldAfter c r (q i).1, openAfter c r (q i).2)) := by
  obtain ⟨hanswer, heffect⟩ := hstep
  cases c with
  | update u => exact ⟨trivial, h.step_executes hmay hsafe hanswer rfl heffect⟩
  | execute u => exact ⟨trivial, h.step_executes hmay hsafe hanswer rfl heffect⟩
  | startTransaction =>
      obtain ⟨rfl, conn, hheld, hstore⟩ := heffect
      exact ⟨rfl, h.step_start hanswer hheld hstore⟩
  | commit =>
      obtain ⟨rfl, conn, hheld, hstore⟩ := heffect
      refine ⟨rfl, h.step_ends hmay hsafe hanswer hheld ?_ fun conn' hconn => ?_⟩
      · rw [hstore, Store.txns_commit_self]
      · rw [hstore, Store.txns_commit_of_ne hconn]
  | rollback =>
      obtain ⟨rfl, conn, hheld, hstore⟩ := heffect
      refine ⟨rfl, h.step_ends hmay hsafe hanswer hheld ?_ fun conn' hconn => ?_⟩
      · rw [hstore, Store.txns_rollback_self]
      · rw [hstore, Store.txns_rollback_of_ne hconn]
  | _ => exact ⟨trivial, h.step_idle hmay hsafe hanswer rfl heffect⟩

/-- A step in which the requests get no answer and no transaction grows. -/
theorem unanswered (h : Separated maxConnCnt g q)
    (hconns : Matches maxConnCnt g'.conns fun i => (q i).1)
    (hheld : ∀ i conn, g.Holds i conn → g'.Holds i conn)
    (hstore : ∀ conn txn, g'.store.txns conn = some txn → g.store.txns conn = some txn) :
    Separated maxConnCnt g' q := by
  refine ⟨hconns, h.inside, fun conn txn htxn => ?_⟩
  obtain ⟨i, hi, hholds, hwrites⟩ := h.owner conn txn (hstore conn txn htxn)
  exact ⟨i, hi, hheld i conn hholds, hwrites⟩

end Separated

/-! ## Reachable states -/

section Runs

variable {maxConnCnt : PoolId → Int} {cfg : BackendConfig ι κ}

/-- Every request follows both automata. -/
def Keeps (maxConnCnt : PoolId → Int) (cfg : BackendConfig ι κ) (q : ι → Held × Bool) : Prop :=
  Simulates (fun _ => nesting.prod bracketing) (Separated maxConnCnt)
    (fun _ _ held => (held.1.db = none ∧ held.1.cache = false ∧ True) ∧ held.2 = false) cfg q

theorem BackendStarts.keeps {requests : ι → Request} (h : BackendStarts maxConnCnt requests cfg) :
    Keeps maxConnCnt cfg fun _ => (Held.nothing, false) := by
  obtain ⟨hmatches, _⟩ := h.starts.follows
  refine ⟨⟨hmatches, fun _ => rfl, fun conn txn htxn => ?_⟩, fun i => ?_⟩
  · rw [h.closed] at htxn
    cases htxn
  · have hprog : cfg.prog i = (requests i).prog := h.starts.prog i
    rw [hprog]
    exact wp_prod (finishes_prog (requests i)) (closes_prog (requests i))

theorem keeps_of_reachable {init : BackendConfig ι κ} {q₀ : ι → Held × Bool}
    (hinit : Keeps maxConnCnt init q₀) (h : Reachable (backend ι κ) init cfg) :
    ∃ q, Keeps maxConnCnt cfg q := by
  refine reachable_simulates ?_ ?_ ?_ ?_ hinit h
  · intro i c g r g' q hsep hsafe hstep
    obtain ⟨htxn, hnext⟩ := hsep.step hsafe.1 hsafe.2 hstep
    exact ⟨(heldAfter c r (q i).1, openAfter c r (q i).2), ⟨rfl, htxn, rfl⟩, hnext⟩
  · rintro i c g g' q hsep _ ⟨hpause, hstore⟩
    refine hsep.unanswered (hsep.conns.await hpause) (fun j conn hheld => ?_) ?_
    · rw [Backend.Holds, await_held hpause]
      exact hheld
    · rw [hstore]
      exact fun conn txn htxn => htxn
  · rintro g g' q i hsep _ rfl
    exact hsep
  · rintro g g' q hsep (⟨⟨p, hwake⟩, hstore⟩ | ⟨conn, rfl⟩)
    · have hsame := shared_of_wakes hwake.self
      refine hsep.unanswered (hsep.conns.sameHeld hwake (by rw [hsame])) (fun j conn hheld => ?_) ?_
      · rw [Backend.Holds, hwake.held_eq (by rw [hsame])]
        exact hheld
      · rw [hstore]
        exact fun conn txn htxn => htxn
    · refine hsep.unanswered hsep.conns (fun _ _ hheld => hheld) fun conn' txn htxn => ?_
      by_cases hconn : conn' = conn
      · subst hconn
        exact absurd (htxn.symm.trans Store.txns_rollback_self) nofun
      · rwa [Store.txns_rollback_of_ne hconn] at htxn

omit [DecidableEq ι] in
/-- A command touches only the transaction of a connection that the request holds. -/
theorem effect_other {i : ι} {c : Server.Command} {g : Backend ι κ} {r : c.Reply}
    {store : Store (DBInstance × κ) (Journal ι) (ι × Update) Empty} (h : effect i c g r store)
    {conn : DBInstance × κ} (hother : ∀ conn', g.Holds i conn' → conn ≠ conn') :
    store.txns conn = g.store.txns conn := by
  have hexec : ∀ {u n}, executes i u g n store → store.txns conn = g.store.txns conn := by
    rintro u n (⟨_, rfl⟩ | ⟨conn', n, t, hheld, _, _, rfl⟩)
    · rfl
    · exact Store.txns_execute_of_ne (hother conn' hheld)
  cases c with
  | update u => exact hexec h
  | execute u => exact hexec h
  | startTransaction =>
      obtain ⟨_, conn', hheld, rfl⟩ := h
      exact Store.txns_start_of_ne (hother conn' hheld)
  | commit =>
      obtain ⟨_, conn', hheld, rfl⟩ := h
      exact Store.txns_commit_of_ne (hother conn' hheld)
  | rollback =>
      obtain ⟨_, conn', hheld, rfl⟩ := h
      exact Store.txns_rollback_of_ne (hother conn' hheld)
  | _ => rw [h]

/-- No connection gets into a pool with an open transaction.  A write outside its
request's transaction takes effect at once; one that waits was issued inside, and the
commands of other requests leave it waiting. -/
structure OwnTransactions (cfg : BackendConfig ι κ) : Prop where
  free : ∀ pool conn, conn ∈ (cfg.shared.conns.pools (.db pool)).shared.pool.freeList →
    cfg.shared.store.txns (pool, conn) = none
  released : ∀ i pool k conn, cfg.prog i = .cmd (.relDBConn pool) k →
    cfg.shared.Holds i (pool, conn) → cfg.shared.store.txns (pool, conn) = none
  immediate : ∀ i u n g', cfg.shared.conns.txn i = false →
    (backend ι κ).step i (.update u) cfg.shared (some n) g' ∨
      (backend ι κ).step i (.execute u) cfg.shared (some n) g' →
    g'.store.txns = cfg.shared.store.txns ∧
      g'.store.committed = Journal.apply (i, u) cfg.shared.store.committed
  pending : ∀ conn txn, cfg.shared.store.txns conn = some txn →
    ∃ i, cfg.shared.conns.txn i = true ∧ cfg.shared.OwnedBy txn conn i ∧
      ∀ j c r g', j ≠ i → (backend ι κ).step j c cfg.shared r g' →
        g'.store.txns conn = some txn

theorem Keeps.ownTransactions {q : ι → Held × Bool} (h : Keeps maxConnCnt cfg q) :
    OwnTransactions cfg := by
  have hsep := h.1
  have hinside : ∀ i, cfg.shared.conns.txn i = (q i).2 := fun i =>
    (hsep.conns.txn i).trans (hsep.inside i)
  refine ⟨fun pool conn => hsep.free, ?_, ?_, ?_⟩
  · intro i pool k conn hprog hheld
    have hsafe := Simulates.safe_of_cmd h hprog
    exact hsep.closed (hsafe.2 pool rfl) hheld
  · intro i u n g' hi hstep
    have hexec : executes i u cfg.shared (some n) g'.store :=
      hstep.elim (fun hupdate => hupdate.2) fun hexecute => hexecute.2
    rcases hexec with ⟨hnone, _⟩ | ⟨conn, n, t, hheld, _, _, hstore⟩
    · cases hnone
    · rw [hinside] at hi
      rw [hstore, Store.execute, hsep.closed hi hheld]
      exact ⟨rfl, rfl⟩
  · intro conn txn htxn
    obtain ⟨i, hi, howned⟩ := hsep.owner conn txn htxn
    refine ⟨i, (hinside i).trans hi, howned, fun j c r g' hj hstep => ?_⟩
    refine (effect_other hstep.2 ?_).trans htxn
    rintro conn' hheld rfl
    exact hj (hsep.conns.oneHolder hheld howned.1)

/-! ## What took effect stays -/

omit [DecidableEq ι] in
theorem effects_applyAll (writes : List (ι × Update)) (journal : Journal ι) :
    journal.effects <+: (Store.applyAll Journal.apply writes journal).effects := by
  induction writes generalizing journal with
  | nil => exact List.prefix_refl _
  | cons write writes ih =>
      exact (List.prefix_append _ _).trans (ih (Journal.apply write journal))

omit [DecidableEq ι] in
theorem effects_commit (store : Store (DBInstance × κ) (Journal ι) (ι × Update) Empty)
    (conn : DBInstance × κ) :
    store.committed.effects <+: (store.commit Journal.apply conn).committed.effects := by
  unfold Store.commit
  split
  · exact List.prefix_refl _
  · exact effects_applyAll _ _

omit [DecidableEq ι] in
theorem effects_execute (store : Store (DBInstance × κ) (Journal ι) (ι × Update) Empty)
    (conn : DBInstance × κ) (writes : List (ι × Update)) :
    store.committed.effects <+: (store.execute Journal.apply conn [] writes).committed.effects := by
  unfold Store.execute
  split
  · exact effects_applyAll _ _
  · exact List.prefix_refl _

omit [DecidableEq ι] in
theorem effects_effect {i : ι} {c : Server.Command} {g : Backend ι κ} {r : c.Reply}
    {store : Store (DBInstance × κ) (Journal ι) (ι × Update) Empty} (h : effect i c g r store) :
    g.store.committed.effects <+: store.committed.effects := by
  have hexec : ∀ {u n}, executes i u g n store →
      g.store.committed.effects <+: store.committed.effects := by
    rintro u n (⟨_, rfl⟩ | ⟨conn', n, t, hheld, _, _, rfl⟩)
    · exact List.prefix_refl _
    · exact effects_execute _ _ _
  cases c with
  | update u => exact hexec h
  | execute u => exact hexec h
  | startTransaction =>
      obtain ⟨_, conn, _, rfl⟩ := h
      exact effects_commit g.store conn
  | commit =>
      obtain ⟨_, conn, _, rfl⟩ := h
      exact effects_commit g.store conn
  | rollback =>
      obtain ⟨_, conn, _, rfl⟩ := h
      exact List.prefix_refl _
  | _ =>
      have hstore : store = g.store := h
      rw [hstore]

theorem effects_reachable {cfg' : BackendConfig ι κ} (h : Reachable (backend ι κ) cfg cfg') :
    cfg.shared.store.committed.effects <+: cfg'.shared.store.committed.effects := by
  induction h with
  | refl => exact List.prefix_refl _
  | tail _ hlast ih =>
      refine ih.trans ?_
      cases hlast with
      | cmd i hprog hcmd => exact effects_effect hcmd.2
      | pause i hprog hpause => rw [hpause.2]
      | fault i hprog hfault =>
          have hsame : _ = _ := hfault
          rw [hsame]
      | env henv =>
          rcases henv with ⟨_, hstore⟩ | ⟨conn, hrollback⟩
          · rw [hstore]
          · rw [hrollback]
            exact List.prefix_refl _

end Runs

/-- In every state of every run: no connection in a pool or on its way there has an open
transaction, what a request writes outside its transaction takes effect at once and for
good, and only its own commit or rollback decides what it writes inside. -/
theorem backendReachable_ownTransactions (maxConnCnt : PoolId → Int) (cfg : BackendConfig ι κ)
    (h : BackendReachable maxConnCnt cfg) :
    OwnTransactions cfg ∧ ∀ cfg', Reachable (backend ι κ) cfg cfg' →
      cfg.shared.store.committed.effects <+: cfg'.shared.store.committed.effects := by
  obtain ⟨requests, init, hstart, hreach⟩ := h
  obtain ⟨q, hkeeps⟩ := keeps_of_reachable hstart.keeps hreach
  exact ⟨hkeeps.ownTransactions, fun cfg' => effects_reachable⟩

/-- Every request downloads the shared file. -/
def sampleDownload : Request :=
  .dealsharefile (fun _ => some (.obj [(CString.lit "user", .str (CString.lit "u")),
    (CString.lit "md5", .str (CString.lit "m")), (CString.lit "filename", .str (CString.lit "a"))]))
    [99, 109, 100, 61, 112, 118] []

def sampleTables : Tables :=
  { Tables.empty with
    shareFileList := [⟨CString.lit "u", CString.lit "m", CString.empty, CString.lit "a", 0⟩] }

def sampleBackend (pools : PoolId → PoolThreads Nat Nat) (txn : Nat → Bool)
    (txns : DBInstance × Nat → Option (Txn (Nat × Update) Empty)) : Backend Nat Nat :=
  ⟨⟨pools, txn⟩, ⟨⟨sampleTables, []⟩, txns, fun _ => none, []⟩⟩

def sampleDownloads : BackendConfig Nat Nat :=
  ⟨sampleBackend samplePool (fun _ => false) fun _ => none, fun _ => sampleDownload.prog⟩

theorem starts_sampleDownloads :
    BackendStarts (fun _ => 1) (fun _ => sampleDownload) sampleDownloads where
  starts := ⟨starts_sampleServer.pools, fun _ => rfl, fun _ => rfl, fun _ => rfl⟩
  closed _ := rfl

/-- Request 1 holds a connection to the slave. -/
def samplePoolsDB : PoolId → PoolThreads Nat Nat :=
  Function.update samplePool (.db .tuchuangSlave) ⟨sampleFull, .empty⟩

/-- And one to Redis. -/
def samplePoolsBoth : PoolId → PoolThreads Nat Nat :=
  Function.update samplePoolsDB .cache ⟨⟨⟨[1], 2, 1, false⟩, [(1, 0)], false⟩, .empty⟩

theorem answer_samplePool : answer 1 (.getDBConn .tuchuangSlave) ⟨samplePool, fun _ => false⟩ .conn
    ⟨samplePoolsDB, fun _ => false⟩ := by
  have hstep : Monitor.Step (connMonitor Nat Nat) ⟨sampleFree, .empty⟩
      (some (1, .get 0, some (some 0))) ⟨sampleFull, .empty⟩ :=
    .returns (.enters (by decide)) body_sampleFree rfl
  exact ⟨some 0, rfl, ⟨sampleFull, .empty⟩, hstep, rfl⟩

theorem answer_samplePoolsDB : answer 1 .getCacheConn ⟨samplePoolsDB, fun _ => false⟩ .conn
    ⟨samplePoolsBoth, fun _ => false⟩ := by
  have hbody : Body false 1 (.get 0) ⟨⟨[0, 1], 2, 1, false⟩, [], false⟩ (.returns (some 0) false)
      (⟨⟨[1], 2, 1, false⟩, [(1, 0)], false⟩ : PoolState Nat Nat) := .enter 0 none (by simp)
  exact ⟨some 0, rfl, _, .returns (.enters (by decide)) hbody rfl, rfl⟩

/-- Inside its transaction. -/
def sampleInside (writes : List (Nat × Update)) : Backend Nat Nat :=
  sampleBackend samplePoolsBoth (Function.update (fun _ => false) 1 true)
    (Function.update (fun _ => none) (.tuchuangSlave, 0) (some ⟨writes, []⟩))

theorem holds_samplePoolsBoth (txn : Nat → Bool)
    (txns : DBInstance × Nat → Option (Txn (Nat × Update) Empty)) :
    (sampleBackend samplePoolsBoth txn txns).Holds 1 (.tuchuangSlave, 0) := by
  show (1, 0) ∈ sampleFull.held
  decide

def sampleWrite : Update := .setShareFilePv (CString.lit "m") (CString.lit "a") 1

theorem sampleInside_conns (writes writes' : List (Nat × Update)) :
    (sampleInside writes').conns = { (sampleInside writes).conns with
      txn := Function.update (sampleInside writes).conns.txn 1 true } := by
  simp [sampleInside, sampleBackend]

/-- Request 1 takes its connections, begins its transaction and writes. -/
theorem reachable_sampleInside :
    ∃ prog, BackendReachable (fun _ => 1) ⟨sampleInside [(1, sampleWrite)], prog⟩ := by
  have hdb : (backend Nat Nat).step 1 (.getDBConn .tuchuangSlave) sampleDownloads.shared .conn
      (sampleBackend samplePoolsDB (fun _ => false) fun _ => none) := ⟨answer_samplePool, rfl⟩
  have hcache : (backend Nat Nat).step 1 .getCacheConn
      (sampleBackend samplePoolsDB (fun _ => false) fun _ => none) .conn
      (sampleBackend samplePoolsBoth (fun _ => false) fun _ => none) := ⟨answer_samplePoolsDB, rfl⟩
  have hbegin : (backend Nat Nat).step 1 .startTransaction
      (sampleBackend samplePoolsBoth (fun _ => false) fun _ => none) true (sampleInside []) :=
    ⟨rfl, rfl, (.tuchuangSlave, 0), holds_samplePoolsBoth _ _, rfl⟩
  have hquery : (backend Nat Nat).step 1
      (.query (.shareFilePvForUpdate (CString.lit "m") (CString.lit "a"))) (sampleInside [])
      (some [0]) (sampleInside []) := ⟨sampleInside_conns [] [], rfl⟩
  have hupdate : (backend Nat Nat).step 1 (.update sampleWrite) (sampleInside []) (some 1)
      (sampleInside [(1, sampleWrite)]) := by
    obtain ⟨t, hexec⟩ : ∃ t, sampleWrite.exec sampleTables = some (1, t) := ⟨_, rfl⟩
    refine ⟨sampleInside_conns [] _, Or.inr ⟨(.tuchuangSlave, 0), 1, t, ?_, ?_, rfl, ?_⟩⟩
    · exact holds_samplePoolsBoth _ _
    · simpa [sampleInside, sampleBackend, Store.view, Store.applyAll] using hexec
    · simp [sampleInside, sampleBackend, Store.execute]
  have hstart : Reachable (backend Nat Nat) sampleDownloads sampleDownloads := .refl
  obtain ⟨prog, hreach, hprog⟩ := hstart.cmd rfl hdb
  obtain ⟨prog, hreach, hprog⟩ := hreach.cmd hprog hcache
  obtain ⟨prog, hreach, hprog⟩ := hreach.cmd hprog hbegin
  obtain ⟨prog, hreach, hprog⟩ := hreach.cmd hprog hquery
  obtain ⟨prog, hreach, hprog⟩ := hreach.cmd hprog hupdate
  exact ⟨prog, _, sampleDownloads, starts_sampleDownloads, hreach⟩

/-- Its write waits, and is left to it. -/
theorem backendReachable_ownTransactions_download :
    ∃ cfg : BackendConfig Nat Nat, OwnTransactions cfg ∧
      cfg.shared.store.txns (.tuchuangSlave, 0) = some ⟨[(1, sampleWrite)], []⟩ := by
  obtain ⟨prog, hreach⟩ := reachable_sampleInside
  have hown := (backendReachable_ownTransactions (fun _ => 1) _ hreach).1
  exact ⟨_, hown, by simp [sampleInside, sampleBackend]⟩

end Pool
end TcMuzi
