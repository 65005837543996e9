import TcMuzi.Redis.CacheConn

/-!
# Sequential runs in which every command succeeds

`World` is what the requests share: the tables, the tables at the start of an open
transaction, and the Redis keyspace.  `ok` gives every SQL statement and every Redis
command its effect and leaves the connections and the system calls any answer.  The
`wp_ok_…` rules say what the wrappers of a connection do under `ok`, so that the
proofs about handlers never look inside them.
-/

namespace TcMuzi
namespace Server

open Base Redis

structure World where
  db : Mysql.Tables
  snapshot : Option Mysql.Tables
  redis : Keyspace

/-- Empty tables and an empty keyspace. -/
def World.empty : World := ⟨Mysql.Tables.empty, none, ∅⟩

/-- The reply to a command that succeeds and the world after it. -/
def okStep : (c : Command) → World → c.Reply → World → Prop
  | .query q, w, r, w' => ∃ rows, q.exec w.db = some rows ∧ r = some rows ∧ w' = w
  | .update u, w, r, w' => ∃ n t, u.exec w.db = some (n, t) ∧ r = some n ∧ w' = { w with db := t }
  | .execute u, w, r, w' =>
      ∃ n t, u.exec w.db = some (n, t) ∧ r = some n ∧ w' = { w with db := t }
  | .startTransaction, w, r, w' => r = true ∧ w' = { w with snapshot := some w.db }
  | .commit, w, r, w' => r = true ∧ w' = { w with snapshot := none }
  | .rollback, w, r, w' =>
      r = true ∧ w' = { w with db := w.snapshot.getD w.db, snapshot := none }
  | .prepare, w, r, w' => r = true ∧ w' = w
  | .redis c, w, r, w' =>
      (c.exec w.redis).1.isError = false ∧ r = .reply (c.exec w.redis).1 ∧
        w' = { w with redis := (c.exec w.redis).2 }
  | .getDBConn _, w, _, w' => w' = w
  | .relDBConn _, w, _, w' => w' = w
  | .getCacheConn, w, _, w' => w' = w
  | .relCacheConn, w, _, w' => w' = w
  | .sys _, w, _, w' => w' = w

def ok : Lib.Sem Command Command.Reply World where
  step := okStep

/-- The same, as a function of what the system calls answer; the pools have a
connection. -/
def okReply (sys : (c : SysCall) → c.Ret) : (c : Command) → World → Option (c.Reply × World)
  | .query q, w => (q.exec w.db).map fun rows => (some rows, w)
  | .update u, w => (u.exec w.db).map fun (n, t) => (some n, { w with db := t })
  | .execute u, w => (u.exec w.db).map fun (n, t) => (some n, { w with db := t })
  | .startTransaction, w => some (true, { w with snapshot := some w.db })
  | .commit, w => some (true, { w with snapshot := none })
  | .rollback, w => some (true, { w with db := w.snapshot.getD w.db, snapshot := none })
  | .prepare, w => some (true, w)
  | .redis c, w =>
      if (c.exec w.redis).1.isError then none
      else some (.reply (c.exec w.redis).1, { w with redis := (c.exec w.redis).2 })
  | .getDBConn _, w => some (.conn, w)
  | .relDBConn _, w => some ((), w)
  | .getCacheConn, w => some (.conn, w)
  | .relCacheConn, w => some ((), w)
  | .sys c, w => some (sys c, w)

/-- System calls of a machine on which the FastDFS tools and the short-link service
answer, at a fixed time. -/
def sampleSys : (c : SysCall) → c.Ret
  | .currentTime => CString.lit "2024-05-01 12:00:00"
  | .randomString len => CString.cStr (List.replicate len 97)
  | .spawnUUID => CString.lit "01234567-89ab-4cde-8f01-23456789abcd"
  | .uninitialised => CString.empty
  | .system _ => 0
  | .rename _ _ => 0
  | .unlink _ => 0
  | .pipe => 0
  | .fork => .parent
  | .execlp .. => ()
  | .readPipe _ => (CString.lit "source ip address: 10.0.0.1\n").bytes
  | .calloc .. => true
  | .getShortUrl url => some url

/-- What an empty Redis answers. -/
def emptyRedis (c : Redis.Command) : RedisResult := .reply (c.exec ∅).1

/-- What `okReply` answers, `ok` allows. -/
theorem okStep_of_okReply (sys : (c : SysCall) → c.Ret) (c : Command) (w : World) (r : c.Reply)
    (w' : World) (h : okReply sys c w = some (r, w')) : okStep c w r w' := by
  cases c with
  | query q =>
      obtain ⟨rows, hrows, hreply⟩ := Option.map_eq_some_iff.mp h
      cases hreply
      exact ⟨rows, hrows, rfl, rfl⟩
  | update u =>
      obtain ⟨⟨n, t⟩, hexec, hreply⟩ := Option.map_eq_some_iff.mp h
      cases hreply
      exact ⟨n, t, hexec, rfl, rfl⟩
  | execute u =>
      obtain ⟨⟨n, t⟩, hexec, hreply⟩ := Option.map_eq_some_iff.mp h
      cases hreply
      exact ⟨n, t, hexec, rfl, rfl⟩
  | redis c =>
      by_cases herr : (c.exec w.redis).1.isError
      · have hnone : okReply sys (.redis c) w = none := if_pos herr
        rw [hnone] at h
        cases h
      · have hsome : okReply sys (.redis c) w =
            some (.reply (c.exec w.redis).1, { w with redis := (c.exec w.redis).2 }) := if_neg herr
        rw [hsome] at h
        cases h
        exact ⟨by simpa using herr, rfl, rfl⟩
  | startTransaction => cases h; exact ⟨rfl, rfl⟩
  | commit => cases h; exact ⟨rfl, rfl⟩
  | rollback => cases h; exact ⟨rfl, rfl⟩
  | prepare => cases h; exact ⟨rfl, rfl⟩
  | getDBConn pool => cases h; rfl
  | relDBConn pool => cases h; rfl
  | getCacheConn => cases h; rfl
  | relCacheConn => cases h; rfl
  | sys c => cases h; rfl

/-! ## Connections -/

@[simp] theorem ok_mayFail (w : World) : ok.mayFail w := trivial

/-- A command that leaves the world alone answers anything. -/
theorem wp_ok_idle {c : Command} (hc : ∀ w r w', okStep c w r w' ↔ w' = w)
    (Q : c.Reply → World → Prop) (w : World) : Lib.wp ok (issue c) Q w ↔ ∀ r, Q r w := by
  constructor
  · intro h r
    exact h.2 r w ((hc w r w).mpr rfl)
  · intro h
    refine ⟨trivial, fun r w' hw => ?_⟩
    obtain rfl := (hc w r w').mp hw
    exact h r

@[simp] theorem wp_ok_getDBConn (pool : DBInstance) (Q : Ptr → World → Prop) (w : World) :
    Lib.wp ok (getDBConn pool) Q w ↔ ∀ ptr, Q ptr w :=
  @wp_ok_idle (.getDBConn pool) (fun _ _ _ => Iff.rfl) Q w

@[simp] theorem wp_ok_relDBConn (pool : DBInstance) (Q : Unit → World → Prop) (w : World) :
    Lib.wp ok (relDBConn pool) Q w ↔ ∀ u, Q u w :=
  @wp_ok_idle (.relDBConn pool) (fun _ _ _ => Iff.rfl) Q w

@[simp] theorem wp_ok_getCacheConn (Q : Ptr → World → Prop) (w : World) :
    Lib.wp ok getCacheConn Q w ↔ ∀ ptr, Q ptr w :=
  @wp_ok_idle .getCacheConn (fun _ _ _ => Iff.rfl) Q w

@[simp] theorem wp_ok_relCacheConn (Q : Unit → World → Prop) (w : World) :
    Lib.wp ok relCacheConn Q w ↔ ∀ u, Q u w :=
  @wp_ok_idle .relCacheConn (fun _ _ _ => Iff.rfl) Q w

@[simp] theorem wp_ok_currentTime (Q : CString → World → Prop) (w : World) :
    Lib.wp ok currentTime Q w ↔ ∀ t, Q t w :=
  @wp_ok_idle (.sys .currentTime) (fun _ _ _ => Iff.rfl) Q w

@[simp] theorem wp_ok_system (cmd : CString) (Q : Int → World → Prop) (w : World) :
    Lib.wp ok (system cmd) Q w ↔ ∀ ret, Q ret w :=
  @wp_ok_idle (.sys (.system cmd)) (fun _ _ _ => Iff.rfl) Q w

@[simp] theorem wp_ok_withDBConn {α : Type} (pool : DBInstance) (body : Ptr → Handler α)
    (Q : α → World → Prop) (w : World) :
    Lib.wp ok (withDBConn pool body) Q w ↔ ∀ ptr, Lib.wp ok (body ptr) Q w := by
  rw [withDBConn, Lib.wp_bind, wp_ok_getDBConn]
  refine forall_congr' fun ptr => ?_
  rw [Lib.wp_bind]
  cases ptr with
  | null => rfl
  | conn => simp

@[simp] theorem wp_ok_withCacheConn {α : Type} (body : Ptr → Handler α) (Q : α → World → Prop)
    (w : World) :
    Lib.wp ok (withCacheConn body) Q w ↔ ∀ ptr, Lib.wp ok (body ptr) Q w := by
  rw [withCacheConn, Lib.wp_bind, wp_ok_getCacheConn]
  refine forall_congr' fun ptr => ?_
  rw [Lib.wp_bind]
  cases ptr with
  | null => rfl
  | conn => simp

/-- A call of a NULL connection returns nothing. -/
@[simp] theorem wp_ok_onConn {α : Type} (ptr : Ptr) (call : Handler α) (Q : α → World → Prop)
    (w : World) :
    Lib.wp ok (onConn ptr call) Q w ↔ (ptr = .conn → Lib.wp ok call Q w) := by
  cases ptr with
  | null => simp
  | conn => simp

/-! ## SQL -/

theorem wp_ok_query (q : Mysql.Query) (Q : Option (List q.Row) → World → Prop) (w : World) :
    Lib.wp ok (query q) Q w ↔ ∀ rows, q.exec w.db = some rows → Q (some rows) w := by
  constructor
  · intro h rows hrows
    exact h.2 _ _ ⟨rows, hrows, rfl, rfl⟩
  · intro h
    refine ⟨trivial, ?_⟩
    rintro r w' ⟨rows, hrows, rfl, rfl⟩
    exact h rows hrows

@[simp] theorem wp_ok_update (u : Mysql.Update) (Q : Option Nat → World → Prop) (w : World) :
    Lib.wp ok (update u) Q w ↔
      ∀ n t, u.exec w.db = some (n, t) → Q (some n) { w with db := t } := by
  constructor
  · intro h n t hexec
    exact h.2 _ _ ⟨n, t, hexec, rfl, rfl⟩
  · intro h
    refine ⟨trivial, ?_⟩
    rintro r w' ⟨n, t, hexec, rfl, rfl⟩
    exact h n t hexec

@[simp] theorem wp_ok_beginTransaction (Q : Bool → World → Prop) (w : World) :
    Lib.wp ok beginTransaction Q w ↔ Q true { w with snapshot := some w.db } := by
  constructor
  · intro h
    exact h.2 _ _ ⟨rfl, rfl⟩
  · intro h
    refine ⟨trivial, ?_⟩
    rintro r w' ⟨rfl, rfl⟩
    exact h

@[simp] theorem wp_ok_commitTransaction (Q : Bool → World → Prop) (w : World) :
    Lib.wp ok commitTransaction Q w ↔ Q true { w with snapshot := none } := by
  constructor
  · intro h
    exact h.2 _ _ ⟨rfl, rfl⟩
  · intro h
    refine ⟨trivial, ?_⟩
    rintro r w' ⟨rfl, rfl⟩
    exact h

@[simp] theorem wp_ok_rollbackTransaction (Q : Bool → World → Prop) (w : World) :
    Lib.wp ok rollbackTransaction Q w ↔
      Q true { w with db := w.snapshot.getD w.db, snapshot := none } := by
  constructor
  · intro h
    exact h.2 _ _ ⟨rfl, rfl⟩
  · intro h
    refine ⟨trivial, ?_⟩
    rintro r w' ⟨rfl, rfl⟩
    exact h

/-- `ExecuteQuery` answers the result set. -/
theorem wp_ok_executeQuery (ptr : Ptr) (q : Mysql.Query) (Q : Option (List q.Row) → World → Prop)
    (w : World) :
    Lib.wp ok (executeQuery ptr q) Q w ↔
      (ptr = .conn → ∀ rows, q.exec w.db = some rows → Q (some rows) w) := by
  rw [executeQuery, wp_ok_onConn, wp_ok_query]

/-- `ExecuteUpdate` answers whether a row changed, when it cares. -/
@[simp] theorem wp_ok_executeUpdate (ptr : Ptr) (u : Mysql.Update) (careAffectedRows : Bool)
    (Q : Bool → World → Prop) (w : World) :
    Lib.wp ok (executeUpdate ptr u careAffectedRows) Q w ↔
      (ptr = .conn → ∀ n t, u.exec w.db = some (n, t) →
        Q (decide (0 < n) || !careAffectedRows) { w with db := t }) := by
  simp [executeUpdate]

@[simp] theorem wp_ok_executeCreate (ptr : Ptr) (u : Mysql.Update) (Q : Bool → World → Prop)
    (w : World) :
    Lib.wp ok (executeCreate ptr u) Q w ↔
      (ptr = .conn → ∀ n t, u.exec w.db = some (n, t) → Q true { w with db := t }) := by
  simp [executeCreate]

@[simp] theorem wp_ok_executeDrop (ptr : Ptr) (u : Mysql.Update) (Q : Bool → World → Prop)
    (w : World) :
    Lib.wp ok (executeDrop ptr u) Q w ↔
      (ptr = .conn → ∀ n t, u.exec w.db = some (n, t) → Q true { w with db := t }) :=
  wp_ok_executeCreate ptr u Q w

@[simp] theorem wp_ok_startTransaction (ptr : Ptr) (Q : Bool → World → Prop) (w : World) :
    Lib.wp ok (startTransaction ptr) Q w ↔
      (ptr = .conn → Q true { w with snapshot := some w.db }) := by
  simp [startTransaction]

@[simp] theorem wp_ok_commit (ptr : Ptr) (Q : Bool → World → Prop) (w : World) :
    Lib.wp ok (commit ptr) Q w ↔ (ptr = .conn → Q true { w with snapshot := none }) := by
  simp [commit]

@[simp] theorem wp_ok_rollback (ptr : Ptr) (Q : Bool → World → Prop) (w : World) :
    Lib.wp ok (rollback ptr) Q w ↔
      (ptr = .conn → Q true { w with db := w.snapshot.getD w.db, snapshot := none }) := by
  simp [rollback]

/-! ## Redis -/

/-- A Redis command answers what its execution answers, and no error. -/
theorem wp_ok_redisCommand (ptr : Ptr) (c : Redis.Command) (Q : RedisResult → World → Prop)
    (w : World) :
    Lib.wp ok (CacheConn.redisCommand ptr c) Q w ↔
      (ptr = .conn → (c.exec w.redis).1.isError = false →
        Q (.reply (c.exec w.redis).1) { w with redis := (c.exec w.redis).2 }) := by
  rw [CacheConn.redisCommand, wp_ok_onConn]
  refine imp_congr_right fun _ => ?_
  constructor
  · intro h hok
    exact h.2 _ _ ⟨hok, rfl, rfl⟩
  · intro h
    refine ⟨trivial, ?_⟩
    rintro r w' ⟨hok, rfl, rfl⟩
    exact h hok

/-- The parts of a handler that only talk to Redis leave the tables alone. -/
def RedisOnly : Command → Prop
  | .redis _ => True
  | _ => False

theorem wp_ok_of_redisOnly {α : Type} {p : Handler α} (hp : Lib.Uses RedisOnly p)
    {Q : α → World → Prop} {w : World} (hQ : ∀ a ks, Q a { w with redis := ks }) :
    Lib.wp ok p Q w := by
  have hkeep : Lib.wp ok p (fun _ w' => ∃ ks, w' = { w with redis := ks }) w := by
    refine Lib.wp_of_uses (fun _ _ _ _ => trivial) ?_ (fun _ _ => trivial) hp ⟨w.redis, rfl⟩
    rintro c s r s' hc ⟨ks, rfl⟩ hstep
    cases c with
    | redis c =>
        obtain ⟨_, _, rfl⟩ := hstep
        exact ⟨_, rfl⟩
    | _ => exact absurd hc id
  refine Lib.wp_mono hkeep ?_
  rintro a w' ⟨ks, rfl⟩
  exact hQ a ks

end Server
end TcMuzi
