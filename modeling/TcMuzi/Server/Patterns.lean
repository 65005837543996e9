import TcMuzi.Redis.Sequential

/-!
# Runs with a pattern of failures

`Surroundings` fixes for every command what becomes of it, and what the system answers; no
handler issues a command twice, so that these are all patterns of failures of a run.  The
state of a run is the world and a log of the writes with whether they took effect.
-/

namespace TcMuzi
namespace Server

open Base Redis Lib

/-! ## Patterns -/

/-- A command is answered; or it is executed and the answer is lost; or it is not executed,
because the connection breaks, the server refuses it or it cannot be reached. -/
inductive Fate
  | answered
  | lost
  | broken
  | refused (text : CString)
  | unreachable
deriving DecidableEq

def Fate.executes : Fate → Bool
  | .answered => true
  | .lost => true
  | _ => false

structure Surroundings where
  fate : Command → Fate
  sys : (c : SysCall) → c.Ret

structure Recorded where
  world : World
  log : List (Command × Bool)

/-- The commands that are written into the log. -/
def isLogged : Command → Bool
  | .update _ => true
  | .execute _ => true
  | .startTransaction => true
  | .commit => true
  | .rollback => true
  | .redis (.get _) => false
  | .redis (.hget _ _) => false
  | .redis (.zscore _ _) => false
  | .redis (.zrevrange _ _ _) => false
  | .redis _ => true
  | _ => false

/-- The world after a command is executed, and whether it answers no error. -/
def effectOf : Command → World → World × Bool
  | .update u, w => ((u.exec w.db).elim w fun out => { w with db := out.2 }, (u.exec w.db).isSome)
  | .execute u, w => ((u.exec w.db).elim w fun out => { w with db := out.2 }, (u.exec w.db).isSome)
  | .startTransaction, w => ({ w with snapshot := some w.db }, true)
  | .commit, w => ({ w with snapshot := none }, true)
  | .rollback, w => ({ w with db := w.snapshot.getD w.db, snapshot := none }, true)
  | .redis c, w => (withRedis w (c.exec w.redis).2, !(c.exec w.redis).1.isError)
  | _, w => (w, true)

namespace Surroundings

variable (E : Surroundings)

/-- What hiredis answers. -/
def redisReply (c : Redis.Command) (ks : Keyspace) : RedisResult :=
  match E.fate (.redis c) with
  | .answered => .reply (c.exec ks).1
  | .refused text => .reply (.error text)
  | .unreachable => .initFailed
  | .lost => .noReply
  | .broken => .noReply

def reply : (c : Command) → World → c.Reply
  | .query q, w => if E.fate (.query q) = .answered then q.exec w.db else none
  | .update u, w => if E.fate (.update u) = .answered then (u.exec w.db).map Prod.fst else none
  | .execute u, w => if E.fate (.execute u) = .answered then (u.exec w.db).map Prod.fst else none
  | .startTransaction, _ => decide (E.fate .startTransaction = .answered)
  | .commit, _ => decide (E.fate .commit = .answered)
  | .rollback, _ => decide (E.fate .rollback = .answered)
  | .prepare, _ => decide (E.fate .prepare = .answered)
  | .getDBConn pool, _ => if E.fate (.getDBConn pool) = .answered then .conn else .null
  | .getCacheConn, _ => if E.fate .getCacheConn = .answered then .conn else .null
  | .relDBConn _, _ => ()
  | .relCacheConn, _ => ()
  | .redis c, w => E.redisReply c w.redis
  | .sys c, _ => E.sys c

/-- The world after a command, and whether it took effect. -/
def outcome (c : Command) (w : World) : World × Bool :=
  if (E.fate c).executes then effectOf c w else (w, false)

def next (c : Command) (s : Recorded) : Recorded :=
  ⟨(E.outcome c s.world).1,
    if isLogged c then s.log ++ [(c, (E.outcome c s.world).2)] else s.log⟩

end Surroundings

def patterned (E : Surroundings) : Sem Command Command.Reply Recorded where
  step c s r s' := r = E.reply c s.world ∧ s' = E.next c s

/-- A pattern determines the run. -/
theorem patterned_of_reply (E : Surroundings) {c : Command} {s s' : Recorded} {r : c.Reply}
    (h : some (E.reply c s.world, E.next c s) = some (r, s')) : (patterned E).step c s r s' := by
  cases h
  exact ⟨rfl, rfl⟩

/-! ## Rules -/

section Rules

variable {E : Surroundings} {α : Type} {s : Recorded}

theorem wp_pattern_issue {c : Command} {Q : c.Reply → Recorded → Prop} :
    wp (patterned E) (issue c) Q s ↔ Q (E.reply c s.world) (E.next c s) := by
  constructor
  · exact fun h => h.2 _ _ ⟨rfl, rfl⟩
  · intro h
    refine ⟨trivial, ?_⟩
    rintro r s' ⟨rfl, rfl⟩
    exact h

/-- A command that changes nothing and is not logged. -/
theorem next_idle {c : Command} (hlog : isLogged c = false) (heffect : ∀ w, (effectOf c w).1 = w) :
    E.next c s = s := by
  unfold Surroundings.next Surroundings.outcome
  rw [hlog]
  split
  · rw [heffect]
    rfl
  · rfl

theorem wp_pattern_onConn {ptr : Ptr} {call : Handler α} {Q : α → Recorded → Prop} :
    wp (patterned E) (onConn ptr call) Q s ↔ (ptr = .conn → wp (patterned E) call Q s) := by
  cases ptr with
  | null => exact iff_of_true trivial nofun
  | conn => exact ⟨fun h _ => h, fun h => h rfl⟩

theorem wp_pattern_withDBConn {pool : DBInstance} {body : Ptr → Handler α}
    {Q : α → Recorded → Prop} :
    wp (patterned E) (withDBConn pool body) Q s ↔
      wp (patterned E) (body (E.reply (.getDBConn pool) s.world)) Q s := by
  rw [withDBConn, wp_bind, getDBConn, wp_pattern_issue, wp_bind, next_idle rfl fun _ => rfl]
  cases E.reply (.getDBConn pool) s.world with
  | null => exact Iff.rfl
  | conn =>
      have hrel : ∀ (a : α) (s' : Recorded), wp (patterned E)
          (relDBConn pool >>= fun _ => (return a : Handler α)) Q s' ↔ Q a s' := by
        intro a s'
        rw [wp_bind, relDBConn, wp_pattern_issue, next_idle rfl fun _ => rfl]
        exact Iff.rfl
      exact ⟨fun h => wp_mono h fun a s' hs => (hrel a s').mp hs,
        fun h => wp_mono h fun a s' hs => (hrel a s').mpr hs⟩

theorem wp_pattern_withCacheConn {body : Ptr → Handler α} {Q : α → Recorded → Prop} :
    wp (patterned E) (withCacheConn body) Q s ↔
      wp (patterned E) (body (E.reply .getCacheConn s.world)) Q s := by
  rw [withCacheConn, wp_bind, getCacheConn, wp_pattern_issue, wp_bind, next_idle rfl fun _ => rfl]
  cases E.reply .getCacheConn s.world with
  | null => exact Iff.rfl
  | conn =>
      have hrel : ∀ (a : α) (s' : Recorded), wp (patterned E)
          (relCacheConn >>= fun _ => (return a : Handler α)) Q s' ↔ Q a s' := by
        intro a s'
        rw [wp_bind, relCacheConn, wp_pattern_issue, next_idle rfl fun _ => rfl]
        exact Iff.rfl
      exact ⟨fun h => wp_mono h fun a s' hs => (hrel a s').mp hs,
        fun h => wp_mono h fun a s' hs => (hrel a s').mpr hs⟩

theorem wp_pattern_executeQuery {ptr : Ptr} {q : Mysql.Query}
    {Q : Option (List q.Row) → Recorded → Prop} :
    wp (patterned E) (executeQuery ptr q) Q s ↔
      (ptr = .conn → Q (if E.fate (.query q) = .answered then q.exec s.world.db else none) s) := by
  rw [executeQuery, wp_pattern_onConn, query, wp_pattern_issue, next_idle rfl fun _ => rfl]
  exact Iff.rfl

/-- A statement that MySQL accepts. -/
theorem wp_pattern_executeUpdate {ptr : Ptr} {u : Mysql.Update} {care : Bool} {n : Nat}
    {t : Mysql.Tables} (hexec : u.exec s.world.db = some (n, t)) {Q : Bool → Recorded → Prop} :
    wp (patterned E) (executeUpdate ptr u care) Q s ↔
      (ptr = .conn →
        Q (decide (E.fate (.update u) = .answered) && (decide (0 < n) || !care))
          (E.next (.update u) s)) := by
  rw [executeUpdate, wp_pattern_onConn, wp_bind, update, wp_pattern_issue]
  refine imp_congr_right fun _ => ?_
  by_cases hfate : E.fate (.update u) = .answered
  · simp [Surroundings.reply, hfate, hexec]
  · simp [Surroundings.reply, hfate]

theorem wp_pattern_executeCreate {ptr : Ptr} {u : Mysql.Update} {n : Nat} {t : Mysql.Tables}
    (hexec : u.exec s.world.db = some (n, t)) {Q : Bool → Recorded → Prop} :
    wp (patterned E) (executeCreate ptr u) Q s ↔
      (ptr = .conn → Q (decide (E.fate (.update u) = .answered)) (E.next (.update u) s)) := by
  rw [executeCreate, wp_pattern_onConn, wp_bind, update, wp_pattern_issue]
  refine imp_congr_right fun _ => ?_
  by_cases hfate : E.fate (.update u) = .answered
  · simp [Surroundings.reply, hfate, hexec]
  · simp [Surroundings.reply, hfate]

theorem wp_pattern_redisCommand {ptr : Ptr} {c : Redis.Command} {Q : RedisResult → Recorded → Prop} :
    wp (patterned E) (CacheConn.redisCommand ptr c) Q s ↔
      (ptr = .conn → Q (E.redisReply c s.world.redis) (E.next (.redis c) s)) := by
  rw [CacheConn.redisCommand, wp_pattern_onConn, redisCall, wp_pattern_issue]
  exact Iff.rfl

theorem wp_pattern_startTransaction {ptr : Ptr} {Q : Bool → Recorded → Prop} :
    wp (patterned E) (startTransaction ptr) Q s ↔
      (ptr = .conn → Q (E.reply .startTransaction s.world) (E.next .startTransaction s)) := by
  rw [startTransaction, wp_pattern_onConn, beginTransaction, wp_pattern_issue]

theorem wp_pattern_commit {ptr : Ptr} {Q : Bool → Recorded → Prop} :
    wp (patterned E) (commit ptr) Q s ↔
      (ptr = .conn → Q (E.reply .commit s.world) (E.next .commit s)) := by
  rw [commit, wp_pattern_onConn, commitTransaction, wp_pattern_issue]

theorem wp_pattern_rollback {ptr : Ptr} {Q : Bool → Recorded → Prop} :
    wp (patterned E) (rollback ptr) Q s ↔
      (ptr = .conn → Q (E.reply .rollback s.world) (E.next .rollback s)) := by
  rw [rollback, wp_pattern_onConn, rollbackTransaction, wp_pattern_issue]

theorem wp_pattern_currentTime {Q : CString → Recorded → Prop} :
    wp (patterned E) currentTime Q s ↔ Q (E.sys .currentTime) s := by
  rw [currentTime, wp_pattern_issue, next_idle rfl fun _ => rfl]
  exact Iff.rfl

end Rules

/-! ## What the log says -/

/-- Every write of the log took effect; the commands of a transaction are no writes. -/
def Clean (log : List (Command × Bool)) : Prop :=
  ∀ c, (c, false) ∈ log → c = .startTransaction ∨ c = .commit ∨ c = .rollback

/-- All the writes of the list are issued, and every write that is issued takes effect. -/
def AllWrites (writes : List Command) (log : List (Command × Bool)) : Prop :=
  Clean log ∧ ∀ c ∈ writes, ∃ b, (c, b) ∈ log

theorem clean_nil : Clean [] := fun _ h => absurd h List.not_mem_nil

section Logs

variable {E : Surroundings} {s : Recorded}

theorem log_next {c : Command} (h : isLogged c = true) :
    (E.next c s).log = s.log ++ [(c, (E.outcome c s.world).2)] := if_pos h

theorem clean_append {log : List (Command × Bool)} {c : Command} {b : Bool}
    (hc : c ≠ .startTransaction ∧ c ≠ .commit ∧ c ≠ .rollback) :
    Clean (log ++ [(c, b)]) ↔ Clean log ∧ b = true := by
  constructor
  · intro h
    refine ⟨fun c' hmem => h c' (List.mem_append_left _ hmem), ?_⟩
    cases b with
    | true => rfl
    | false =>
        have hlast := h c (List.mem_append_right _ (List.mem_singleton.mpr rfl))
        rcases hlast with heq | heq | heq
        · exact absurd heq hc.1
        · exact absurd heq hc.2.1
        · exact absurd heq hc.2.2
  · rintro ⟨h, rfl⟩ c' hmem
    rcases List.mem_append.mp hmem with hmem | hmem
    · exact h c' hmem
    · cases List.mem_singleton.mp hmem

/-- The log after a write of MySQL. -/
theorem clean_update {u : Mysql.Update} {n : Nat} {t : Mysql.Tables}
    (hexec : u.exec s.world.db = some (n, t)) :
    Clean (E.next (.update u) s).log ↔ Clean s.log ∧ (E.fate (.update u)).executes = true := by
  rw [log_next rfl, clean_append (by simp)]
  refine and_congr_right fun _ => ?_
  unfold Surroundings.outcome
  split
  · simp [effectOf, *]
  · simp [*]

/-- The command is executed and answers no error. -/
def Surroundings.Succeeds (E : Surroundings) (c : Redis.Command) (ks : Keyspace) : Prop :=
  (E.fate (.redis c)).executes = true ∧ (c.exec ks).1.isError = false

/-- The log after a write of Redis. -/
theorem clean_redis {c : Redis.Command} (hlogged : isLogged (.redis c) = true) :
    Clean (E.next (.redis c) s).log ↔ Clean s.log ∧ E.Succeeds c s.world.redis := by
  rw [log_next hlogged, clean_append (by simp)]
  refine and_congr_right fun _ => ?_
  unfold Surroundings.outcome Surroundings.Succeeds
  split
  · simp [effectOf, *]
  · simp [*]

theorem world_next_redis (c : Redis.Command) :
    (E.next (.redis c) s).world.db = s.world.db ∧
      ∀ key, key ≠ c.key → (E.next (.redis c) s).world.redis.lookup key = s.world.redis.lookup key := by
  unfold Surroundings.next Surroundings.outcome
  split
  · exact ⟨rfl, fun key hkey => lookup_exec_of_ne c _ hkey⟩
  · exact ⟨rfl, fun _ _ => rfl⟩

theorem redis_next_update (u : Mysql.Update) :
    (E.next (.update u) s).world.redis = s.world.redis := by
  unfold Surroundings.next Surroundings.outcome
  split
  · simp only [effectOf]
    cases u.exec s.world.db <;> rfl
  · rfl

theorem world_next_startTransaction :
    (E.next .startTransaction s).world.db = s.world.db ∧
      (E.next .startTransaction s).world.redis = s.world.redis := by
  unfold Surroundings.next Surroundings.outcome
  split <;> exact ⟨rfl, rfl⟩

theorem redis_next_commit : (E.next .commit s).world.redis = s.world.redis := by
  unfold Surroundings.next Surroundings.outcome
  split <;> rfl

theorem redis_next_rollback : (E.next .rollback s).world.redis = s.world.redis := by
  unfold Surroundings.next Surroundings.outcome
  split <;> rfl

theorem log_subset_next (c : Command) : s.log ⊆ (E.next c s).log := by
  unfold Surroundings.next
  split
  · exact List.subset_append_left _ _
  · exact fun _ h => h

theorem issued_next {c : Command} (h : isLogged c = true) :
    ∃ b, (c, b) ∈ (E.next c s).log := by
  rw [log_next h]
  exact ⟨_, List.mem_append_right _ (List.mem_singleton.mpr rfl)⟩

end Logs

/-! ## Parts of a handler -/

/-- A part of a handler goes from `s` to `s'` and ends well or not.  It ends well with all
its writes in effect exactly when `good`; then it has issued the writes of the list. -/
structure Part (good : Prop) (writes : List Command) (s s' : Recorded) (ok : Prop) : Prop where
  clean : (ok ∧ Clean s'.log) ↔ (Clean s.log ∧ good)
  issued : ok → ∀ c ∈ writes, ∃ b, (c, b) ∈ s'.log
  grows : s.log ⊆ s'.log

namespace Part

variable {good good' : Prop} {writes writes' : List Command} {s s₁ s₂ : Recorded} {ok ok' : Prop}

theorem never (hgrows : s.log ⊆ s₁.log) (hok : ¬ ok) (hgood : ¬ good) :
    Part good writes s s₁ ok :=
  ⟨⟨fun h => absurd h.1 hok, fun h => absurd h.2 hgood⟩, fun h => absurd h hok, hgrows⟩

/-- The handler goes on after a part that ended well. -/
theorem seq (h : Part good writes s s₁ ok) (hok : ok) (h' : Part good' writes' s₁ s₂ ok') :
    Part (good ∧ good') (writes ++ writes') s s₂ ok' := by
  refine ⟨?_, fun hok' c hc => ?_, fun e he => h'.grows (h.grows he)⟩
  · have hclean : Clean s₁.log ↔ Clean s.log ∧ good := by
      rw [← h.clean]
      simp [hok]
    rw [h'.clean, hclean, and_assoc]
  · rcases List.mem_append.mp hc with hc | hc
    · obtain ⟨b, hb⟩ := h.issued hok c hc
      exact ⟨b, h'.grows hb⟩
    · exact h'.issued hok' c hc

/-- It ends after one that did not. -/
theorem stop (h : Part good writes s s₁ ok) (hok : ¬ ok) (hok' : ¬ ok') :
    Part (good ∧ good') writes' s s₁ ok' := by
  refine ⟨⟨fun hleft => absurd hleft.1 hok', ?_⟩, fun hleft => absurd hleft hok', h.grows⟩
  rintro ⟨hclean, hgood, _⟩
  exact absurd (h.clean.mpr ⟨hclean, hgood⟩).1 hok

theorem congr (h : Part good writes s s₁ ok) (hgood : good ↔ good') (hok : ok ↔ ok') :
    Part good' writes s s₁ ok' := by
  refine ⟨?_, fun hok' => h.issued (hok.mpr hok'), h.grows⟩
  rw [← hok, ← hgood]
  exact h.clean

theorem weaken (h : Part good writes s s₁ ok) (hwrites : writes' ⊆ writes) :
    Part good writes' s s₁ ok :=
  ⟨h.clean, fun hok c hc => h.issued hok c (hwrites hc), h.grows⟩

theorem allWrites (h : Part good writes s s₁ ok) (hclean : Clean s.log) :
    (ok ∧ AllWrites writes s₁.log) ↔ good := by
  constructor
  · exact fun hleft => (h.clean.mp ⟨hleft.1, hleft.2.1⟩).2
  · intro hgood
    obtain ⟨hok, hclean'⟩ := h.clean.mpr ⟨hclean, hgood⟩
    exact ⟨hok, hclean', h.issued hok⟩

end Part

section Writes

variable {E : Surroundings} {s : Recorded}

theorem executes_of_answered {f : Fate} (h : f = .answered) : f.executes = true := by
  rw [h]
  rfl

/-- A statement ends well when it is answered. -/
theorem part_update {u : Mysql.Update} {n : Nat} {t : Mysql.Tables}
    (hexec : u.exec s.world.db = some (n, t)) :
    Part (E.fate (.update u) = .answered) [.update u] s (E.next (.update u) s)
      (E.fate (.update u) = .answered) := by
  refine ⟨?_, fun _ c hc => ?_, log_subset_next _⟩
  · rw [clean_update hexec]
    constructor
    · exact fun h => ⟨h.2.1, h.1⟩
    · exact fun h => ⟨h.2, h.1, executes_of_answered h.2⟩
  · rw [List.mem_singleton.mp hc]
    exact issued_next rfl

theorem wp_part_update {ptr : Ptr} {u : Mysql.Update} {care : Bool} {n : Nat} {t : Mysql.Tables}
    (hexec : u.exec s.world.db = some (n, t)) (hcare : care = false ∨ 0 < n) :
    wp (patterned E) (executeUpdate ptr u care) (fun ok s' =>
      Part (E.fate (.update u) = .answered) [.update u] s s' (ok = true) ∧
        s'.world.redis = s.world.redis) s := by
  rw [wp_pattern_executeUpdate hexec]
  refine fun _ => ⟨(part_update hexec).congr Iff.rfl ?_, redis_next_update u⟩
  rcases hcare with rfl | hpos
  · simp
  · simp [hpos]

theorem wp_part_create {ptr : Ptr} {u : Mysql.Update} {n : Nat} {t : Mysql.Tables}
    (hexec : u.exec s.world.db = some (n, t)) :
    wp (patterned E) (executeCreate ptr u) (fun ok s' =>
      Part (E.fate (.update u) = .answered) [.update u] s s' (ok = true) ∧
        s'.world.redis = s.world.redis) s := by
  rw [wp_pattern_executeCreate hexec]
  exact fun _ => ⟨(part_update hexec).congr Iff.rfl (by simp), redis_next_update u⟩

/-- The commands of a transaction are no writes. -/
theorem part_transaction {c : Command} (hlogged : isLogged c = true)
    (hc : c = .startTransaction ∨ c = .commit ∨ c = .rollback) :
    Part True [] s (E.next c s) True := by
  refine ⟨?_, fun _ _ h => absurd h List.not_mem_nil, log_subset_next _⟩
  have hclean : Clean (E.next c s).log ↔ Clean s.log := by
    rw [log_next hlogged]
    constructor
    · exact fun h c' hmem => h c' (List.mem_append_left _ hmem)
    · intro h c' hmem
      rcases List.mem_append.mp hmem with hmem | hmem
      · exact h c' hmem
      · rw [(Prod.mk.inj (List.mem_singleton.mp hmem)).1]
        exact hc
  rw [hclean, true_and, and_true]

/-- A write of Redis ends well when its answer is good enough. -/
theorem part_redis {c : Redis.Command} (hlogged : isLogged (.redis c) = true) {ok good : Prop}
    (h : (ok ∧ E.Succeeds c s.world.redis) ↔ good) :
    Part good [.redis c] s (E.next (.redis c) s) ok := by
  refine ⟨?_, fun _ c' hc => ?_, log_subset_next _⟩
  · rw [clean_redis hlogged, ← h]
    constructor
    · exact fun hleft => ⟨hleft.2.1, hleft.1, hleft.2.2⟩
    · exact fun hright => ⟨hright.2.1, hright.1, hright.2.2⟩
  · rw [List.mem_singleton.mp hc]
    exact issued_next hlogged

end Writes

end Server
end TcMuzi
