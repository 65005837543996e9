import TcMuzi.Redis.Ranking
import TcMuzi.Redis.Sequential

/-!
# Runs on servers that answer

On a machine where every connection is there and every command succeeds, `okReply`, a
handler has one run.  The rules compute it: each says what one wrapper answers and the
world it leaves.
-/

namespace TcMuzi
namespace Server

open Base Redis Lib

variable (sys : (c : SysCall) → c.Ret) (w : World)

/-! ## Connections and system calls -/

@[simp] theorem run_pure {α : Type} (a : α) : run (okReply sys) (.ret a) w = some (a, w) := rfl

@[simp] theorem run_withDBConn {α : Type} (pool : DBInstance) (body : Ptr → Handler α) :
    run (okReply sys) (withDBConn pool body) w = run (okReply sys) (body .conn) w := by
  rw [withDBConn, run_bind]
  show run (okReply sys) (body .conn >>= _) w = _
  rw [run_bind]
  cases run (okReply sys) (body .conn) w <;> rfl

@[simp] theorem run_withCacheConn {α : Type} (body : Ptr → Handler α) :
    run (okReply sys) (withCacheConn body) w = run (okReply sys) (body .conn) w := by
  rw [withCacheConn, run_bind]
  show run (okReply sys) (body .conn >>= _) w = _
  rw [run_bind]
  cases run (okReply sys) (body .conn) w <;> rfl

theorem run_calloc (count : Int) (size : Nat) :
    run (okReply sys) (calloc count size) w = some (sys (.calloc count size), w) := rfl

/-! ## SQL -/

variable {w}

theorem run_executeQuery {q : Mysql.Query} {rows : List q.Row} (h : q.exec w.db = some rows) :
    run (okReply sys) (executeQuery .conn q) w = some (some rows, w) := by
  have hreply : okReply sys (.query q) w = some (some rows, w) := by
    simp [okReply, h]
  exact run_step_of_eq hreply

theorem run_executeUpdate {u : Mysql.Update} {n : Nat} {t : Mysql.Tables}
    (h : u.exec w.db = some (n, t)) (careAffectedRows : Bool) :
    run (okReply sys) (executeUpdate .conn u careAffectedRows) w =
      some (decide (0 < n) || !careAffectedRows, { w with db := t }) := by
  have hreply : okReply sys (.update u) w = some (some n, { w with db := t }) := by
    simp [okReply, h]
  exact run_step_of_eq hreply

variable (w)

theorem run_startTransaction :
    run (okReply sys) (startTransaction .conn) w = some (true, { w with snapshot := some w.db }) :=
  rfl

theorem run_commit :
    run (okReply sys) (commit .conn) w = some (true, { w with snapshot := none }) := rfl

/-! ## Redis -/

variable {w}

theorem run_redisCommand {c : Redis.Command} (h : (c.exec w.redis).1.isError = false) :
    run (okReply sys) (CacheConn.redisCommand .conn c) w =
      some (.reply (c.exec w.redis).1, withRedis w (c.exec w.redis).2) := by
  have hreply : okReply sys (.redis c) w =
      some (.reply (c.exec w.redis).1, withRedis w (c.exec w.redis).2) := by
    simp [okReply, h, withRedis]
  exact run_step_of_eq hreply

/-- A wrapper whose command answers `r` returns what it makes of `r`. -/
theorem run_redisCommand_bind {α : Type} {c : Redis.Command} {r : Reply} {ks : Keyspace}
    (h : c.exec w.redis = (r, ks)) (hr : r.isError = false) (k : RedisResult → Handler α) :
    run (okReply sys) (CacheConn.redisCommand .conn c >>= k) w =
      run (okReply sys) (k (.reply r)) (withRedis w ks) := by
  have hok : (c.exec w.redis).1.isError = false := by rw [h]; exact hr
  rw [run_bind, run_redisCommand sys hok, h]
  rfl

variable {key : CString} {members : ZSet} {fields : Hash}

theorem run_del (key : CString) :
    run (okReply sys) (CacheConn.del .conn key) w =
      some (if key ∈ w.redis then 1 else 0, withRedis w (w.redis.erase key)) := by
  rw [CacheConn.del, CacheConn.replyInteger, run_redisCommand_bind sys rfl rfl]
  rfl

theorem run_zsetAdd (h : zsetOf w.redis key = some members) (score : Int) (member : CString) :
    run (okReply sys) (CacheConn.zsetAdd .conn key score member) w =
      some (0, withRedis w (storeZset w.redis key (members.insert member score))) := by
  have hexec : (Redis.Command.zadd key score member).exec w.redis =
      (.integer (if member ∈ members then 0 else 1),
        storeZset w.redis key (members.insert member score)) := by
    simp only [Redis.Command.exec, h]
  rw [CacheConn.zsetAdd, CacheConn.zsetWrite, run_redisCommand_bind sys hexec rfl]
  rfl

theorem run_hset (h : hashOf w.redis key = some fields) (field value : CString) :
    run (okReply sys) (CacheConn.hset .conn key field value) w =
      some (if field ∈ fields then 0 else 1,
        withRedis w (storeHash w.redis key (fields.insert field value))) := by
  have hexec : (Redis.Command.hset key field value).exec w.redis =
      (.integer (if field ∈ fields then 0 else 1),
        storeHash w.redis key (fields.insert field value)) := by
    simp only [Redis.Command.exec, h]
  rw [CacheConn.hset, CacheConn.replyInteger, run_redisCommand_bind sys hexec rfl]
  rfl

theorem run_zsetExist (h : zsetOf w.redis key = some members) (member : CString) :
    run (okReply sys) (CacheConn.zsetExist .conn key member) w =
      some (if member ∈ members then 1 else 0, w) := by
  have hexec : (Redis.Command.zscore key member).exec w.redis =
      ((members.lookup member).elim .nil fun score => .string (CString.ofInt score), w.redis) := by
    simp only [Redis.Command.exec, h]
  have hsome := @AList.lookup_isSome _ _ _ member members
  cases hlookup : members.lookup member with
  | none =>
      rw [hlookup] at hexec hsome
      rw [CacheConn.zsetExist, run_redisCommand_bind sys hexec rfl, if_neg (by simpa using hsome)]
      rfl
  | some score =>
      rw [hlookup] at hexec hsome
      rw [CacheConn.zsetExist, run_redisCommand_bind sys hexec rfl, if_pos (by simpa using hsome)]
      rfl

theorem run_hget {field value : CString} (h : hashOf w.redis key = some fields)
    (hfield : fields.lookup field = some value) :
    run (okReply sys) (CacheConn.hget .conn key field) w =
      some (some (value.strncpy CacheConn.valuesIdSize), w) := by
  have hexec : (Redis.Command.hget key field).exec w.redis = (.string value, w.redis) := by
    simp only [Redis.Command.exec, h, hfield]
    rfl
  rw [CacheConn.hget, run_redisCommand_bind sys hexec rfl]
  rfl

theorem run_zsetGetScore {member : CString} {score : Int} (h : zsetOf w.redis key = some members)
    (hmember : members.lookup member = some score) (hscore : IsInt32 score) :
    run (okReply sys) (CacheConn.zsetGetScore .conn key member) w = some (score, w) := by
  have hexec : (Redis.Command.zscore key member).exec w.redis =
      (.string (CString.ofInt score), w.redis) := by
    simp only [Redis.Command.exec, h, hmember]
    rfl
  rw [CacheConn.zsetGetScore, run_redisCommand_bind sys hexec rfl]
  show some ((CString.ofInt score).atoi, w) = some (score, w)
  rw [CString.atoi_ofInt hscore]

/-- A page that the request asks for, each member cut to its entry. -/
theorem run_zsetZrevrange (h : zsetOf w.redis key = some members) {start count : Nat}
    (hcount : 0 < count) (hint : IsInt32 count) :
    run (okReply sys) (CacheConn.zsetZrevrange .conn key start (start + count - 1)) w =
      some (some ((((zsetDesc members).drop start).take count).map
        fun item => item.strncpy (CacheConn.valuesIdSize - 1)), w) := by
  have hexec : (Redis.Command.zrevrange key start (start + count - 1)).exec w.redis =
      (.array (((zsetDesc members).drop start).take count), w.redis) := by
    simp only [Redis.Command.exec, h, rangeOf_page _ _ _ hcount]
  have hlength : (start : Int) + count - 1 - start + 1 = count := by omega
  rw [CacheConn.zsetZrevrange, run_redisCommand_bind sys hexec rfl]
  rw [hlength, wrapInt32_eq hint]
  simp [List.take_take]

end Server
end TcMuzi
