import TcMuzi.Api.Uses

/-!
# Null answers that are used

A query may answer NULL and hiredis no reply.  Most callers look; three of them read the
result set and the sorted-set wrappers read the reply all the same.  The state is whether
such an answer has been given: a program is sound when it fails exactly then.
-/

namespace TcMuzi
namespace Server

open Base Redis Api Lib

/-- The result set of the query is read without a check. -/
def derefsResult : Mysql.Query → Bool
  | .fileCount .. => true
  | .sharedStatus .. => true
  | .fileId _ => true
  | _ => false

/-- The type of the reply is read without a check. -/
def derefsReply : Redis.Command → Bool
  | .zscore .. => true
  | .zadd .. => true
  | .zrem .. => true
  | .zincrby .. => true
  | .zrevrange .. => true
  | _ => false

/-- The answer is null, and used. -/
def strikes : (c : Server.Command) → c.Reply → Bool
  | .query q, none => derefsResult q
  | .redis c, .noReply => derefsReply c
  | _, _ => false

/-- What a handler issues between taking its connections and giving them back. -/
def IsBody : Server.Command → Prop
  | .getDBConn _ => False
  | .relDBConn _ => False
  | .getCacheConn => False
  | .relCacheConn => False
  | _ => True

/-- Every command answers anything, and a null answer that is used is remembered. -/
def nullAnswers : Sem Server.Command Command.Reply Bool where
  step c s r s' := s' = (s || strikes c r)
  safe _ c := IsBody c
  mayFail s := s = true

/-- The program returns a value with `P`, or a null answer is used and it fails. -/
def Sound {α : Type} (p : Handler α) (P : α → Prop) : Prop :=
  wp nullAnswers p (fun a s => s = false ∧ P a) false

section Rules

variable {α β : Type} {P : α → Prop} {P' : β → Prop}

theorem sound_ret {a : α} (h : P a) : Sound (.ret a) P := ⟨rfl, h⟩

theorem Sound.bind {p : Handler α} {k : α → Handler β} (hp : Sound p P)
    (hk : ∀ a, P a → Sound (k a) P') : Sound (p >>= k) P' := by
  unfold Sound
  rw [wp_bind]
  refine wp_mono hp ?_
  rintro a _ ⟨rfl, ha⟩
  exact hk a ha

/-- The next part does not depend on what the first one returns. -/
theorem Sound.then {p : Handler α} {k : α → Handler β} (hp : Sound p fun _ => True)
    (hk : ∀ a, Sound (k a) P') : Sound (p >>= k) P' :=
  hp.bind fun a _ => hk a

theorem sound_ite {c : Prop} [Decidable c] {p q : Handler α} (hp : c → Sound p P)
    (hq : ¬ c → Sound q P) : Sound (if c then p else q) P := by
  split
  · exact hp (by assumption)
  · exact hq (by assumption)

/-- A command whose null answers are looked at. -/
theorem sound_issue {c : Server.Command} (hbody : IsBody c) (h : ∀ r, strikes c r = false) :
    Sound (issue c) fun _ => True := by
  refine ⟨hbody, ?_⟩
  rintro r _ rfl
  exact ⟨h r, trivial⟩

theorem sound_issue_bind {c : Server.Command} {k : c.Reply → Handler α} (hbody : IsBody c)
    (h : ∀ r, strikes c r = false) (hk : ∀ r, Sound (k r) P) : Sound (issue c >>= k) P :=
  (sound_issue hbody h).then hk

/-- One whose null answers end the program. -/
theorem sound_strike {c : Server.Command} {k : c.Reply → Handler α} (hbody : IsBody c)
    (h : ∀ r, strikes c r = true → k r = .fail) (hk : ∀ r, strikes c r = false → Sound (k r) P) :
    Sound (issue c >>= k) P := by
  refine ⟨hbody, ?_⟩
  rintro r _ rfl
  cases hr : strikes c r with
  | true =>
      show wp nullAnswers (k r) _ true
      rw [h r hr]
      rfl
  | false => exact hk r hr

end Rules

/-! ## MySQL -/

section Sql

theorem sound_executeQuery {q : Mysql.Query} (h : derefsResult q = false) :
    Sound (executeQuery .conn q) fun _ => True := by
  refine sound_issue trivial fun r => ?_
  cases r with
  | none => exact h
  | some rows => rfl

theorem sound_executeUpdate (u : Mysql.Update) (care : Bool) :
    Sound (executeUpdate .conn u care) fun _ => True := by
  refine sound_issue_bind trivial (fun _ => rfl) fun r => ?_
  cases r <;> exact sound_ret trivial

theorem sound_executeCreate (u : Mysql.Update) : Sound (executeCreate .conn u) fun _ => True :=
  sound_issue_bind trivial (fun _ => rfl) fun _ => sound_ret trivial

theorem sound_startTransaction : Sound (startTransaction .conn) fun _ => True :=
  sound_issue trivial fun _ => rfl

theorem sound_commit : Sound (commit .conn) fun _ => True := sound_issue trivial fun _ => rfl

theorem sound_rollback : Sound (rollback .conn) fun _ => True := sound_issue trivial fun _ => rfl

theorem sound_sys (c : SysCall) : Sound (issue (.sys c)) fun _ => True :=
  sound_issue trivial fun _ => rfl

theorem sound_checkwhetherHaveRecord {q : Mysql.Query} (h : derefsResult q = false) :
    Sound (checkwhetherHaveRecord .conn q) fun _ => True := by
  refine (sound_executeQuery h).then fun rows => ?_
  rcases rows with _ | _ | _ <;> exact sound_ret trivial

theorem sound_getResultOneCount (md5 : CString) (forUpdate : Bool) (count : Int) :
    Sound (getResultOneCount .conn md5 forUpdate count) fun _ => True := by
  refine sound_strike trivial (fun r hr => ?_) fun r hr => ?_
  · cases r with
    | none => rfl
    | some rows => cases hr
  · rcases r with _ | _ | _
    · cases hr
    · exact sound_ret trivial
    · exact sound_ret trivial

theorem sound_getResultOneStatus (user md5 filename : CString) (status : Int) :
    Sound (getResultOneStatus .conn user md5 filename status) fun _ => True := by
  refine sound_strike trivial (fun r hr => ?_) fun r hr => ?_
  · cases r with
    | none => rfl
    | some rows => cases hr
  · rcases r with _ | _ | _
    · cases hr
    · exact sound_ret trivial
    · exact sound_ret trivial

end Sql

/-! ## Redis -/

section RedisRules

theorem strikes_redis {c : Redis.Command} (h : derefsReply c = false) (r : RedisResult) :
    strikes (.redis c) r = false := by
  cases r with
  | noReply => exact h
  | _ => rfl

/-- A wrapper that looks at every reply. -/
theorem sound_redis {α : Type} {c : Redis.Command} {k : RedisResult → Handler α} {P : α → Prop}
    (h : derefsReply c = false) (hk : ∀ r, ∃ a, k r = .ret a ∧ P a) :
    Sound (CacheConn.redisCommand .conn c >>= k) P := by
  refine sound_issue_bind trivial (strikes_redis h) fun r => ?_
  obtain ⟨a, ha, hP⟩ := hk r
  rw [ha]
  exact sound_ret hP

/-- A wrapper of a sorted set. -/
theorem sound_zset {α : Type} {c : Redis.Command} {k : RedisResult → Handler α} {P : α → Prop}
    (h : derefsReply c = true) (hno : k .noReply = .fail)
    (hinit : ∃ a, k .initFailed = .ret a ∧ P a)
    (hk : ∀ r, ∃ a, k (.reply r) = .ret a ∧ P a) :
    Sound (CacheConn.redisCommand .conn c >>= k) P := by
  refine sound_strike trivial (fun r hr => ?_) fun r hr => ?_
  · cases r with
    | noReply => exact hno
    | _ => cases hr
  · cases r with
    | noReply => exact absurd (h.symm.trans hr) (by decide)
    | initFailed =>
        obtain ⟨a, ha, hP⟩ := hinit
        rw [ha]
        exact sound_ret hP
    | reply r =>
        obtain ⟨a, ha, hP⟩ := hk r
        rw [ha]
        exact sound_ret hP

namespace CacheConn

variable {key field member value : CString}

theorem sound_get : Sound (CacheConn.get .conn key) fun _ => True := by
  refine sound_redis rfl fun r => ?_
  rcases r with _ | _ | r
  · exact ⟨_, rfl, trivial⟩
  · exact ⟨_, rfl, trivial⟩
  · cases r <;> exact ⟨_, rfl, trivial⟩

theorem sound_replyText {c : Redis.Command} (h : derefsReply c = false) :
    Sound (CacheConn.replyText .conn c) fun _ => True := by
  refine sound_redis h fun r => ?_
  cases r <;> exact ⟨_, rfl, trivial⟩

theorem sound_replyInteger {c : Redis.Command} {failed : Int} (h : derefsReply c = false) :
    Sound (CacheConn.replyInteger .conn c failed) fun _ => True := by
  refine sound_redis h fun r => ?_
  cases r <;> exact ⟨_, rfl, trivial⟩

theorem sound_addCommand {c : Redis.Command} (h : derefsReply c = false) :
    Sound (CacheConn.addCommand .conn c) fun _ => True := by
  refine sound_redis h fun r => ?_
  cases r <;> exact ⟨_, rfl, trivial⟩

theorem sound_hget : Sound (CacheConn.hget .conn key field) fun _ => True := by
  refine sound_redis rfl fun r => ?_
  rcases r with _ | _ | r
  · exact ⟨_, rfl, trivial⟩
  · exact ⟨_, rfl, trivial⟩
  · cases r <;> exact ⟨_, rfl, trivial⟩

theorem sound_zsetExist : Sound (CacheConn.zsetExist .conn key member) fun _ => True :=
  sound_zset rfl rfl ⟨_, rfl, trivial⟩ fun r => by cases r <;> exact ⟨_, rfl, trivial⟩

theorem sound_zsetWrite {c : Redis.Command} (h : derefsReply c = true) :
    Sound (CacheConn.zsetWrite .conn c) fun _ => True :=
  sound_zset h rfl ⟨_, rfl, trivial⟩ fun r => by cases r <;> exact ⟨_, rfl, trivial⟩

theorem sound_zsetIncr : Sound (CacheConn.zsetIncr .conn key member) fun _ => True :=
  sound_zset rfl rfl ⟨_, rfl, trivial⟩ fun r => by cases r <;> exact ⟨_, rfl, trivial⟩

theorem sound_zsetZrevrange {first last : Int} :
    Sound (CacheConn.zsetZrevrange .conn key first last) fun _ => True :=
  sound_zset rfl rfl ⟨_, rfl, trivial⟩ fun r => by cases r <;> exact ⟨_, rfl, trivial⟩

theorem sound_zsetGetScore : Sound (CacheConn.zsetGetScore .conn key member) fun _ => True :=
  sound_zset rfl rfl ⟨_, rfl, trivial⟩ fun r => by cases r <;> exact ⟨_, rfl, trivial⟩

end CacheConn

theorem sound_cacheSetCount {key : CString} {n : Int} :
    Sound (cacheSetCount .conn key n) fun _ => True :=
  (CacheConn.sound_replyText rfl).then fun _ => sound_ret trivial

theorem sound_cacheGetCount {key : CString} : Sound (cacheGetCount .conn key) fun _ => True :=
  CacheConn.sound_get.then fun _ => sound_ret trivial

theorem sound_cacheIncrCount {key : CString} : Sound (cacheIncrCount .conn key) fun _ => True :=
  (CacheConn.sound_addCommand rfl).then fun _ => sound_ret trivial

theorem sound_cacheDecrCount {key : CString} : Sound (cacheDecrCount .conn key) fun _ => True := by
  refine (CacheConn.sound_addCommand rfl).then fun (ret, count) => ?_
  refine sound_ite (fun _ => sound_ret trivial) fun _ => ?_
  refine sound_ite (fun _ => ?_) fun _ => sound_ret trivial
  exact sound_cacheSetCount.then fun _ => sound_ret trivial

end RedisRules

end Server
end TcMuzi
