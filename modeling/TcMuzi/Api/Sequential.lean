import TcMuzi.Api.Common
import TcMuzi.Redis.Sequential

/-!
# The shared functions in sequential runs

Rules for the functions of `Api.Common` under `ok`, and which commands the wrappers of
a Redis connection use.
-/

namespace TcMuzi
namespace Api

open Base Server Redis

/-! ## Single records -/

theorem wp_ok_checkwhetherHaveRecord (ptr : Ptr) (q : Mysql.Query) (Q : Int → World → Prop)
    (w : World) :
    Lib.wp ok (checkwhetherHaveRecord ptr q) Q w ↔
      (ptr = .conn → ∀ rows, q.exec w.db = some rows → Q (if rows.isEmpty then 0 else 1) w) := by
  rw [checkwhetherHaveRecord, Lib.wp_bind, wp_ok_executeQuery]
  refine imp_congr_right fun _ => forall_congr' fun rows => imp_congr_right fun _ => ?_
  cases rows with
  | nil => rfl
  | cons row rows => rfl

/-- The counts that the rows of a file carry. -/
def countsOf (t : Mysql.Tables) (md5 : CString) : List Int :=
  (t.fileInfo.filter (Mysql.isFile md5)).map (·.count)

theorem wp_ok_getResultOneCount (ptr : Ptr) (md5 : CString) (forUpdate : Bool)
    (Q : Int × Int → World → Prop) (w : World) :
    Lib.wp ok (getResultOneCount ptr md5 forUpdate 0) Q w ↔
      (ptr = .conn →
        Q (match countsOf w.db md5 with
          | [] => (1, 0)
          | count :: _ => (0, count)) w) := by
  rw [getResultOneCount, Lib.wp_bind, wp_ok_executeQuery]
  refine imp_congr_right fun _ => ?_
  have hexec : (Mysql.Query.fileCount md5 forUpdate).exec w.db = some (countsOf w.db md5) := rfl
  simp only [hexec, Option.some.injEq, forall_eq']
  cases countsOf w.db md5 with
  | nil => rfl
  | cons count counts => rfl

theorem wp_ok_getResultOneStatus (ptr : Ptr) (user md5 fileName : CString)
    (Q : Int × Int → World → Prop) (w : World) :
    Lib.wp ok (getResultOneStatus ptr user md5 fileName 0) Q w ↔
      (ptr = .conn →
        Q (match w.db.userFileList.filter (Mysql.isUserFile user md5 fileName) with
          | [] => (-1, 0)
          | row :: _ => (0, row.sharedStatus)) w) := by
  rw [getResultOneStatus, Lib.wp_bind, wp_ok_executeQuery]
  refine imp_congr_right fun _ => ?_
  have hexec : (Mysql.Query.sharedStatus user md5 fileName).exec w.db =
      some ((w.db.userFileList.filter (Mysql.isUserFile user md5 fileName)).map
        (·.sharedStatus)) := rfl
  simp only [hexec, Option.some.injEq, forall_eq']
  cases w.db.userFileList.filter (Mysql.isUserFile user md5 fileName) with
  | nil => rfl
  | cons row rows => rfl

/-! ## Counters -/

theorem wp_ok_cacheIncrCount {ptr : Ptr} {key : CString} {Q : Int → World → Prop} {w : World}
    (h : ∀ n ks, counterOf w.redis key = .ok n → counterOf ks key = .ok (n + 1) →
      SameBut key w.redis ks → Q 0 (withRedis w ks)) :
    Lib.wp ok (cacheIncrCount ptr key) Q w := by
  rw [cacheIncrCount, Lib.wp_bind]
  refine CacheConn.wp_ok_incr fun n ks hn hks hframe => ?_
  exact h n ks hn hks hframe

/-- A number that is there reads back; the code only says whether there was a text. -/
theorem wp_ok_cacheGetCount {ptr : Ptr} {key : CString} {Q : Int × Int → World → Prop} {w : World}
    {n : Int} (hn : counterOf w.redis key = .ok n) (h : ∀ code, Q (code, n) w) :
    Lib.wp ok (cacheGetCount ptr key) Q w := by
  rw [cacheGetCount, Lib.wp_bind, CacheConn.get, Lib.wp_bind, wp_ok_redisCommand]
  intro _ _
  unfold counterOf at hn
  simp only [Redis.Command.exec]
  cases hvalue : valueAt w.redis key with
  | none =>
      rw [hvalue] at hn
      obtain rfl : 0 = n := Except.ok.inj hn
      exact h (-1)
  | some value =>
      rw [hvalue] at hn
      cases value with
      | str s =>
          cases hparse : string2ll s with
          | none => simp [hparse] at hn
          | some m =>
              simp only [hparse] at hn
              obtain rfl : m = n := Except.ok.inj hn
              obtain ⟨hbytes, _⟩ := Lib.Decimal.parse_eq_some_iff.mp hparse
              obtain rfl : s = CString.ofInt m := CString.ext hbytes
              show Q (if CString.ofInt m ≠ CString.empty then (0, (CString.ofInt m).atoll)
                else (-1, 0)) w
              by_cases hempty : CString.ofInt m = CString.empty
              · have hzero : (CString.ofInt m).atoll = 0 := by
                  rw [hempty]
                  decide
                rw [CString.atoll_ofInt] at hzero
                subst hzero
                rw [if_neg (not_not.mpr hempty)]
                exact h (-1)
              · rw [if_pos hempty, CString.atoll_ofInt]
                exact h 0
      | zset members => cases hn
      | hash fields => cases hn

/-- A count in the 64-bit range that is written reads back. -/
theorem wp_ok_cacheSetCount {ptr : Ptr} {key : CString} {count : Int} {Q : Int → World → Prop}
    {w : World} (hlo : -9223372036854775808 ≤ count) (hhi : count ≤ 9223372036854775807)
    (h : ∀ ks, counterOf ks key = .ok count → SameBut key w.redis ks → Q 0 (withRedis w ks)) :
    Lib.wp ok (cacheSetCount ptr key count) Q w := by
  rw [cacheSetCount, Lib.wp_bind, CacheConn.wp_ok_set]
  intro _
  rw [if_pos (by decide)]
  refine h _ (counterOf_ofInt (by simp [valueAt]) hlo hhi) ?_
  intro other hother
  exact AList.lookup_insert_ne hother

/-- A counter goes down to 0 and no further. -/
theorem wp_ok_cacheDecrCount {ptr : Ptr} {key : CString} {Q : Int → World → Prop} {w : World}
    (h : ∀ n ks, counterOf w.redis key = .ok n → counterOf ks key = .ok (max (n - 1) 0) →
      SameBut key w.redis ks → Q 0 (withRedis w ks)) :
    Lib.wp ok (cacheDecrCount ptr key) Q w := by
  rw [cacheDecrCount, Lib.wp_bind]
  refine CacheConn.wp_ok_decr fun n ks hn hks hframe => ?_
  show Lib.wp ok (if (0 : Int) < 0 then _ else if n + -1 < 0 then _ else _) _ _
  rw [if_neg (by decide)]
  by_cases hneg : n + -1 < 0
  · rw [if_pos hneg, Lib.wp_bind]
    refine wp_ok_cacheSetCount (by decide) (by decide) fun ks' hks' hframe' => ?_
    refine h n ks' hn ?_ fun other hother => (hframe' other hother).trans (hframe other hother)
    have hmax : max (n - 1) 0 = 0 := by omega
    rw [hmax]
    exact hks'
  · rw [if_neg hneg]
    refine h n ks hn ?_ hframe
    have hmax : max (n - 1) 0 = n + -1 := by omega
    rw [hmax]
    exact hks

/-! ## The commands behind a Redis connection -/

section Uses

variable {P : Server.Command → Prop}

theorem uses_onConn {α : Type} {ptr : Ptr} {call : Handler α} (h : Lib.Uses P call) :
    Lib.Uses P (onConn ptr call) := by
  cases ptr with
  | null => trivial
  | conn => exact h

theorem uses_redisCommand {ptr : Ptr} {c : Redis.Command} (h : P (.redis c)) :
    Lib.Uses P (CacheConn.redisCommand ptr c) :=
  uses_onConn ⟨h, fun _ => trivial⟩

/-- A wrapper issues its one command, whatever it makes of the reply. -/
theorem uses_redisCommand_bind {α : Type} {ptr : Ptr} {c : Redis.Command}
    {k : RedisResult → Handler α} (h : P (.redis c)) (hk : ∀ r, Lib.Uses P (k r)) :
    Lib.Uses P (CacheConn.redisCommand ptr c >>= k) :=
  Lib.uses_bind (uses_redisCommand h) hk

theorem uses_get {ptr : Ptr} {key : CString} (h : P (.redis (.get key))) :
    Lib.Uses P (CacheConn.get ptr key) := by
  refine uses_redisCommand_bind h fun r => ?_
  split <;> trivial

theorem uses_replyText {ptr : Ptr} {c : Redis.Command} (h : P (.redis c)) :
    Lib.Uses P (CacheConn.replyText ptr c) := by
  refine uses_redisCommand_bind h fun r => ?_
  split <;> trivial

theorem uses_replyInteger {ptr : Ptr} {c : Redis.Command} {failed : Int} (h : P (.redis c)) :
    Lib.Uses P (CacheConn.replyInteger ptr c failed) := by
  refine uses_redisCommand_bind h fun r => ?_
  split <;> trivial

theorem uses_addCommand {ptr : Ptr} {c : Redis.Command} (h : P (.redis c)) :
    Lib.Uses P (CacheConn.addCommand ptr c) := by
  refine uses_redisCommand_bind h fun r => ?_
  split <;> trivial

theorem uses_hget {ptr : Ptr} {key field : CString} (h : P (.redis (.hget key field))) :
    Lib.Uses P (CacheConn.hget ptr key field) := by
  refine uses_redisCommand_bind h fun r => ?_
  split <;> trivial

theorem uses_zsetExist {ptr : Ptr} {key member : CString} (h : P (.redis (.zscore key member))) :
    Lib.Uses P (CacheConn.zsetExist ptr key member) := by
  refine uses_redisCommand_bind h fun r => ?_
  split <;> trivial

theorem uses_zsetWrite {ptr : Ptr} {c : Redis.Command} (h : P (.redis c)) :
    Lib.Uses P (CacheConn.zsetWrite ptr c) := by
  refine uses_redisCommand_bind h fun r => ?_
  split <;> trivial

theorem uses_zsetIncr {ptr : Ptr} {key member : CString} (h : P (.redis (.zincrby key member))) :
    Lib.Uses P (CacheConn.zsetIncr ptr key member) := by
  refine uses_redisCommand_bind h fun r => ?_
  split <;> trivial

theorem uses_zsetZrevrange {ptr : Ptr} {key : CString} {first last : Int}
    (h : P (.redis (.zrevrange key first last))) :
    Lib.Uses P (CacheConn.zsetZrevrange ptr key first last) := by
  refine uses_redisCommand_bind h fun r => ?_
  dsimp only
  split <;> trivial

theorem uses_zsetGetScore {ptr : Ptr} {key member : CString}
    (h : P (.redis (.zscore key member))) :
    Lib.Uses P (CacheConn.zsetGetScore ptr key member) := by
  refine uses_redisCommand_bind h fun r => ?_
  split <;> trivial

/-- The counters of a key are worked on through that key only. -/
theorem uses_cacheSetCount {ptr : Ptr} {key : CString} {count : Int}
    (h : ∀ c : Redis.Command, c.key = key → P (.redis c)) :
    Lib.Uses P (cacheSetCount ptr key count) :=
  Lib.uses_bind (uses_replyText (h (.set key _) rfl)) fun _ => trivial

theorem uses_cacheGetCount {ptr : Ptr} {key : CString}
    (h : ∀ c : Redis.Command, c.key = key → P (.redis c)) :
    Lib.Uses P (cacheGetCount ptr key) :=
  Lib.uses_bind (uses_get (h (.get key) rfl)) fun _ => trivial

theorem uses_cacheIncrCount {ptr : Ptr} {key : CString}
    (h : ∀ c : Redis.Command, c.key = key → P (.redis c)) :
    Lib.Uses P (cacheIncrCount ptr key) :=
  Lib.uses_bind (uses_addCommand (h (.incr key) rfl)) fun _ => trivial

theorem uses_cacheDecrCount {ptr : Ptr} {key : CString}
    (h : ∀ c : Redis.Command, c.key = key → P (.redis c)) :
    Lib.Uses P (cacheDecrCount ptr key) := by
  refine Lib.uses_bind (uses_addCommand (h (.decr key) rfl)) fun (ret, count) => ?_
  refine Lib.uses_ite trivial (Lib.uses_ite ?_ trivial)
  exact Lib.uses_bind (uses_cacheSetCount h) fun _ => trivial

end Uses

end Api
end TcMuzi
