import TcMuzi.Server.Sequential

/-!
# The Redis wrappers in sequential runs

What each wrapper of `CacheConn` returns and stores under `ok`.  A key of the wrong
kind makes its command answer an error, so a run that completes found the right one.
-/

namespace TcMuzi
namespace Redis

open Base Server Lib

/-- Replace the keyspace. -/
def withRedis (w : World) (ks : Keyspace) : World := { w with redis := ks }

@[simp] theorem withRedis_db (w : World) (ks : Keyspace) : (withRedis w ks).db = w.db := rfl

@[simp] theorem withRedis_snapshot (w : World) (ks : Keyspace) :
    (withRedis w ks).snapshot = w.snapshot := rfl

@[simp] theorem withRedis_redis (w : World) (ks : Keyspace) : (withRedis w ks).redis = ks := rfl

@[simp] theorem withRedis_self (w : World) : withRedis w w.redis = w := rfl

namespace CacheConn

theorem wp_ok_zsetExist (ptr : Ptr) (key member : CString) (Q : Int → World → Prop) (w : World) :
    wp ok (zsetExist ptr key member) Q w ↔
      (ptr = .conn → ∀ members, zsetOf w.redis key = some members →
        Q (if member ∈ members then 1 else 0) w) := by
  rw [zsetExist, wp_bind, wp_ok_redisCommand]
  refine imp_congr_right fun _ => ?_
  simp only [Redis.Command.exec]
  cases hzset : zsetOf w.redis key with
  | none => simp [wrongType, Reply.isError]
  | some members =>
      simp only [Option.some.injEq, forall_eq']
      by_cases hmem : member ∈ members
      · obtain ⟨score, hscore⟩ := Option.isSome_iff_exists.mp (AList.lookup_isSome.mpr hmem)
        simp [hscore, hmem, Reply.isError]
      · have hscore := AList.lookup_eq_none.mpr hmem
        simp [hscore, hmem, Reply.isError]

theorem wp_ok_zsetAdd (ptr : Ptr) (key : CString) (score : Int) (member : CString)
    (Q : Int → World → Prop) (w : World) :
    wp ok (zsetAdd ptr key score member) Q w ↔
      (ptr = .conn → ∀ members, zsetOf w.redis key = some members →
        Q 0 (withRedis w (storeZset w.redis key (members.insert member score)))) := by
  rw [zsetAdd, zsetWrite, wp_bind, wp_ok_redisCommand]
  refine imp_congr_right fun _ => ?_
  simp only [Redis.Command.exec]
  cases hzset : zsetOf w.redis key with
  | none => simp [wrongType, Reply.isError]
  | some members => simp [Reply.isError, withRedis]

theorem wp_ok_zsetZrem (ptr : Ptr) (key member : CString) (Q : Int → World → Prop) (w : World) :
    wp ok (zsetZrem ptr key member) Q w ↔
      (ptr = .conn → ∀ members, zsetOf w.redis key = some members →
        Q 0 (withRedis w (storeZset w.redis key (members.erase member)))) := by
  rw [zsetZrem, zsetWrite, wp_bind, wp_ok_redisCommand]
  refine imp_congr_right fun _ => ?_
  simp only [Redis.Command.exec]
  cases hzset : zsetOf w.redis key with
  | none => simp [wrongType, Reply.isError]
  | some members => simp [Reply.isError, withRedis]

theorem wp_ok_zsetIncr (ptr : Ptr) (key member : CString) (Q : Int → World → Prop) (w : World) :
    wp ok (zsetIncr ptr key member) Q w ↔
      (ptr = .conn → ∀ members, zsetOf w.redis key = some members →
        Q 0 (withRedis w (storeZset w.redis key
          (members.insert member ((members.lookup member).getD 0 + 1))))) := by
  rw [zsetIncr, wp_bind, wp_ok_redisCommand]
  refine imp_congr_right fun _ => ?_
  simp only [Redis.Command.exec]
  cases hzset : zsetOf w.redis key with
  | none => simp [wrongType, Reply.isError]
  | some members => simp [Reply.isError, withRedis]

theorem wp_ok_hset (ptr : Ptr) (key field value : CString) (Q : Int → World → Prop) (w : World) :
    wp ok (hset ptr key field value) Q w ↔
      (ptr = .conn → ∀ fields, hashOf w.redis key = some fields →
        Q (if field ∈ fields then 0 else 1)
          (withRedis w (storeHash w.redis key (fields.insert field value)))) := by
  rw [hset, replyInteger, wp_bind, wp_ok_redisCommand]
  refine imp_congr_right fun _ => ?_
  simp only [Redis.Command.exec]
  cases hhash : hashOf w.redis key with
  | none => simp [wrongType, Reply.isError]
  | some fields => simp [Reply.isError, Reply.integerField, withRedis]

theorem wp_ok_hdel (ptr : Ptr) (key field : CString) (Q : Int → World → Prop) (w : World) :
    wp ok (hdel ptr key field) Q w ↔
      (ptr = .conn → ∀ fields, hashOf w.redis key = some fields →
        Q (if field ∈ fields then 1 else 0)
          (withRedis w (storeHash w.redis key (fields.erase field)))) := by
  rw [hdel, replyInteger, wp_bind, wp_ok_redisCommand]
  refine imp_congr_right fun _ => ?_
  simp only [Redis.Command.exec]
  cases hhash : hashOf w.redis key with
  | none => simp [wrongType, Reply.isError]
  | some fields => simp [Reply.isError, Reply.integerField, withRedis]

end CacheConn

/-- A keyspace in which only one key may differ. -/
def SameBut (key : CString) (ks ks' : Keyspace) : Prop :=
  ∀ other, other ≠ key → ks'.lookup other = ks.lookup other

section SameBut

variable {key other : CString} {ks ks' : Keyspace}

theorem SameBut.zsetOf (h : SameBut key ks ks') (hne : other ≠ key) :
    zsetOf ks' other = zsetOf ks other :=
  zsetOf_congr (h other hne)

theorem SameBut.hashOf (h : SameBut key ks ks') (hne : other ≠ key) :
    hashOf ks' other = hashOf ks other :=
  hashOf_congr (h other hne)

theorem SameBut.counterOf (h : SameBut key ks ks') (hne : other ≠ key) :
    counterOf ks' other = counterOf ks other :=
  counterOf_congr (h other hne)

theorem sameBut_storeZset (ks : Keyspace) (key : CString) (members : ZSet) :
    SameBut key ks (storeZset ks key members) :=
  fun _ hother => lookup_storeZset_ne ks members hother

theorem sameBut_storeHash (ks : Keyspace) (key : CString) (fields : Hash) :
    SameBut key ks (storeHash ks key fields) :=
  fun _ hother => lookup_storeHash_ne ks fields hother

end SameBut

theorem counterOf_error_isError {ks : Keyspace} {key : CString} {e : Reply}
    (h : counterOf ks key = .error e) : e.isError = true := by
  unfold counterOf at h
  split at h
  · cases h
  · split at h
    · cases h
    · cases h
      rfl
  · cases h
    rfl

/-- A successful `INCR` or `DECR` answers the new number and stores it. -/
theorem addTo_cases {ks : Keyspace} {key : CString} {delta : Int}
    (hok : (addTo ks key delta).1.isError = false) :
    ∃ n, counterOf ks key = .ok n ∧ (addTo ks key delta).1 = .integer (n + delta) ∧
      counterOf (addTo ks key delta).2 key = .ok (n + delta) ∧
      SameBut key ks (addTo ks key delta).2 := by
  cases hcount : counterOf ks key with
  | error e =>
      have herr : (addTo ks key delta).1 = e := by simp [addTo, hcount]
      rw [herr, counterOf_error_isError hcount] at hok
      cases hok
  | ok n =>
      by_cases hrange : -9223372036854775808 ≤ n + delta ∧ n + delta ≤ 9223372036854775807
      · have hadd : addTo ks key delta =
            (.integer (n + delta), store ks key (.str (CString.ofInt (n + delta)))) := by
          simp [addTo, hcount, hrange]
        refine ⟨n, rfl, by rw [hadd], ?_, fun other hother => lookup_addTo_ne ks delta hother⟩
        rw [hadd]
        exact counterOf_ofInt (valueAt_store ..) hrange.1 hrange.2
      · simp [addTo, hcount, hrange, notInteger, Reply.isError] at hok

namespace CacheConn

theorem wp_ok_set (ptr : Ptr) (key value : CString) (Q : CString → World → Prop) (w : World) :
    wp ok (set ptr key value) Q w ↔
      (ptr = .conn →
        Q (CString.lit "OK") (withRedis w (w.redis.insert key ⟨.str value, none⟩))) := by
  rw [set, replyText, wp_bind, wp_ok_redisCommand]
  simp [Redis.Command.exec, statusOk, Reply.isError, Reply.strField, withRedis]

/-- `INCR` and `DECR` succeed with the new number. -/
theorem wp_ok_incr {ptr : Ptr} {key : CString} {Q : Int × Int → World → Prop} {w : World}
    (h : ∀ n ks, counterOf w.redis key = .ok n → counterOf ks key = .ok (n + 1) →
      SameBut key w.redis ks → Q (0, n + 1) (withRedis w ks)) :
    wp ok (incr ptr key) Q w := by
  rw [incr, addCommand, wp_bind, wp_ok_redisCommand]
  intro _ hok
  obtain ⟨n, hn, hreply, hstored, hframe⟩ := addTo_cases hok
  simp only [Redis.Command.exec, hreply]
  exact h n _ hn hstored hframe

theorem wp_ok_decr {ptr : Ptr} {key : CString} {Q : Int × Int → World → Prop} {w : World}
    (h : ∀ n ks, counterOf w.redis key = .ok n → counterOf ks key = .ok (n + -1) →
      SameBut key w.redis ks → Q (0, n + -1) (withRedis w ks)) :
    wp ok (decr ptr key) Q w := by
  rw [decr, addCommand, wp_bind, wp_ok_redisCommand]
  intro _ hok
  obtain ⟨n, hn, hreply, hstored, hframe⟩ := addTo_cases hok
  simp only [Redis.Command.exec, hreply]
  exact h n _ hn hstored hframe

end CacheConn
end Redis
end TcMuzi
