import TcMuzi.Replies.Dealfile
import TcMuzi.Server.Patterns

/-!
# What `/api/dealsharefile` answers

The handlers are followed part by part: each part ends well with all its writes in effect
exactly under a condition on the pattern of failures and on the state before it.
-/

namespace TcMuzi
namespace Replies

open Base Server Redis Api Session Lib

/-! ## Redis calls as parts -/

section Calls

variable {E : Surroundings} {s : Recorded} {α : Type}

theorem redisReply_cases (E : Surroundings) (c : Redis.Command) (ks : Keyspace) :
    (E.fate (.redis c) = .answered ∧ E.redisReply c ks = .reply (c.exec ks).1) ∨
    (E.fate (.redis c) ≠ .answered ∧ (E.fate (.redis c)).executes = false ∧
      ∃ text, E.redisReply c ks = .reply (.error text)) ∨
    (E.fate (.redis c) ≠ .answered ∧
      (E.redisReply c ks = .noReply ∨ E.redisReply c ks = .initFailed)) := by
  unfold Surroundings.redisReply
  cases hfate : E.fate (.redis c) <;> simp [Fate.executes]

/-- The command is answered, and not by an error. -/
def Accepted (E : Surroundings) (c : Redis.Command) (ks : Keyspace) : Prop :=
  E.fate (.redis c) = .answered ∧ (c.exec ks).1.isError = false

theorem sameBut_next (c : Redis.Command) :
    SameBut c.key s.world.redis (E.next (.redis c) s).world.redis :=
  (world_next_redis c).2

/-- A command whose caller looks at the reply. -/
theorem wp_part_redis {ptr : Ptr} {c : Redis.Command} {k : RedisResult → Handler α} {f : Reply → α}
    {failed : α} {P : α → Prop} (hlogged : isLogged (.redis c) = true)
    (hreply : ∀ r, k (.reply r) = .ret (f r)) (hinit : k .initFailed = .ret failed)
    (hno : k .noReply = .ret failed ∨ k .noReply = .fail) (hfailed : ¬ P failed) :
    wp (patterned E) (CacheConn.redisCommand ptr c >>= k) (fun a s' =>
      Part (Accepted E c s.world.redis ∧ P (f (c.exec s.world.redis).1)) [.redis c] s s' (P a) ∧
        SameBut c.key s.world.redis s'.world.redis) s := by
  rw [wp_bind, wp_pattern_redisCommand]
  intro _
  rcases redisReply_cases E c s.world.redis with
    ⟨hfate, hres⟩ | ⟨hfate, hexec, text, hres⟩ | ⟨hfate, hres⟩
  · rw [hres, hreply, wp_ret]
    refine ⟨part_redis hlogged ?_, sameBut_next c⟩
    unfold Surroundings.Succeeds Accepted
    rw [hfate]
    simp [Fate.executes, and_comm]
  · rw [hres, hreply, wp_ret]
    refine ⟨part_redis hlogged ?_, sameBut_next c⟩
    simp [Surroundings.Succeeds, Accepted, hexec, hfate]
  · have hret : wp (patterned E) (.ret failed) (fun a s' =>
        Part (Accepted E c s.world.redis ∧ P (f (c.exec s.world.redis).1)) [.redis c] s s' (P a) ∧
          SameBut c.key s.world.redis s'.world.redis) (E.next (.redis c) s) := by
      refine ⟨part_redis hlogged ?_, sameBut_next c⟩
      simp [Accepted, hfate, hfailed]
    rcases hres with hres | hres
    · rw [hres]
      rcases hno with hno | hno
      · rw [hno]
        exact hret
      · rw [hno]
        trivial
    · rw [hres, hinit]
      exact hret

/-- A command whose caller does not look at the result. -/
theorem wp_part_ignored {ptr : Ptr} {c : Redis.Command} {k : RedisResult → Handler α}
    (hlogged : isLogged (.redis c) = true)
    (hret : ∀ result, (∃ a, k result = .ret a) ∨ k result = .fail) :
    wp (patterned E) (CacheConn.redisCommand ptr c >>= k) (fun _ s' =>
      Part (E.Succeeds c s.world.redis) [.redis c] s s' True ∧
        SameBut c.key s.world.redis s'.world.redis) s := by
  rw [wp_bind, wp_pattern_redisCommand]
  intro _
  rcases hret (E.redisReply c s.world.redis) with ⟨a, ha⟩ | hfail
  · rw [ha]
    exact ⟨part_redis hlogged (by simp), sameBut_next c⟩
  · rw [hfail]
    trivial

theorem succeeds_congr {c : Redis.Command} {ks ks' : Keyspace}
    (h : ks'.lookup c.key = ks.lookup c.key) : E.Succeeds c ks' ↔ E.Succeeds c ks := by
  rw [Surroundings.Succeeds, Surroundings.Succeeds, exec_fst_congr c h]

theorem accepted_congr {c : Redis.Command} {ks ks' : Keyspace}
    (h : ks'.lookup c.key = ks.lookup c.key) : Accepted E c ks' ↔ Accepted E c ks := by
  rw [Accepted, Accepted, exec_fst_congr c h]

end Calls

/-! ## Cancelling a share -/

def cancelWrites (msg : DealsharefileMsg) : List Server.Command :=
  [.update (.setSharedStatus msg.userName msg.md5 msg.filename 0),
    .redis (.decr filePublicCount),
    .update (.deleteShareFile msg.userName msg.md5 msg.filename),
    .redis (.zrem filePublicZset (fileidOf msg.md5 msg.filename)),
    .redis (.hdel fileNameHash (fileidOf msg.md5 msg.filename))]

/-- The counter is decremented, and reset where it became negative. -/
def CounterGood (E : Surroundings) (ks : Keyspace) : Prop :=
  Accepted E (.decr filePublicCount) ks ∧
    (((Redis.Command.decr filePublicCount).exec ks).1.integerField < 0 →
      E.fate (.redis (.set filePublicCount (CString.ofInt 0))) = .answered)

/-- The member is removed, and the hash has no field of the file. -/
def RecordsGood (E : Surroundings) (fileid : CString) (ks : Keyspace) : Prop :=
  Accepted E (.zrem filePublicZset fileid) ks ∧
    Accepted E (.hdel fileNameHash fileid) ks ∧
    ((Redis.Command.hdel fileNameHash fileid).exec ks).1.integerField = 0

structure CancelGood (E : Surroundings) (msg : DealsharefileMsg) (w : World) : Prop where
  status : E.fate (.update (.setSharedStatus msg.userName msg.md5 msg.filename 0)) = .answered
  counter : CounterGood E w.redis
  row : E.fate (.update (.deleteShareFile msg.userName msg.md5 msg.filename)) = .answered
  records : RecordsGood E (fileidOf msg.md5 msg.filename) w.redis

theorem zrem_integer {key member : CString} {ks : Keyspace}
    (h : ((Redis.Command.zrem key member).exec ks).1.isError = false) :
    ∃ n, ((Redis.Command.zrem key member).exec ks).1 = .integer n := by
  cases hzset : zsetOf ks key with
  | none => simp [Redis.Command.exec, hzset, wrongType, Reply.isError] at h
  | some members => simp [Redis.Command.exec, hzset]

section Cancel

variable {E : Surroundings} {s : Recorded} {ptr : Ptr}

theorem wp_cacheSetCount {key : CString} {n : Int} :
    wp (patterned E) (cacheSetCount ptr key n) (fun ret s' =>
      Part (E.fate (.redis (.set key (CString.ofInt n))) = .answered)
        [.redis (.set key (CString.ofInt n))] s s' (0 ≤ ret) ∧
        SameBut key s.world.redis s'.world.redis) s := by
  have hok : CString.lit "OK" ≠ CString.empty := by decide
  rw [cacheSetCount, CacheConn.set, CacheConn.replyText, wp_bind]
  refine wp_mono (wp_part_redis (f := Reply.strField) (P := fun text => text ≠ CString.empty) rfl
    (fun _ => rfl) rfl (Or.inl rfl) (fun h => h rfl)) fun text s' hpart => ?_
  refine ⟨hpart.1.congr ?_ ?_, hpart.2⟩
  · simp [Accepted, Redis.Command.exec, statusOk, Reply.isError, Reply.strField, hok]
  · split <;> simp_all

theorem wp_cacheDecrCount :
    wp (patterned E) (cacheDecrCount ptr filePublicCount) (fun ret s' =>
      Part (CounterGood E s.world.redis) [.redis (.decr filePublicCount)] s s' (0 ≤ ret) ∧
        SameBut filePublicCount s.world.redis s'.world.redis) s := by
  have hsame := sameBut_next (E := E) (s := s) (.decr filePublicCount)
  rw [cacheDecrCount, CacheConn.decr, CacheConn.addCommand, wp_bind, wp_bind,
    wp_pattern_redisCommand]
  intro _
  rcases redisReply_cases E (.decr filePublicCount) s.world.redis with
    ⟨hfate, hres⟩ | ⟨hfate, hexec, text, hres⟩ | ⟨hfate, hres⟩
  · rw [hres]
    have hdecr : Part (Accepted E (.decr filePublicCount) s.world.redis)
        [.redis (.decr filePublicCount)] s (E.next (.redis (.decr filePublicCount)) s) True := by
      refine part_redis rfl ?_
      simp [Surroundings.Succeeds, Accepted, hfate, Fate.executes]
    show wp (patterned E) (if (0 : Int) < 0 then (_ : Handler Int) else _) _ _
    rw [if_neg (by decide), wp_ite]
    refine ⟨fun hneg => ?_, fun hneg => ⟨hdecr.congr ?_ (by simp), hsame⟩⟩
    · rw [wp_bind]
      refine wp_mono wp_cacheSetCount fun ret s' hset => ⟨?_, fun other hother => ?_⟩
      · refine ((hdecr.seq trivial hset.1).congr ?_ ?_).weaken (List.subset_append_left _ _)
        · simp [CounterGood, hneg]
        · split <;> simp <;> omega
      · rw [hset.2 other hother, hsame other hother]
    · simp [CounterGood, hneg]
  · rw [hres]
    refine ⟨part_redis rfl ?_, hsame⟩
    simp [Surroundings.Succeeds, CounterGood, Accepted, hexec, hfate]
  · have hfail : Part (CounterGood E s.world.redis) [.redis (.decr filePublicCount)] s
        (E.next (.redis (.decr filePublicCount)) s) ((0 : Int) ≤ -1) := by
      refine part_redis rfl ?_
      simp [CounterGood, Accepted, hfate]
    rcases hres with hres | hres
    · rw [hres]
      exact ⟨hfail, hsame⟩
    · rw [hres]
      exact ⟨hfail, hsame⟩

/-- What a command that asks for an integer returns on a reply. -/
def integerReplied : Reply → Int
  | .integer _ => 0
  | _ => -1

/-- What a command that asks for a string returns on a reply. -/
def stringReplied : Reply → Int
  | .string _ => 0
  | _ => -1

/-- `ZsetZrem` returns 0 when its command is accepted. -/
theorem wp_zsetZrem {key member : CString} :
    wp (patterned E) (CacheConn.zsetZrem ptr key member) (fun ret s' =>
      Part (Accepted E (.zrem key member) s.world.redis) [.redis (.zrem key member)] s s'
        (ret = 0) ∧
        SameBut key s.world.redis s'.world.redis) s := by
  rw [CacheConn.zsetZrem, CacheConn.zsetWrite]
  refine wp_mono (wp_part_redis
    (f := integerReplied) (P := fun ret => ret = 0) rfl ?_ rfl
    (Or.inr rfl) (by decide)) fun ret s' hpart => ⟨hpart.1.congr ?_ Iff.rfl, hpart.2⟩
  · intro r
    cases r <;> rfl
  · refine and_iff_left_of_imp fun haccepted => ?_
    obtain ⟨n, hn⟩ := zrem_integer haccepted.2
    simp [hn, integerReplied]

theorem wp_hdel {key field : CString} :
    wp (patterned E) (CacheConn.hdel ptr key field) (fun ret s' =>
      Part (Accepted E (.hdel key field) s.world.redis ∧
          ((Redis.Command.hdel key field).exec s.world.redis).1.integerField = 0)
        [.redis (.hdel key field)] s s' (ret = 0)) s := by
  rw [CacheConn.hdel, CacheConn.replyInteger]
  exact wp_mono (wp_part_redis (f := Reply.integerField) (P := fun ret => ret = 0) rfl
    (fun _ => rfl) rfl (Or.inl rfl) (by decide)) fun _ _ hpart => hpart.1

theorem wp_removeShareRecords {md5 filename : CString} :
    wp (patterned E) (removeShareRecords ptr md5 filename) (fun ret s' =>
      Part (RecordsGood E (fileidOf md5 filename) s.world.redis)
        [.redis (.zrem filePublicZset (fileidOf md5 filename)),
          .redis (.hdel fileNameHash (fileidOf md5 filename))] s s' (ret = 0)) s := by
  rw [removeShareRecords, wp_bind]
  refine wp_mono wp_zsetZrem fun ret s₁ hzrem => ?_
  rw [wp_ite]
  refine ⟨fun hne => hzrem.1.stop hne hne, fun hzero => ?_⟩
  refine wp_mono wp_hdel fun ret' s₂ hhdel => ?_
  have hlookup := hzrem.2 (Redis.Command.hdel fileNameHash (fileidOf md5 filename)).key
    (show fileNameHash ≠ filePublicZset by decide)
  rw [accepted_congr hlookup, exec_fst_congr _ hlookup] at hhdel
  exact hzrem.1.seq (not_not.mp hzero) hhdel

theorem recordsGood_congr {fileid : CString} {ks ks' : Keyspace}
    (hzset : ks'.lookup filePublicZset = ks.lookup filePublicZset)
    (hhash : ks'.lookup fileNameHash = ks.lookup fileNameHash) :
    RecordsGood E fileid ks' ↔ RecordsGood E fileid ks := by
  have hzrem : ks'.lookup (Redis.Command.zrem filePublicZset fileid).key =
    ks.lookup (Redis.Command.zrem filePublicZset fileid).key := hzset
  have hhdel : ks'.lookup (Redis.Command.hdel fileNameHash fileid).key =
    ks.lookup (Redis.Command.hdel fileNameHash fileid).key := hhash
  rw [RecordsGood, RecordsGood, accepted_congr hzrem, accepted_congr hhdel,
    exec_fst_congr _ hhdel]

theorem cancelGood_iff {msg : DealsharefileMsg} {w : World} :
    CancelGood E msg w ↔
      E.fate (.update (.setSharedStatus msg.userName msg.md5 msg.filename 0)) = .answered ∧
      CounterGood E w.redis ∧
      E.fate (.update (.deleteShareFile msg.userName msg.md5 msg.filename)) = .answered ∧
      RecordsGood E (fileidOf msg.md5 msg.filename) w.redis :=
  ⟨fun h => ⟨h.status, h.counter, h.row, h.records⟩, fun h => ⟨h.1, h.2.1, h.2.2.1, h.2.2.2⟩⟩

theorem wp_handleCancelShareFile (msg : DealsharefileMsg) :
    wp (patterned E) (handleCancelShareFile msg.userName msg.md5 msg.filename) (fun ret s' =>
      0 ≤ ret ∧ Part (CancelGood E msg s.world) (cancelWrites msg) s s' (ret = httpRespOk)) s := by
  have hfail : ¬ (httpRespFail = httpRespOk) := by decide
  simp only [cancelGood_iff]
  rw [handleCancelShareFile, wp_pattern_withDBConn, wp_pattern_withCacheConn, wp_bind]
  refine wp_mono (wp_part_update rfl (Or.inl rfl)) fun updated s₁ hstatus => ?_
  cases updated with
  | false => exact ⟨by decide, hstatus.1.stop Bool.false_ne_true hfail⟩
  | true =>
      rw [if_pos rfl, wp_bind, ← hstatus.2]
      refine wp_mono wp_cacheDecrCount fun ret s₂ hcounter => ?_
      rw [wp_ite]
      refine ⟨fun hneg => ⟨by decide, hstatus.1.seq rfl (hcounter.1.stop (by omega) hfail)⟩,
        fun hret => ?_⟩
      rw [wp_bind, executeDrop]
      refine wp_mono (wp_part_create rfl) fun dropped s₃ hrow => ?_
      cases dropped with
      | false =>
          refine ⟨by decide, hstatus.1.seq rfl (hcounter.1.seq (by omega) ?_)⟩
          exact hrow.1.stop Bool.false_ne_true hfail
      | true =>
          rw [if_pos rfl, wp_bind]
          refine wp_mono wp_removeShareRecords fun ret' s₄ hrecords => ?_
          have hzset : s₃.world.redis.lookup filePublicZset = s₁.world.redis.lookup filePublicZset := by
            rw [hrow.2]
            exact hcounter.2 _ (by decide)
          have hhash : s₃.world.redis.lookup fileNameHash = s₁.world.redis.lookup fileNameHash := by
            rw [hrow.2]
            exact hcounter.2 _ (by decide)
          have hend := hrecords.congr (recordsGood_congr hzset hhash)
            (show ret' = 0 ↔ (if ret' = 0 then httpRespOk else httpRespFail) = httpRespOk by
              split <;> simp_all)
          refine ⟨?_, hstatus.1.seq rfl (hcounter.1.seq (by omega) (hrow.1.seq rfl hend))⟩
          split <;> decide

end Cancel

/-! ## Saving a shared file -/

def saveWrites (msg : DealsharefileMsg) (count : Int) (createTime : CString) : List Server.Command :=
  [.update (.setFileCount msg.md5 (wrapInt32 (count + 1))),
    .update (.insertUserFile (newUserFile msg.userName msg.md5 createTime msg.filename)),
    .redis (.incr (fileUserCount ++ msg.userName))]

/-- The count of the file is read and written back, and the row of the user inserted. -/
def ReferenceGood (E : Surroundings) (msg : DealsharefileMsg) (db : Mysql.Tables) : Prop :=
  ∃ count rest, E.fate (.query (.fileCount msg.md5 false)) = .answered ∧
    (Mysql.Query.fileCount msg.md5 false).exec db = some (count :: rest) ∧
    E.fate (.update (.setFileCount msg.md5 (wrapInt32 (count + 1)))) = .answered ∧
    E.fate (.update (.insertUserFile
      (newUserFile msg.userName msg.md5 (E.sys .currentTime) msg.filename))) = .answered

structure SaveGood (E : Surroundings) (msg : DealsharefileMsg) (w : World) : Prop where
  asked : E.fate (.query (.userFile msg.userName msg.md5 msg.filename false)) = .answered
  absent : (Mysql.Query.userFile msg.userName msg.md5 msg.filename false).exec w.db = some []
  reference : ReferenceGood E msg w.db
  counter : Accepted E (.incr (fileUserCount ++ msg.userName)) w.redis

section Save

variable {E : Surroundings} {s : Recorded} {ptr : Ptr}

theorem wp_saveReference (msg : DealsharefileMsg) :
    wp (patterned E) (saveReference ptr msg.userName msg.md5 msg.filename) (fun ret s' =>
      (∃ count createTime, Part (ReferenceGood E msg s.world.db)
        [.update (.setFileCount msg.md5 (wrapInt32 (count + 1))),
          .update (.insertUserFile (newUserFile msg.userName msg.md5 createTime msg.filename))]
        s s' (ret = 0)) ∧ s'.world.redis = s.world.redis) s := by
  rw [saveReference, wp_bind, getResultOneCount, wp_bind, wp_pattern_executeQuery]
  intro hptr
  by_cases hfate : E.fate (.query (.fileCount msg.md5 false)) = .answered
  · rw [if_pos hfate]
    cases hrows : (Mysql.Query.fileCount msg.md5 false).exec s.world.db with
    | none => trivial
    | some rows =>
        cases rows with
        | nil =>
            refine ⟨⟨0, CString.empty, Part.never (List.Subset.refl _) (by decide) ?_⟩, rfl⟩
            rintro ⟨count, rest, _, hexec, _⟩
            rw [hrows] at hexec
            cases hexec
        | cons count rest =>
            have hgood : ReferenceGood E msg s.world.db ↔
                E.fate (.update (.setFileCount msg.md5 (wrapInt32 (count + 1)))) = .answered ∧
                E.fate (.update (.insertUserFile
                  (newUserFile msg.userName msg.md5 (E.sys .currentTime) msg.filename))) =
                  .answered := by
              constructor
              · rintro ⟨count', rest', _, hexec, hupdate, hinsert⟩
                rw [hrows] at hexec
                cases hexec
                exact ⟨hupdate, hinsert⟩
              · exact fun h => ⟨count, rest, hfate, hrows, h.1, h.2⟩
            rw [hgood]
            show wp _ (executeUpdate ptr (.setFileCount msg.md5 (wrapInt32 (count + 1))) true >>= _)
              _ s
            rw [wp_bind]
            refine wp_mono (wp_part_update rfl (Or.inr (Mysql.changed_incremented hrows)))
              fun updated s₁ hcount => ?_
            cases updated with
            | false =>
                refine ⟨⟨count, E.sys .currentTime, ?_⟩, hcount.2⟩
                exact hcount.1.stop Bool.false_ne_true (by decide)
            | true =>
                rw [if_pos rfl, wp_bind, wp_pattern_currentTime, wp_bind]
                refine wp_mono (wp_part_create rfl) fun inserted s₂ hrow => ?_
                refine ⟨⟨count, E.sys .currentTime, hcount.1.seq rfl (hrow.1.congr Iff.rfl ?_)⟩,
                  hrow.2.trans hcount.2⟩
                cases inserted <;> decide
  · rw [if_neg hfate]
    trivial

theorem wp_incr {key : CString} :
    wp (patterned E) (cacheIncrCount ptr key) (fun ret s' =>
      Part (Accepted E (.incr key) s.world.redis) [.redis (.incr key)] s s' (0 ≤ ret)) s := by
  rw [cacheIncrCount, CacheConn.incr, CacheConn.addCommand, wp_bind]
  refine wp_mono (wp_part_redis (f := fun r => ((0 : Int), r.integerField))
    (P := fun out => 0 ≤ out.1) rfl (fun _ => rfl) rfl (Or.inl rfl) (by decide))
    fun out s' hpart => hpart.1.congr (and_iff_left (Int.le_refl 0)) ?_
  show 0 ≤ out.1 ↔ 0 ≤ if out.1 < 0 then (-1 : Int) else 0
  split <;> omega

theorem saveGood_iff {msg : DealsharefileMsg} {w : World}
    (hasked : E.fate (.query (.userFile msg.userName msg.md5 msg.filename false)) = .answered)
    (habsent : (Mysql.Query.userFile msg.userName msg.md5 msg.filename false).exec w.db = some []) :
    SaveGood E msg w ↔
      ReferenceGood E msg w.db ∧ Accepted E (.incr (fileUserCount ++ msg.userName)) w.redis :=
  ⟨fun h => ⟨h.reference, h.counter⟩, fun h => ⟨hasked, habsent, h.1, h.2⟩⟩

theorem wp_handleSaveFile (msg : DealsharefileMsg) :
    wp (patterned E) (handleSaveFile msg.userName msg.md5 msg.filename) (fun ret s' =>
      0 ≤ ret ∧ ∃ count createTime,
        Part (SaveGood E msg s.world) (saveWrites msg count createTime) s s' (ret = httpRespOk)) s := by
  have hfail : ¬ (httpRespFail = httpRespOk) := by decide
  rw [handleSaveFile, wp_pattern_withDBConn, wp_pattern_withCacheConn, wp_bind,
    checkwhetherHaveRecord, wp_bind, wp_pattern_executeQuery]
  intro hptr
  by_cases hasked : E.fate (.query (.userFile msg.userName msg.md5 msg.filename false)) = .answered
  · rw [if_pos hasked]
    cases hrows : (Mysql.Query.userFile msg.userName msg.md5 msg.filename false).exec s.world.db with
    | none =>
        refine ⟨by decide, 0, CString.empty, Part.never (List.Subset.refl _) hfail fun hgood => ?_⟩
        have habsent := hgood.absent
        rw [hrows] at habsent
        cases habsent
    | some rows =>
        cases rows with
        | cons row rows =>
            refine ⟨by decide, 0, CString.empty, Part.never (List.Subset.refl _) (by decide) fun hgood => ?_⟩
            have habsent := hgood.absent
            rw [hrows] at habsent
            cases habsent
        | nil =>
            show wp _ (saveReference _ msg.userName msg.md5 msg.filename >>= _) _ s
            rw [wp_bind]
            refine wp_mono (wp_saveReference msg) fun saved s₁ hsaved => ?_
            obtain ⟨⟨count, createTime, hpart⟩, hredis⟩ := hsaved
            simp only [saveGood_iff hasked hrows]
            rw [wp_ite]
            refine ⟨fun hne => ⟨by decide, count, createTime, hpart.stop hne hfail⟩, fun hzero => ?_⟩
            rw [wp_bind]
            refine wp_mono wp_incr fun ret s₂ hincr => ?_
            rw [hredis] at hincr
            have hnonneg : 0 ≤ if ret < 0 then httpRespFail else httpRespOk := by
              split <;> decide
            refine ⟨hnonneg, count, createTime, ?_⟩
            refine hpart.seq (not_not.mp hzero) (hincr.congr Iff.rfl ?_)
            show 0 ≤ ret ↔ (if ret < 0 then httpRespFail else httpRespOk) = httpRespOk
            split <;> simp_all
  · rw [if_neg hasked]
    exact ⟨by decide, 0, CString.empty, Part.never (List.Subset.refl _) hfail fun hgood => hasked hgood.asked⟩

end Save

/-! ## Counting downloads -/

/-- The writes of a download whose file has a score. -/
def pvWrites (msg : DealsharefileMsg) (pv : Int) : List Server.Command :=
  [.update (.setShareFilePv msg.md5 msg.filename (wrapInt32 (pv + 1))),
    .redis (.zincrby filePublicZset (fileidOf msg.md5 msg.filename))]

/-- The writes of a download whose file has none. -/
def pvPutBack (msg : DealsharefileMsg) (pv : Int) : List Server.Command :=
  [.update (.setShareFilePv msg.md5 msg.filename (wrapInt32 (pv + 1))),
    .redis (.zadd filePublicZset (wrapInt32 (pv + 1)) (fileidOf msg.md5 msg.filename)),
    .redis (.hset fileNameHash (fileidOf msg.md5 msg.filename) msg.filename)]

/-- The number of downloads is read and written back. -/
structure IncrGood (E : Surroundings) (msg : DealsharefileMsg) (db : Mysql.Tables) (pv : Int) :
    Prop where
  asked : E.fate (.query (.shareFilePvForUpdate msg.md5 msg.filename)) = .answered
  read : ∃ rest, (Mysql.Query.shareFilePvForUpdate msg.md5 msg.filename).exec db = some (pv :: rest)
  written : E.fate (.update (.setShareFilePv msg.md5 msg.filename (wrapInt32 (pv + 1)))) = .answered

/-- A transaction that is open is committed. -/
def CommitGood (E : Surroundings) : Prop :=
  (E.fate .startTransaction).executes = true → (E.fate .commit).executes = true

/-- The score of the file is incremented; a missing member is put back with its name. -/
def ScoreGood (E : Surroundings) (msg : DealsharefileMsg) (pv : Int) (ks : Keyspace) : Prop :=
  E.fate (.redis (.zscore filePublicZset (fileidOf msg.md5 msg.filename))) = .answered ∧
    match ((Redis.Command.zscore filePublicZset (fileidOf msg.md5 msg.filename)).exec ks).1 with
    | .string _ => Accepted E (.zincrby filePublicZset (fileidOf msg.md5 msg.filename)) ks
    | .nil =>
        E.Succeeds (.zadd filePublicZset (wrapInt32 (pv + 1)) (fileidOf msg.md5 msg.filename)) ks ∧
          E.Succeeds (.hset fileNameHash (fileidOf msg.md5 msg.filename) msg.filename) ks
    | _ => False

def PvGood (E : Surroundings) (msg : DealsharefileMsg) (w : World) : Prop :=
  ∃ pv, IncrGood E msg w.db pv ∧ CommitGood E ∧ ScoreGood E msg pv w.redis

/-- No transaction of the log is left open. -/
def Committed (log : List (Server.Command × Bool)) : Prop :=
  (Server.Command.startTransaction, true) ∈ log → (Server.Command.commit, true) ∈ log

section Pv

variable {E : Surroundings} {s : Recorded} {ptr : Ptr}

theorem zincrby_string {key member : CString} {ks : Keyspace}
    (h : ((Redis.Command.zincrby key member).exec ks).1.isError = false) :
    ∃ text, ((Redis.Command.zincrby key member).exec ks).1 = .string text := by
  cases hzset : zsetOf ks key with
  | none => simp [Redis.Command.exec, hzset, wrongType, Reply.isError] at h
  | some members => simp [Redis.Command.exec, hzset]

theorem next_zscore (key member : CString) : E.next (.redis (.zscore key member)) s = s := by
  refine next_idle rfl fun w => ?_
  simp only [effectOf, Redis.Command.exec]
  split <;> rfl

/-- `ZsetExist` and the score behind it. -/
theorem wp_zsetExist {key member : CString} :
    wp (patterned E) (CacheConn.zsetExist ptr key member) (fun exist s' => s' = s ∧
      ((exist = 1 ∧ E.fate (.redis (.zscore key member)) = .answered ∧
        ∃ text, ((Redis.Command.zscore key member).exec s.world.redis).1 = .string text) ∨
      (exist = 0 ∧ E.fate (.redis (.zscore key member)) = .answered ∧
        ((Redis.Command.zscore key member).exec s.world.redis).1 = .nil) ∨
      (exist = -1 ∧ ¬ (E.fate (.redis (.zscore key member)) = .answered ∧
        (((Redis.Command.zscore key member).exec s.world.redis).1 = .nil ∨
        ∃ text, ((Redis.Command.zscore key member).exec s.world.redis).1 = .string text))))) s := by
  rw [CacheConn.zsetExist, wp_bind, wp_pattern_redisCommand, next_zscore]
  intro _
  rcases redisReply_cases E (.zscore key member) s.world.redis with
    ⟨hfate, hres⟩ | ⟨hfate, _, text, hres⟩ | ⟨hfate, hres | hres⟩
  · rw [hres]
    cases hreply : ((Redis.Command.zscore key member).exec s.world.redis).1 with
    | nil => exact ⟨rfl, Or.inr (Or.inl ⟨rfl, hfate, rfl⟩)⟩
    | string text => exact ⟨rfl, Or.inl ⟨rfl, hfate, text, rfl⟩⟩
    | _ => exact ⟨rfl, Or.inr (Or.inr ⟨rfl, by simp⟩)⟩
  · rw [hres]
    exact ⟨rfl, Or.inr (Or.inr ⟨rfl, fun h => hfate h.1⟩)⟩
  · rw [hres]
    trivial
  · rw [hres]
    exact ⟨rfl, Or.inr (Or.inr ⟨rfl, fun h => hfate h.1⟩)⟩

theorem wp_incrShareScore (msg : DealsharefileMsg) (pv : Int) :
    wp (patterned E) (incrShareScore ptr msg.md5 msg.filename pv) (fun ret s' =>
      ∃ writes, (writes = (pvWrites msg pv).tail ∨ writes = (pvPutBack msg pv).tail) ∧
        Part (ScoreGood E msg pv s.world.redis) writes s s' (ret = 0)) s := by
  rw [incrShareScore, wp_bind]
  refine wp_mono wp_zsetExist ?_
  rintro exist _ ⟨rfl, ⟨rfl, hfate, text, hreply⟩ | ⟨rfl, hfate, hreply⟩ | ⟨rfl, hno⟩⟩
  · rw [if_pos rfl, CacheConn.zsetIncr]
    refine wp_mono (wp_part_redis (f := stringReplied) (P := fun ret => ret = 0)
      rfl ?_ rfl (Or.inr rfl) (by decide)) fun ret s' hpart => ⟨_, Or.inl rfl, hpart.1.congr ?_ Iff.rfl⟩
    · intro r
      cases r <;> rfl
    · simp only [ScoreGood, hfate, hreply, true_and]
      refine and_iff_left_of_imp fun haccepted => ?_
      obtain ⟨score, hscore⟩ := zincrby_string haccepted.2
      simp [hscore, stringReplied]
  · rw [if_neg (by decide), if_pos rfl, wp_bind]
    refine wp_mono (wp_part_ignored rfl ?_) fun _ s₁ hadd => ?_
    · rintro (_ | _ | r)
      · exact Or.inl ⟨-1, rfl⟩
      · exact Or.inr rfl
      · cases r <;> exact Or.inl ⟨_, rfl⟩
    rw [wp_bind]
    refine wp_mono (wp_part_ignored rfl ?_) fun _ s₂ hset => ⟨_, Or.inr rfl, ?_⟩
    · rintro (_ | _ | r) <;> exact Or.inl ⟨_, rfl⟩
    have hlookup := hadd.2
      (Redis.Command.hset fileNameHash (fileidOf msg.md5 msg.filename) msg.filename).key
      (show fileNameHash ≠ filePublicZset by decide)
    refine (hadd.1.seq trivial (hset.1.congr (succeeds_congr hlookup) Iff.rfl)).congr ?_ (by simp)
    simp only [ScoreGood, hfate, hreply, true_and]
  · rw [if_neg (by decide), if_neg (by decide)]
    refine ⟨_, Or.inl rfl, Part.never (List.Subset.refl _) (by decide) fun hgood => hno ⟨hgood.1, ?_⟩⟩
    have hmatch := hgood.2
    split at hmatch
    · rename_i text hreply
      exact Or.inr ⟨text, hreply⟩
    · rename_i hreply
      exact Or.inl hreply
    · exact absurd hmatch id

/-- What the transaction of a download leaves. -/
def IncrResult (E : Surroundings) (msg : DealsharefileMsg) (s : Recorded) (result : Option Int)
    (s' : Recorded) : Prop :=
  s'.world.redis = s.world.redis ∧
    match result with
    | none => s.log ⊆ s'.log ∧ ∀ pv, ¬ IncrGood E msg s.world.db pv
    | some pv =>
        Part (IncrGood E msg s.world.db pv)
          [.update (.setShareFilePv msg.md5 msg.filename (wrapInt32 (pv + 1)))] s s' True ∧
        (∃ rest, (Mysql.Query.shareFilePvForUpdate msg.md5 msg.filename).exec s.world.db =
          some (pv :: rest)) ∧
        (s.log = [] → (Committed s'.log ↔ CommitGood E))

theorem incrResult_rollback {msg : DealsharefileMsg} {m : Recorded}
    (hredis : m.world.redis = s.world.redis) (hgrows : s.log ⊆ m.log)
    (hbad : ∀ pv, ¬ IncrGood E msg s.world.db pv) :
    wp (patterned E) (rollback ptr >>= fun _ => .ret none) (IncrResult E msg s) m := by
  rw [wp_bind, wp_pattern_rollback]
  intro _
  exact ⟨redis_next_rollback.trans hredis, fun e he => log_subset_next _ (hgrows he), hbad⟩

/-- The log of a transaction that went through. -/
theorem committed_next {u : Mysql.Update} (hlog : s.log = []) :
    Committed (E.next .commit (E.next (.update u) (E.next .startTransaction s))).log ↔
      CommitGood E := by
  have hstart : (E.outcome .startTransaction s.world).2 = (E.fate .startTransaction).executes := by
    unfold Surroundings.outcome
    split <;> simp_all [effectOf]
  have hcommit : ∀ w, (E.outcome .commit w).2 = (E.fate .commit).executes := by
    intro w
    unfold Surroundings.outcome
    split <;> simp_all [effectOf]
  rw [log_next rfl, log_next rfl, log_next rfl, hlog, hstart, hcommit]
  simp [Committed, CommitGood]

theorem wp_incrSharePv (msg : DealsharefileMsg) :
    wp (patterned E) (incrSharePv ptr msg.md5 msg.filename) (IncrResult E msg s) s := by
  have hstart := part_transaction (E := E) (s := s) (c := .startTransaction) rfl (Or.inl rfl)
  obtain ⟨hdb, hredis⟩ := world_next_startTransaction (E := E) (s := s)
  rw [incrSharePv, wp_bind, wp_pattern_startTransaction]
  intro hptr
  rw [wp_bind, wp_pattern_executeQuery, hdb]
  intro _
  by_cases hasked : E.fate (.query (.shareFilePvForUpdate msg.md5 msg.filename)) = .answered
  · rw [if_pos hasked]
    cases hrows : (Mysql.Query.shareFilePvForUpdate msg.md5 msg.filename).exec s.world.db with
    | none =>
        refine incrResult_rollback hredis hstart.grows fun pv hgood => ?_
        obtain ⟨rest, hread⟩ := hgood.read
        rw [hrows] at hread
        cases hread
    | some rows =>
        cases rows with
        | nil =>
            refine incrResult_rollback hredis hstart.grows fun pv hgood => ?_
            obtain ⟨rest, hread⟩ := hgood.read
            rw [hrows] at hread
            cases hread
        | cons pv rest =>
            show wp _ (executeUpdate ptr
              (.setShareFilePv msg.md5 msg.filename (wrapInt32 (pv + 1))) false >>= _) _ _
            rw [wp_bind, wp_pattern_executeUpdate rfl]
            intro _
            have hupdate := part_update (E := E) (s := E.next .startTransaction s)
              (u := .setShareFilePv msg.md5 msg.filename (wrapInt32 (pv + 1))) rfl
            have hsame := redis_next_update (E := E) (s := E.next .startTransaction s)
              (.setShareFilePv msg.md5 msg.filename (wrapInt32 (pv + 1)))
            by_cases hwritten :
                E.fate (.update (.setShareFilePv msg.md5 msg.filename (wrapInt32 (pv + 1)))) =
                  .answered
            · rw [decide_eq_true hwritten, if_pos (by simp), wp_bind, wp_pattern_commit]
              refine fun _ => ⟨redis_next_commit.trans (hsame.trans hredis), ?_, ⟨rest, hrows⟩,
                committed_next⟩
              have hcommit := part_transaction (E := E) (c := .commit) (s := E.next (.update
                (.setShareFilePv msg.md5 msg.filename (wrapInt32 (pv + 1))))
                (E.next .startTransaction s)) rfl
                (Or.inr (Or.inl rfl))
              refine (hstart.seq trivial (hupdate.seq hwritten hcommit)).congr ?_ Iff.rfl
              rw [true_and, and_true]
              exact ⟨fun h => ⟨hasked, ⟨rest, hrows⟩, h⟩, fun h => h.written⟩
            · rw [decide_eq_false hwritten, if_neg (by simp)]
              refine incrResult_rollback (hsame.trans hredis)
                (fun e he => hupdate.grows (hstart.grows he)) fun pv' hgood => ?_
              obtain ⟨rest', hread⟩ := hgood.read
              rw [hrows] at hread
              cases hread
              exact hwritten hgood.written
  · rw [if_neg hasked]
    exact incrResult_rollback hredis hstart.grows fun pv hgood => hasked hgood.asked

def IsRedis : Server.Command → Prop
  | .redis _ => True
  | _ => False

/-- Commands of Redis open and close no transaction. -/
theorem wp_committed {α : Type} {p : Handler α} (hp : Uses IsRedis p) :
    wp (patterned E) p (fun _ s' => Committed s'.log ↔ Committed s.log) s := by
  refine wp_of_uses (I := fun s' : Recorded => Committed s'.log ↔ Committed s.log) (fun _ _ _ _ => trivial) ?_
    (fun _ _ => trivial) hp Iff.rfl
  rintro c s' r _ hc hsame ⟨rfl, rfl⟩
  cases c with
  | redis c =>
      rw [← hsame]
      unfold Surroundings.next
      split
      · simp [Committed]
      · exact Iff.rfl
  | _ => exact absurd hc id

theorem pvGood_iff {msg : DealsharefileMsg} {w : World} {pv : Int} {rest : List Int}
    (hread : (Mysql.Query.shareFilePvForUpdate msg.md5 msg.filename).exec w.db =
      some (pv :: rest)) :
    PvGood E msg w ↔ (IncrGood E msg w.db pv ∧ ScoreGood E msg pv w.redis) ∧ CommitGood E := by
  constructor
  · rintro ⟨pv', hincr, hcommit, hscore⟩
    obtain ⟨rest', hread'⟩ := hincr.read
    rw [hread] at hread'
    cases hread'
    exact ⟨⟨hincr, hscore⟩, hcommit⟩
  · exact fun h => ⟨pv, h.1.1, h.2, h.1.2⟩

theorem wp_handlePvFile (msg : DealsharefileMsg) (w : World) :
    wp (patterned E) (handlePvFile msg.md5 msg.filename) (fun ret s' =>
      0 ≤ ret ∧ ((ret = httpRespOk ∧ (∃ pv, AllWrites (pvWrites msg pv) s'.log ∨
        AllWrites (pvPutBack msg pv) s'.log) ∧ Committed s'.log) ↔ PvGood E msg w)) ⟨w, []⟩ := by
  rw [handlePvFile, wp_pattern_withDBConn, wp_pattern_withCacheConn, wp_bind]
  refine wp_mono (wp_incrSharePv msg) fun result s₁ hresult => ?_
  obtain ⟨hredis, hresult⟩ := hresult
  cases result with
  | none =>
      refine ⟨by decide, iff_of_false (fun h => absurd h.1 (by decide)) ?_⟩
      rintro ⟨pv, hincr, _⟩
      exact hresult.2 pv hincr
  | some pv =>
      obtain ⟨hincr, ⟨rest, hread⟩, hcommit⟩ := hresult
      show wp _ (incrShareScore _ msg.md5 msg.filename pv >>= _) _ s₁
      have huses : Uses IsRedis (incrShareScore (E.reply .getCacheConn w) msg.md5 msg.filename pv) :=
        @uses_incrShareScore IsRedis CString.empty (fun _ _ => trivial) _ msg.md5 msg.filename pv
      rw [wp_bind]
      refine wp_mono (wp_and (wp_incrShareScore msg pv) (wp_committed huses)) fun ret s₂ hscore => ?_
      obtain ⟨⟨writes, hwrites, hscore⟩, hsame⟩ := hscore
      rw [hredis] at hscore
      have hnonneg : 0 ≤ if ret = 0 then httpRespOk else httpRespFail := by
        split <;> decide
      have hret : (if ret = 0 then httpRespOk else httpRespFail) = httpRespOk ↔ ret = 0 := by
        split <;> simp_all [httpRespOk, httpRespFail]
      refine ⟨hnonneg, ?_⟩
      have hpart := hincr.seq trivial hscore
      rw [hret, hsame, hcommit rfl, pvGood_iff hread]
      constructor
      · rintro ⟨hzero, ⟨_, hall⟩, hcommitted⟩
        have hclean : Clean s₂.log := by
          rcases hall with hall | hall
          · exact hall.1
          · exact hall.1
        exact ⟨(hpart.clean.mp ⟨hzero, hclean⟩).2, hcommitted⟩
      · rintro ⟨hgood, hcommitted⟩
        obtain ⟨hzero, hall⟩ := (hpart.allWrites clean_nil).mpr hgood
        refine ⟨hzero, ⟨pv, ?_⟩, hcommitted⟩
        rcases hwrites with rfl | rfl
        · exact Or.inl hall
        · exact Or.inr hall

end Pv

/-! ## The request -/

/-- The handler that a request ran, with the fields it ran on and its value. -/
inductive DealsharefileRan
  | nothing
  | cancel (msg : DealsharefileMsg) (ret : Int)
  | save (msg : DealsharefileMsg) (ret : Int)
  | pv (msg : DealsharefileMsg) (ret : Int)

def DealsharefileRan.ret : DealsharefileRan → Option Int
  | .nothing => none
  | .cancel _ ret => some ret
  | .save _ ret => some ret
  | .pv _ ret => some ret

/-- The dispatch with a note of what it ran. -/
def dealsharefileCmdTraced (cmd : CString) (msg : DealsharefileMsg) :
    Handler (Int × DealsharefileRan) :=
  if cmd = CString.lit "cancel" then do
    let ret ← handleCancelShareFile msg.userName msg.md5 msg.filename
    return (ret, .cancel msg ret)
  else if cmd = CString.lit "save" then do
    let ret ← handleSaveFile msg.userName msg.md5 msg.filename
    return (ret, .save msg ret)
  else if cmd = CString.lit "pv" then do
    let ret ← handlePvFile msg.md5 msg.filename
    return (ret, .pv msg ret)
  else
    return (0, .nothing)

def dealsharefileTraced (reader : JsonReader) (url postData : List UInt8) :
    Handler (Response × DealsharefileRan) := do
  let cmd ← parseCmd url
  let some msg ← decodeDealsharefileJson reader postData
    | return ((0, some (encodeCode httpRespFail)), .nothing)
  let (ret, ran) ← dealsharefileCmdTraced cmd msg
  return ((0, some (encodeCode (if ret < 0 then httpRespFail else httpRespOk))), ran)

theorem dealsharefileCmdTraced_fst (cmd : CString) (msg : DealsharefileMsg) :
    dealsharefileCmdTraced cmd msg >>= (fun out => .ret out.1) = dealsharefileCmd cmd msg := by
  have hdone : ∀ {p : Handler Int} {f : Int → DealsharefileRan},
      (p >>= fun ret => .ret (ret, f ret)) >>= (fun out => .ret out.1) = p := by
    intro p f
    rw [Prog.bind_assoc]
    exact Prog.bind_ret p
  refine map_ite (fun _ => hdone) fun _ => map_ite (fun _ => hdone) fun _ => ?_
  exact map_ite (fun _ => hdone) fun _ => rfl

/-- Without the note it is the entry point. -/
theorem dealsharefileTraced_fst (reader : JsonReader) (url postData : List UInt8) :
    dealsharefileTraced reader url postData >>= (fun out => .ret out.1) =
      apiDealsharefile reader url postData := by
  refine map_bind fun cmd => map_bind fun msg => ?_
  cases msg with
  | none => rfl
  | some msg =>
      show (dealsharefileCmdTraced cmd msg >>= _) >>= _ = dealsharefileCmd cmd msg >>= _
      rw [← dealsharefileCmdTraced_fst, Prog.bind_assoc, Prog.bind_assoc]
      rfl

/-! ## When the response is right -/

/-- The writes of the handler took effect. -/
def WroteAll : DealsharefileRan → List (Server.Command × Bool) → Prop
  | .nothing, _ => False
  | .cancel msg _, log => AllWrites (cancelWrites msg) log
  | .save msg _, log => ∃ count createTime, AllWrites (saveWrites msg count createTime) log
  | .pv msg _, log =>
      (∃ pv, AllWrites (pvWrites msg pv) log ∨ AllWrites (pvPutBack msg pv) log) ∧ Committed log

/-- The user has the file. -/
def HoldsFile (w : World) (msg : DealsharefileMsg) : Prop :=
  ∃ row ∈ w.db.userFileList, Mysql.isUserFile msg.userName msg.md5 msg.filename row = true

/-- Both levels tell the truth about a run that started in `w`. -/
structure FaithfulShare (w : World) (ran : DealsharefileRan) (log : List (Server.Command × Bool))
    (code : Option Int) : Prop where
  wrote : ∀ ret, ran.ret = some ret → (ret = httpRespOk ↔ WroteAll ran log)
  holds : ∀ msg ret, ran = .save msg ret → (ret = httpRespFileExist ↔ HoldsFile w msg)
  code : ∃ n, code = some n ∧ (n = httpRespOk ↔ ran.ret = some httpRespOk)

/-- The command of the URL, or what the unwritten buffer holds. -/
def cmdOf (E : Surroundings) (url : List UInt8) : CString :=
  (queryParseKeyValue (CString.cStr url) (CString.lit "cmd")).getD (E.sys .uninitialised)

/-- The fields of the body. -/
def dealsharefileMsg (reader : JsonReader) (postData : List UInt8) : Option DealsharefileMsg := do
  let root ← reader postData
  let userName ← memberText root "user"
  let md5 ← memberText root "md5"
  let filename ← memberText root "filename"
  return ⟨userName, md5, filename⟩

/-- The handler of the command succeeds. -/
def CmdGood (E : Surroundings) (cmd : CString) (msg : DealsharefileMsg) (w : World) : Prop :=
  if cmd = CString.lit "cancel" then CancelGood E msg w
  else if cmd = CString.lit "save" then SaveGood E msg w
  else if cmd = CString.lit "pv" then PvGood E msg w
  else False

/-- The body lacks a field, or the handler of the command succeeds. -/
def ShareGood (E : Surroundings) (reader : JsonReader) (url postData : List UInt8) (w : World) :
    Prop :=
  ∀ msg, dealsharefileMsg reader postData = some msg → CmdGood E (cmdOf E url) msg w

section Runs

variable {E : Surroundings}

theorem SaveGood.not_holds {msg : DealsharefileMsg} {w : World} (h : SaveGood E msg w) :
    ¬ HoldsFile w msg := by
  have hnone := h.absent
  simp only [Mysql.Query.exec, Option.some.injEq, List.filter_eq_nil_iff] at hnone
  rintro ⟨row, hrow, hof⟩
  exact hnone row hrow hof

/-- What the executed handler reports. -/
theorem wp_dealsharefileCmdTraced (cmd : CString) (msg : DealsharefileMsg) (w : World) :
    wp (patterned E) (dealsharefileCmdTraced cmd msg) (fun out s' => 0 ≤ out.1 ∧
      ((out.2.ret = some httpRespOk ∧ WroteAll out.2 s'.log) ↔ CmdGood E cmd msg w) ∧
      (∀ msg' ret, out.2 = .save msg' ret → CmdGood E cmd msg w → ¬ HoldsFile w msg')) ⟨w, []⟩ := by
  unfold dealsharefileCmdTraced CmdGood
  split
  · rw [wp_bind]
    refine wp_mono (wp_handleCancelShareFile msg) fun ret s' hcancel => ⟨hcancel.1, ?_, nofun⟩
    rw [← hcancel.2.allWrites clean_nil]
    simp [DealsharefileRan.ret, WroteAll]
  split
  · rw [wp_bind]
    refine wp_mono (wp_handleSaveFile msg) fun ret s' hsave => ?_
    obtain ⟨hnonneg, count, createTime, hsave⟩ := hsave
    refine ⟨hnonneg, ?_, ?_⟩
    · simp only [DealsharefileRan.ret, WroteAll, Option.some.injEq]
      constructor
      · rintro ⟨hret, _, _, hall⟩
        exact (hsave.clean.mp ⟨hret, hall.1⟩).2
      · intro hgood
        obtain ⟨hret, hall⟩ := (hsave.allWrites clean_nil).mpr hgood
        exact ⟨hret, count, createTime, hall⟩
    · rintro msg' ret' heq hgood
      cases heq
      exact hgood.not_holds
  split
  · rw [wp_bind]
    refine wp_mono (wp_handlePvFile msg w) fun ret s' hpv => ⟨hpv.1, ?_, nofun⟩
    rw [← hpv.2]
    simp [DealsharefileRan.ret, WroteAll]
  · exact ⟨by decide, iff_of_false (fun h => h.2) id, nofun⟩

/-- A known command answers 0 whatever its handler returned. -/
theorem faithfulShare_zero_iff {w : World} {ran : DealsharefileRan}
    {log : List (Server.Command × Bool)} {code : Option Int} {good : Prop}
    (hcode : code = some 0) (hwrote : (ran.ret = some httpRespOk ∧ WroteAll ran log) ↔ good)
    (hholds : ∀ msg ret, ran = .save msg ret → good → ¬ HoldsFile w msg) :
    FaithfulShare w ran log code ↔ good := by
  rw [← hwrote]
  constructor
  · intro h
    obtain ⟨n, hn, hret⟩ := h.code
    have hzero : ran.ret = some httpRespOk := hret.mp (Option.some.inj (hn.symm.trans hcode))
    exact ⟨hzero, (h.wrote _ hzero).mp rfl⟩
  · intro h
    refine ⟨fun ret hret => ?_, ?_, 0, hcode, iff_of_true rfl h.1⟩
    · have hzero := Option.some.inj (hret.symm.trans h.1)
      exact iff_of_true hzero h.2
    · rintro msg ret rfl
      have hzero : ret = httpRespOk := Option.some.inj h.1
      refine iff_of_false ?_ (hholds msg ret rfl (hwrote.mp h))
      rw [hzero]
      decide

theorem wp_parseCmd (url : List UInt8) (s : Recorded) :
    wp (patterned E) (parseCmd url) (fun cmd s' => cmd = cmdOf E url ∧ s' = s) s := by
  unfold parseCmd cmdOf
  cases queryParseKeyValue (CString.cStr url) (CString.lit "cmd") with
  | some cmd => exact ⟨rfl, rfl⟩
  | none =>
      rw [uninitialised, wp_pattern_issue, next_idle rfl fun _ => rfl]
      exact ⟨rfl, rfl⟩

theorem exec_decodeDealsharefileJson {σ : Type} {S : Sem Server.Command Command.Reply σ} {s s' : σ}
    {reader : JsonReader} {postData : List UInt8} {msg : Option DealsharefileMsg}
    (h : Exec S (decodeDealsharefileJson reader postData) s msg s') :
    msg = dealsharefileMsg reader postData ∧ s' = s := by
  unfold decodeDealsharefileJson at h
  cases hread : reader postData with
  | none =>
      rw [hread] at h
      cases h
      simp [dealsharefileMsg, hread]
  | some root =>
      rw [hread] at h
      have huser := exec_of_field h
      cases huserText : memberText root "user" with
      | none =>
          rw [huserText] at huser
          cases huser
          simp [dealsharefileMsg, hread, huserText]
      | some user =>
          rw [huserText] at huser
          have hmd5 := exec_of_field huser
          cases hmd5Text : memberText root "md5" with
          | none =>
              rw [hmd5Text] at hmd5
              cases hmd5
              simp [dealsharefileMsg, hread, huserText, hmd5Text]
          | some md5 =>
              rw [hmd5Text] at hmd5
              have hname := exec_of_field hmd5
              cases hnameText : memberText root "filename" with
              | none =>
                  rw [hnameText] at hname
                  cases hname
                  simp [dealsharefileMsg, hread, huserText, hmd5Text, hnameText]
              | some filename =>
                  rw [hnameText] at hname
                  cases hname
                  simp [dealsharefileMsg, hread, huserText, hmd5Text, hnameText]

/-- A completed request is answered faithfully at both levels exactly when its body lacks a
field or its handler succeeds. -/
theorem faithfulShare_iff (E : Surroundings) (reader : JsonReader) (url postData : List UInt8)
    (w : World) {response : Response} {ran : DealsharefileRan} {s' : Recorded}
    (h : Exec (patterned E) (dealsharefileTraced reader url postData) ⟨w, []⟩ (response, ran) s') :
    FaithfulShare w ran s'.log (codeOf response) ↔ ShareGood E reader url postData w := by
  obtain ⟨cmd, s₁, hcmd, h⟩ := exec_bind_iff.mp h
  obtain ⟨rfl, rfl⟩ := wp_sound (wp_parseCmd url ⟨w, []⟩) hcmd
  obtain ⟨msg, s₂, hdecode, h⟩ := exec_bind_iff.mp h
  obtain ⟨rfl, rfl⟩ := exec_decodeDealsharefileJson hdecode
  cases hmsg : dealsharefileMsg reader postData with
  | none =>
      rw [hmsg] at h
      cases h
      refine iff_of_true ⟨nofun, nofun, httpRespFail, codeOf_encodeCode .., by simp [httpRespFail, httpRespOk, DealsharefileRan.ret]⟩ ?_
      intro msg hsome
      rw [hmsg] at hsome
      cases hsome
  | some msg =>
      rw [hmsg] at h
      obtain ⟨⟨ret, ran'⟩, s₃, hran, h⟩ := exec_bind_iff.mp h
      obtain ⟨hnonneg, hwrote, hholds⟩ :=
        wp_sound (wp_dealsharefileCmdTraced (cmdOf E url) msg w) hran
      cases h
      have hgood : ShareGood E reader url postData w ↔ CmdGood E (cmdOf E url) msg w := by
        simp [ShareGood, hmsg]
      rw [hgood]
      refine faithfulShare_zero_iff ?_ hwrote hholds
      rw [codeOf_encodeCode, if_neg (by simpa using hnonneg)]
      rfl

end Runs

/-- Every command is answered. -/
def answering : Surroundings := ⟨fun _ => .answered, sampleSys⟩

/-- `u` shares its file, which the ranking and the names list. -/
def sampleShared : World :=
  { World.empty with
    db := { Mysql.Tables.empty with
      userFileList := [⟨CString.lit "u", CString.lit "m", CString.empty, CString.lit "a", 1, 0⟩]
      shareFileList := [⟨CString.lit "u", CString.lit "m", CString.empty, CString.lit "a", 0⟩] }
    redis := ((AList.insert filePublicCount ⟨.str (CString.ofInt 1), none⟩
        (AList.insert filePublicZset
          ⟨.zset (AList.insert (CString.lit "ma") 0 ∅), none⟩
        (AList.insert fileNameHash
          ⟨.hash (AList.insert (CString.lit "ma") (CString.lit "a") ∅), none⟩ ∅)))) }

/-- `cmd=cancel` -/
def sampleCancelUrl : List UInt8 := [99, 109, 100, 61, 99, 97, 110, 99, 101, 108]

/-- The run of a pattern. -/
abbrev runPattern (E : Surroundings) (reader : JsonReader) (url : List UInt8) (w : World) :
    Option ((Response × DealsharefileRan) × Recorded) :=
  run (fun c s => some (E.reply c s.world, E.next c s)) (dealsharefileTraced reader url []) ⟨w, []⟩

theorem shareGood_pv : ShareGood answering sampleFields samplePvUrl [] sampleShared := by
  have hmsg : dealsharefileMsg sampleFields [] =
      some ⟨CString.lit "u", CString.lit "m", CString.lit "a"⟩ := by rfl
  intro msg h
  rw [hmsg] at h
  cases h
  have hcmd : cmdOf answering samplePvUrl = CString.lit "pv" := by decide +kernel
  have hscore : ((Redis.Command.zscore filePublicZset (fileidOf (CString.lit "m") (CString.lit "a"))).exec
      sampleShared.redis).1 = .string (CString.ofInt 0) := by decide +kernel
  rw [hcmd, CmdGood, if_neg (by decide), if_neg (by decide), if_pos rfl]
  refine ⟨0, ⟨rfl, ⟨[], rfl⟩, rfl⟩, fun _ => rfl, rfl, ?_⟩
  simp only [hscore]
  exact ⟨rfl, by decide +kernel⟩

/-- A download of it is answered faithfully. -/
theorem faithfulShare_iff_pv :
    ∃ response ran s', Exec (patterned answering)
      (dealsharefileTraced sampleFields samplePvUrl []) ⟨sampleShared, []⟩ (response, ran) s' ∧
      FaithfulShare sampleShared ran s'.log (codeOf response) := by
  have hrun : (runPattern answering sampleFields samplePvUrl sampleShared).isSome = true := by
    decide +kernel
  obtain ⟨⟨⟨response, ran⟩, s'⟩, hrun⟩ := Option.isSome_iff_exists.mp hrun
  have hexec := exec_of_run (fun _ _ _ _ => patterned_of_reply answering) hrun
  refine ⟨response, ran, s', hexec, ?_⟩
  exact (faithfulShare_iff answering sampleFields samplePvUrl [] sampleShared hexec).mpr shareGood_pv

/-- Cancelling a share succeeds, the handler returns 1 and the response is 0. -/
theorem not_faithfulShare_cancel :
    ¬ ∀ response ran s', Exec (patterned answering)
      (dealsharefileTraced sampleFields sampleCancelUrl []) ⟨sampleShared, []⟩ (response, ran) s' →
      FaithfulShare sampleShared ran s'.log (codeOf response) := by
  intro h
  have hrun : (runPattern answering sampleFields sampleCancelUrl sampleShared).map
      (fun out => (codeOf out.1.1, out.1.2.ret)) = some (some 0, some 1) := by decide +kernel
  obtain ⟨⟨⟨response, ran⟩, s'⟩, hrun, hout⟩ := Option.map_eq_some_iff.mp hrun
  have hfaithful := h response ran s' (exec_of_run (fun _ _ _ _ => patterned_of_reply answering) hrun)
  obtain ⟨hcode, hran⟩ := Prod.mk.inj hout
  obtain ⟨n, hn, hret⟩ := hfaithful.code
  have hzero : n = 0 := Option.some.inj (hn.symm.trans hcode)
  have hnone := hran.symm.trans (hret.mp hzero)
  exact absurd hnone (by decide)

end Replies
end TcMuzi
