import TcMuzi.Files.InstantFailures
import TcMuzi.Server.SingleFault

/-!
# Writing handlers with one failing statement

The handlers that write several times leave at the first write that fails, outside any
transaction.  `Restores` asks that a call which reports a failure changes nothing, whichever
single statement failed; `NothingToUndo` says on which states a handler achieves that.
-/

namespace TcMuzi
namespace Files

open Base Server Redis Api Mysql Lib Session

/-! ## The calls -/

inductive WriteRequest
  | store (user filename md5 : CString) (size : Int) (fileid url : CString)
  | save (user md5 filename : CString)
  | share (user md5 filename : CString)
  | cancel (user md5 filename : CString)
  | delete (user md5 filename : CString)

/-- `storeFileinfo` gets its connection from its caller. -/
def WriteRequest.prog : WriteRequest → Handler Int
  | .store user filename md5 size fileid url =>
      withDBConn .tuchuangMaster fun dbConn =>
        storeFileinfo dbConn user filename md5 size fileid url
  | .save user md5 filename => handleSaveFile user md5 filename
  | .share user md5 filename => handleShareFile user md5 filename
  | .cancel user md5 filename => handleCancelShareFile user md5 filename
  | .delete user md5 filename => handleDeleteFile user md5 filename

/-- The code of a failure. -/
def WriteRequest.failure : WriteRequest → Int
  | .store .. => -1
  | .share .. => shareFail
  | _ => httpRespFail

/-- Nothing can be told apart in MySQL or in Redis. -/
def Unchanged (w w' : World) : Prop :=
  w'.db = w.db ∧ w'.snapshot = w.snapshot ∧ ∀ key, w'.redis.lookup key = w.redis.lookup key

/-- Whichever statement fails, a reported failure has changed nothing. -/
def Restores (r : WriteRequest) (w : World) : Prop :=
  ∀ code s, Exec singleFault r.prog (w, true) code s → code = r.failure → Unchanged w s.1

/-- Executing the statement changes nothing. -/
def NoEffect : Server.Command → World → Prop
  | .update u, w => ∀ n t, u.exec w.db = some (n, t) → t = w.db
  | .redis c, w => ∀ key, (c.exec w.redis).2.lookup key = w.redis.lookup key
  | _, _ => True

/-- The last part of `handleDeleteFile`, after the user's row: without a row of the file, and
while its count is above 1, no user's row may have been removed; at 0 and 1 the row of the
file goes before FastDFS answers. -/
def ReleaseRestores (user md5 filename : CString) (t : Tables) : Prop :=
  match countsOf t md5 with
  | [] => ¬ Holds t user md5 filename
  | count :: _ => count < 0 ∨ (1 < count ∧ ¬ Holds t user md5 filename)

/-- The states in which the call has nothing to undo. -/
def NothingToUndo : WriteRequest → World → Prop
  | .store .., _ => False
  | .save user md5 filename, w => Holds w.db user md5 filename ∨ ¬ Stored w.db md5
  | .share _ md5 filename, w =>
      Shared w.db md5 filename ∨
        ∀ members, zsetOf w.redis filePublicZset = some members → fileidOf md5 filename ∈ members
  | .cancel user md5 filename, w =>
      NoEffect (.update (.setSharedStatus user md5 filename 0)) w ∧
        NoEffect (.redis (.decr filePublicCount)) w ∧
        NoEffect (.update (.deleteShareFile user md5 filename)) w ∧
        NoEffect (.redis (.zrem filePublicZset (fileidOf md5 filename))) w ∧
        -- a removed field is reported as a failure
        ((zsetOf w.redis filePublicZset).isSome → ∀ fields,
          hashOf w.redis fileNameHash = some fields → fileidOf md5 filename ∉ fields)
  | .delete user md5 filename, w =>
      ∀ members, zsetOf w.redis filePublicZset = some members →
        fileidOf md5 filename ∉ members ∧
        (sharedFlag w.db user md5 filename = 1 →
          NoEffect (.update (.deleteShareFile user md5 filename)) w ∧
            NoEffect (.redis (.decr filePublicCount)) w) ∧
        NoEffect (.redis (.decr (fileUserCount ++ user))) w ∧
        ReleaseRestores user md5 filename w.db

/-! ## Rules -/

section Rules

variable {w : World} {b : Bool}

theorem wp_fault_zsetExist {key member : CString} {Q : Int → World × Bool → Prop} :
    wp singleFault (CacheConn.zsetExist .conn key member) Q (w, b) ↔
      ((zsetOf w.redis key = none → Q (-1) (w, b)) ∧
        (∀ members, zsetOf w.redis key = some members →
          Q (if member ∈ members then 1 else 0) (w, b))) ∧
        (b = true → Q (-1) (w, false)) := by
  rw [CacheConn.zsetExist, wp_bind, wp_fault_redisCommand]
  refine and_congr ?_ (imp_congr_right fun _ => ⟨fun h => h .initFailed trivial, ?_⟩)
  · simp only [Redis.Command.exec]
    cases hzset : zsetOf w.redis key with
    | none => simp [wrongType]
    | some members =>
        by_cases hmem : member ∈ members
        · obtain ⟨score, hscore⟩ := Option.isSome_iff_exists.mp (AList.lookup_isSome.mpr hmem)
          simp [hscore, hmem]
        · have hscore := AList.lookup_eq_none.mpr hmem
          simp [hscore, hmem]
  · rintro hQ (_ | _ | r) hr
    · exact hQ
    · trivial
    · cases r with
      | error text => exact hQ
      | _ => cases hr

theorem wp_fault_zsetZrem {key member : CString} {Q : Int → World × Bool → Prop} :
    wp singleFault (CacheConn.zsetZrem .conn key member) Q (w, b) ↔
      ((zsetOf w.redis key = none → Q (-1) (w, b)) ∧
        (∀ members, zsetOf w.redis key = some members →
          Q 0 (withRedis w (storeZset w.redis key (members.erase member)), b))) ∧
        (b = true → Q (-1) (w, false)) := by
  rw [CacheConn.zsetZrem, CacheConn.zsetWrite, wp_bind, wp_fault_redisCommand]
  refine and_congr ?_ (imp_congr_right fun _ => ⟨fun h => h .initFailed trivial, ?_⟩)
  · simp only [Redis.Command.exec]
    cases hzset : zsetOf w.redis key with
    | none => simp [wrongType]
    | some members => simp
  · rintro hQ (_ | _ | r) hr
    · exact hQ
    · trivial
    · cases r with
      | error text => exact hQ
      | _ => cases hr

theorem wp_fault_hdel {key field : CString} {Q : Int → World × Bool → Prop} :
    wp singleFault (CacheConn.hdel .conn key field) Q (w, b) ↔
      ((hashOf w.redis key = none → Q 0 (w, b)) ∧
        (∀ fields, hashOf w.redis key = some fields →
          Q (if field ∈ fields then 1 else 0)
            (withRedis w (storeHash w.redis key (fields.erase field)), b))) ∧
        (b = true → Q (-1) (w, false) ∧ Q 0 (w, false)) := by
  rw [CacheConn.hdel, CacheConn.replyInteger, wp_bind, wp_fault_redisCommand]
  refine and_congr ?_ (imp_congr_right fun _ =>
    ⟨fun h => ⟨h .initFailed trivial, h (.reply notInteger) rfl⟩, ?_⟩)
  · simp only [Redis.Command.exec]
    cases hhash : hashOf w.redis key with
    | none => simp [wrongType, Reply.integerField]
    | some fields => simp [Reply.integerField]
  · rintro ⟨hQ, hzero⟩ (_ | _ | r) hr
    · exact hQ
    · exact hQ
    · cases r with
      | error text => exact hzero
      | _ => cases hr

/-- `Incr` succeeds also with an error reply. -/
theorem wp_fault_cacheIncrCount {key : CString} {Q : Int → World × Bool → Prop} :
    wp singleFault (cacheIncrCount .conn key) Q (w, b) ↔
      Q 0 (withRedis w (addTo w.redis key 1).2, b) ∧
        (b = true → Q (-1) (w, false) ∧ Q 0 (w, false)) := by
  rw [cacheIncrCount, wp_bind, CacheConn.incr, CacheConn.addCommand, wp_bind,
    wp_fault_redisCommand]
  refine and_congr Iff.rfl (imp_congr_right fun _ =>
    ⟨fun h => ⟨h .initFailed trivial, h (.reply notInteger) rfl⟩, ?_⟩)
  rintro ⟨hQ, hzero⟩ (_ | _ | r) hr
  · exact hQ
  · exact hQ
  · exact hzero

/-! ### Decrementing a counter -/

/-- `DECR` answers an error. -/
def Stuck (ks : Keyspace) (key : CString) : Prop := (addTo ks key (-1)).1.isError = true

theorem addTo_of_isError {ks : Keyspace} {key : CString} {delta : Int}
    (h : (addTo ks key delta).1.isError = true) : (addTo ks key delta).2 = ks := by
  unfold addTo at h ⊢
  split
  · rfl
  · split
    · rename_i hcount hrange
      simp [hcount, hrange, Reply.isError] at h
    · rfl

/-- A number that was decremented is another one. -/
theorem lookup_addTo_ne_self {ks : Keyspace} {key : CString} (h : ¬ Stuck ks key) :
    (addTo ks key (-1)).2.lookup key ≠ ks.lookup key := by
  intro hsame
  obtain ⟨n, hn, _, hstored, _⟩ := addTo_cases (Bool.eq_false_iff.mpr h)
  rw [counterOf_congr hsame, hn] at hstored
  have hnumber := Except.ok.inj hstored
  omega

/-- The counter is stuck exactly when `DECR` has no effect. -/
theorem noEffect_decr_iff {key : CString} :
    NoEffect (.redis (.decr key)) w ↔ Stuck w.redis key := by
  constructor
  · intro h
    by_contra hstuck
    exact lookup_addTo_ne_self hstuck (h key)
  · intro h other
    show (addTo w.redis key (-1)).2.lookup other = _
    rw [addTo_of_isError h]

/-- An error reply counts as 0. -/
theorem wp_fault_cacheDecrCount_stuck {key : CString} (h : Stuck w.redis key)
    {Q : Int → World × Bool → Prop} :
    wp singleFault (cacheDecrCount .conn key) Q (w, b) ↔
      Q 0 (w, b) ∧ (b = true → Q (-1) (w, false) ∧ Q 0 (w, false)) := by
  rw [cacheDecrCount, wp_bind, CacheConn.decr, CacheConn.addCommand, wp_bind,
    wp_fault_redisCommand]
  refine and_congr ?_ (imp_congr_right fun _ =>
    ⟨fun h => ⟨h .initFailed trivial, h (.reply notInteger) rfl⟩, ?_⟩)
  · simp only [Redis.Command.exec]
    rw [addTo_of_isError h]
    unfold Stuck at h
    cases hreply : (addTo w.redis key (-1)).1 with
    | error text => rfl
    | _ =>
        rw [hreply] at h
        cases h
  · rintro ⟨hQ, hzero⟩ (_ | _ | r) hr
    · exact hQ
    · exact hQ
    · cases r with
      | error text => exact hzero
      | _ => cases hr

/-- `DECR` fails; or it is executed, and either the count is positive or the `SET` of a
negative one fails. -/
theorem of_wp_fault_cacheDecrCount {key : CString} {Q : Int → World × Bool → Prop}
    (h : wp singleFault (cacheDecrCount .conn key) Q (w, true)) :
    Q (-1) (w, false) ∧ (¬ Stuck w.redis key →
      Q (-1) (withRedis w (addTo w.redis key (-1)).2, false) ∨
        Q 0 (withRedis w (addTo w.redis key (-1)).2, true)) := by
  rw [cacheDecrCount, wp_bind, CacheConn.decr, CacheConn.addCommand, wp_bind,
    wp_fault_redisCommand] at h
  refine ⟨h.2 rfl .initFailed trivial, fun hstuck => ?_⟩
  have hserved := h.1
  simp only [Redis.Command.exec] at hserved
  obtain ⟨n, _, hreply, _, _⟩ := addTo_cases (Bool.eq_false_iff.mpr hstuck)
  rw [hreply] at hserved
  by_cases hneg : n + -1 < 0
  · left
    change wp singleFault (if (0 : Int) < 0 then _ else if n + -1 < 0 then _ else _) _ _ at hserved
    rw [if_neg (by decide), if_pos hneg, wp_bind, cacheSetCount, wp_bind, CacheConn.set,
      CacheConn.replyText, wp_bind, wp_fault_redisCommand] at hserved
    exact hserved.2 rfl .initFailed trivial
  · right
    change wp singleFault (if (0 : Int) < 0 then _ else if n + -1 < 0 then _ else _) _ _ at hserved
    rw [if_neg (by decide), if_neg hneg] at hserved
    exact hserved

/-! ### Single records -/

theorem wp_fault_checkwhetherHaveRecord {q : Mysql.Query} {rows : List q.Row}
    (hexec : q.exec w.db = some rows) {Q : Int → World × Bool → Prop} :
    wp singleFault (checkwhetherHaveRecord .conn q) Q (w, b) ↔
      Q (if rows.isEmpty then 0 else 1) (w, b) ∧ (b = true → Q (-1) (w, false)) := by
  rw [checkwhetherHaveRecord, wp_bind, wp_fault_executeQuery, hexec]
  cases rows with
  | nil => rfl
  | cons row rows => rfl

/-- A failing `SELECT` is dereferenced. -/
theorem wp_fault_getResultOneCount {md5 : CString} {Q : Int × Int → World × Bool → Prop} :
    wp singleFault (getResultOneCount .conn md5 false 0) Q (w, b) ↔
      Q (match countsOf w.db md5 with
        | [] => (1, 0)
        | count :: _ => (0, count)) (w, b) := by
  rw [getResultOneCount, wp_bind, wp_fault_executeQuery]
  refine (and_iff_left fun _ => trivial).trans ?_
  have hrows : (Mysql.Query.fileCount md5 false).exec w.db = countsOf w.db md5 := rfl
  rw [hrows]
  cases countsOf w.db md5 with
  | nil => rfl
  | cons count counts => rfl

theorem wp_fault_getResultOneStatus {user md5 filename : CString}
    {Q : Int × Int → World × Bool → Prop} :
    wp singleFault (getResultOneStatus .conn user md5 filename 0) Q (w, b) ↔
      Q (match w.db.userFileList.filter (isUserFile user md5 filename) with
        | [] => (-1, 0)
        | row :: _ => (0, row.sharedStatus)) (w, b) := by
  rw [getResultOneStatus, wp_bind, wp_fault_executeQuery]
  refine (and_iff_left fun _ => trivial).trans ?_
  rw [Mysql.Query.exec]
  cases w.db.userFileList.filter (isUserFile user md5 filename) with
  | nil => rfl
  | cons row rows => rfl

end Rules

/-! ## One handler at a time -/

section Handlers

variable {user md5 filename : CString} {w : World}

theorem unchanged_refl (w : World) : Unchanged w w := ⟨rfl, rfl, fun _ => rfl⟩

theorem restores_iff_wp {r : WriteRequest} :
    Restores r w ↔ wp singleFault r.prog (fun code s => code = r.failure → Unchanged w s.1)
      (w, true) :=
  (wp_iff_exec (fun _ _ => trivial) fun _ => trivial).symm

theorem insertRow_ne {ρ : Type} (row : ρ) (rows : List ρ) : Table.insertRow row rows ≠ rows := by
  simp [Table.insertRow]

/-- The row of the file stays when that of the user cannot be inserted. -/
theorem not_restores_store {size : Int} {fileid url : CString} :
    ¬ Restores (.store user filename md5 size fileid url) w := by
  intro h
  rw [restores_iff_wp, WriteRequest.prog, wp_fault_withDBConn, storeFileinfo, wp_bind,
    wp_fault_executeCreate rfl] at h
  have hstored := h.1
  rw [if_pos rfl, wp_bind, currentTime, wp_fault_sys] at hstored
  have hinsert := hstored CString.empty
  rw [wp_bind, wp_fault_executeCreate rfl] at hinsert
  exact insertRow_ne _ _ (congrArg Tables.fileInfo (hinsert.2 rfl rfl).1)

/-- A count that differs from the one that was read affects a row. -/
theorem changed_setCount_pos {t : Tables} {count next : Int} {counts : List Int}
    (hcounts : countsOf t md5 = count :: counts) (hne : next ≠ count) :
    0 < Table.changed (isFile md5) (fun row : FileInfo => { row with count := next })
      t.fileInfo := by
  obtain ⟨row, hrow, hmd5, rfl⟩ := exists_of_countsOf hcounts
  refine Table.changed_pos hrow ((isFile_iff md5 row).mpr hmd5) fun hsame => ?_
  exact hne (congrArg FileInfo.count hsame)

/-- A count that was written stays when the user's row cannot be inserted. -/
theorem restores_save_iff :
    Restores (.save user md5 filename) w ↔ Holds w.db user md5 filename ∨ ¬ Stored w.db md5 := by
  rw [restores_iff_wp, WriteRequest.prog, handleSaveFile, wp_fault_withDBConn,
    wp_fault_withCacheConn, wp_bind, wp_fault_checkwhetherHaveRecord rfl]
  by_cases hheld : Holds w.db user md5 filename
  · refine iff_of_true ⟨?_, fun _ _ => unchanged_refl w⟩ (Or.inl hheld)
    rw [if_neg (mt isEmpty_userFiles_iff.mp (not_not.mpr hheld))]
    have hexists : httpRespFileExist ≠ httpRespFail := by decide
    exact fun hcode => absurd hcode hexists
  · rw [if_pos (isEmpty_userFiles_iff.mpr hheld), or_iff_right hheld,
      ← countsOf_eq_nil_iff]
    refine (and_iff_left fun _ _ => unchanged_refl w).trans ?_
    show wp singleFault (saveReference .conn user md5 filename >>= _) _ _ ↔ _
    rw [wp_bind, saveReference, wp_bind, wp_fault_getResultOneCount]
    cases hcounts : countsOf w.db md5 with
    | nil => exact iff_of_true (fun _ => unchanged_refl w) rfl
    | cons count counts =>
        refine iff_of_false (fun h => ?_) (List.cons_ne_nil count counts)
        change wp singleFault (if (0 : Int) ≠ 0 then _ else _) _ _ at h
        rw [if_neg (by decide), wp_bind, wp_fault_executeUpdate rfl] at h
        have hupdated := h.1
        have hchanged := changed_setCount_pos hcounts (wrapInt32_add_one_ne count)
        rw [decide_eq_true hchanged, Bool.true_or, if_pos rfl, wp_bind, currentTime,
          wp_fault_sys] at hupdated
        have hinsert := hupdated CString.empty
        rw [wp_bind, wp_fault_executeCreate rfl] at hinsert
        exact setCount_ne hcounts (congrArg Tables.fileInfo (hinsert.2 rfl rfl).1)

theorem isEmpty_shareFiles_iff (t : Tables) :
    (t.shareFileList.filter (isShareFile md5 filename)).isEmpty ↔ ¬ Shared t md5 filename := by
  rw [List.isEmpty_iff, List.filter_eq_nil_iff, shared_iff]
  simp

/-- Without a further failure sharing succeeds. -/
theorem wp_fault_storeShare {Q : Int → World × Bool → Prop} (hQ : ∀ s, Q shareOk s) :
    wp singleFault (storeShare .conn .conn user md5 filename) Q (w, false) := by
  rw [storeShare, wp_bind, wp_fault_executeUpdate rfl]
  refine ⟨?_, fun hb => Bool.noConfusion hb⟩
  rw [Bool.not_false, Bool.or_true, if_pos rfl, wp_bind, currentTime, wp_fault_sys]
  intro time
  rw [wp_bind, wp_fault_executeCreate rfl]
  refine ⟨?_, fun hb => Bool.noConfusion hb⟩
  rw [if_pos rfl, wp_bind, wp_fault_cacheIncrCount]
  refine ⟨?_, fun hb => Bool.noConfusion hb⟩
  rw [if_neg (by decide)]
  exact wp_fault_ignore fun _ _ => wp_fault_ignore fun _ s => hQ s

/-- The row of the share stays when the shares cannot be counted. -/
theorem restores_share_iff :
    Restores (.share user md5 filename) w ↔ Shared w.db md5 filename ∨
      ∀ members, zsetOf w.redis filePublicZset = some members →
        fileidOf md5 filename ∈ members := by
  rw [restores_iff_wp, WriteRequest.prog, handleShareFile, wp_fault_withDBConn,
    wp_fault_withCacheConn, wp_bind]
  change wp singleFault (CacheConn.zsetExist .conn _ _) _ _ ↔ _
  rw [wp_fault_zsetExist]
  refine (and_iff_left fun _ _ => unchanged_refl w).trans ?_
  refine (and_iff_right fun _ _ => unchanged_refl w).trans ?_
  cases hzset : zsetOf w.redis filePublicZset with
  | none =>
      refine iff_of_true ?_ (Or.inr ?_)
      · rintro _ ⟨⟩
      · rintro _ ⟨⟩
  | some members =>
      simp only [Option.some.injEq, forall_eq']
      have hhad : shareHad ≠ shareFail := by decide
      have hok : shareOk ≠ shareFail := by decide
      by_cases hmem : fileidOf md5 filename ∈ members
      · rw [if_pos hmem]
        exact iff_of_true (fun hcode => absurd hcode hhad) (Or.inr hmem)
      · rw [if_neg hmem, or_iff_left hmem]
        show wp singleFault (shareIfNew .conn .conn user md5 filename) _ _ ↔ _
        rw [shareIfNew, wp_bind, wp_fault_checkwhetherHaveRecord rfl]
        by_cases hshared : Shared w.db md5 filename
        · rw [if_neg (mt (isEmpty_shareFiles_iff w.db).mp (not_not.mpr hshared))]
          refine iff_of_true ⟨?_, fun _ => ?_⟩ hshared
          · rw [if_pos rfl]
            exact wp_fault_ignore fun _ _ => wp_fault_ignore fun _ _ hcode => absurd hcode hhad
          · -- a failed read is taken for no record
            exact wp_fault_storeShare fun _ hcode => absurd hcode hok
        · rw [if_pos ((isEmpty_shareFiles_iff w.db).mpr hshared)]
          refine iff_of_false (fun h => ?_) hshared
          have hstore := h.1
          rw [if_neg (by decide), storeShare, wp_bind, wp_fault_executeUpdate rfl] at hstore
          have hupdated := hstore.1
          rw [Bool.not_false, Bool.or_true, if_pos rfl, wp_bind, currentTime,
            wp_fault_sys] at hupdated
          have hinsert := hupdated CString.empty
          rw [wp_bind, wp_fault_executeCreate rfl] at hinsert
          have hcount := hinsert.1
          rw [if_pos rfl, wp_bind, wp_fault_cacheIncrCount] at hcount
          exact insertRow_ne _ _ (congrArg Tables.shareFileList ((hcount.2 rfl).1 rfl).1)

theorem noEffect_update_iff {u : Mysql.Update} {n : Nat} {t : Tables}
    (hexec : u.exec w.db = some (n, t)) : NoEffect (.update u) w ↔ withDb w t = w := by
  constructor
  · intro h
    rw [h n t hexec]
    rfl
  · intro h n' t' hexec'
    rw [hexec] at hexec'
    cases hexec'
    exact congrArg World.db h

theorem withDb_eq_of_unchanged {t : Tables} (h : Unchanged w (withDb w t)) : withDb w t = w :=
  congrArg (withDb w) h.1

/-- Nothing has been removed when the removal is reported as a failure. -/
theorem wp_fault_removeShareRecords {b : Bool}
    (hzrem : NoEffect (.redis (.zrem filePublicZset (fileidOf md5 filename))) w)
    (hfield : (zsetOf w.redis filePublicZset).isSome → ∀ fields,
      hashOf w.redis fileNameHash = some fields → fileidOf md5 filename ∉ fields) :
    wp singleFault (removeShareRecords .conn md5 filename)
      (fun ret s => ret ≠ 0 → Unchanged w s.1) (w, b) := by
  rw [removeShareRecords, wp_bind, wp_fault_zsetZrem]
  refine ⟨⟨fun _ _ => unchanged_refl w, fun members hmembers => ?_⟩, fun _ _ => unchanged_refl w⟩
  have hexec : (Redis.Command.zrem filePublicZset (fileidOf md5 filename)).exec w.redis =
      (.integer (if fileidOf md5 filename ∈ members then 1 else 0),
        storeZset w.redis filePublicZset (members.erase (fileidOf md5 filename))) := by
    simp only [Redis.Command.exec, hmembers]
  have hsame : Unchanged w (withRedis w (storeZset w.redis filePublicZset
      (members.erase (fileidOf md5 filename)))) := by
    refine ⟨rfl, rfl, fun key => ?_⟩
    have hkey := hzrem key
    rwa [hexec] at hkey
  rw [if_neg (not_not.mpr rfl), wp_fault_hdel]
  refine ⟨⟨fun _ hret => absurd rfl hret, fun fields hfields => ?_⟩,
    fun _ => ⟨fun _ => hsame, fun hret => absurd rfl hret⟩⟩
  rw [withRedis_redis, hashOf_congr (lookup_storeZset_ne _ _ (by decide))] at hfields
  rw [if_neg (hfield (by rw [hmembers]; rfl) fields hfields)]
  exact fun hret => absurd rfl hret

theorem of_wp_fault_removeShareRecords {w' : World}
    (h : wp singleFault (removeShareRecords .conn md5 filename)
      (fun ret s => ret ≠ 0 → Unchanged w s.1) (w', true)) (hredis : w'.redis = w.redis) :
    Unchanged w w' ∧ NoEffect (.redis (.zrem filePublicZset (fileidOf md5 filename))) w ∧
      ((zsetOf w.redis filePublicZset).isSome → ∀ fields,
        hashOf w.redis fileNameHash = some fields → fileidOf md5 filename ∉ fields) := by
  rw [removeShareRecords, wp_bind, wp_fault_zsetZrem, hredis] at h
  refine ⟨h.2 rfl (by decide), ?_⟩
  cases hzset : zsetOf w.redis filePublicZset with
  | none =>
      refine ⟨fun key => ?_, fun hsome => Bool.noConfusion hsome⟩
      show ((Redis.Command.zrem filePublicZset (fileidOf md5 filename)).exec w.redis).2.lookup key = _
      simp only [Redis.Command.exec, hzset]
  | some members =>
      have hhdel := h.1.2 members hzset
      rw [if_neg (not_not.mpr rfl), wp_fault_hdel] at hhdel
      refine ⟨fun key => ?_, fun _ fields hfields hmem => ?_⟩
      · have hkey := ((hhdel.2 rfl).1 (by decide)).2.2 key
        show ((Redis.Command.zrem filePublicZset (fileidOf md5 filename)).exec
          w.redis).2.lookup key = _
        simp only [Redis.Command.exec, hzset]
        exact hkey
      · have hhash := hashOf_congr (lookup_storeZset_ne w.redis
          (members.erase (fileidOf md5 filename)) (show fileNameHash ≠ filePublicZset by decide))
        have hlast := hhdel.1.2 fields (hhash.trans hfields)
        rw [if_pos hmem] at hlast
        have hgone := hashOf_congr ((hlast (by decide)).2.2 fileNameHash)
        rw [withRedis_redis, hashOf_storeHash, hfields] at hgone
        have herased := Option.some.inj hgone
        rw [← herased] at hmem
        exact (AList.mem_erase.mp hmem).1 rfl

/-- Every write before the one that fails stays. -/
theorem restores_cancel_iff :
    Restores (.cancel user md5 filename) w ↔
      NoEffect (.update (.setSharedStatus user md5 filename 0)) w ∧
        NoEffect (.redis (.decr filePublicCount)) w ∧
        NoEffect (.update (.deleteShareFile user md5 filename)) w ∧
        NoEffect (.redis (.zrem filePublicZset (fileidOf md5 filename))) w ∧
        ((zsetOf w.redis filePublicZset).isSome → ∀ fields,
          hashOf w.redis fileNameHash = some fields → fileidOf md5 filename ∉ fields) := by
  rw [restores_iff_wp, WriteRequest.prog, handleCancelShareFile, wp_fault_withDBConn,
    wp_fault_withCacheConn, wp_bind, wp_fault_executeUpdate rfl]
  refine (and_iff_left fun _ _ => unchanged_refl w).trans ?_
  rw [Bool.not_false, Bool.or_true, if_pos rfl, wp_bind, noEffect_update_iff rfl,
    noEffect_update_iff rfl, noEffect_decr_iff]
  have hok : httpRespOk ≠ httpRespFail := by decide
  constructor
  · intro h
    obtain ⟨hfailed, hdone⟩ := of_wp_fault_cacheDecrCount h
    have hstatus := withDb_eq_of_unchanged (hfailed rfl)
    refine ⟨hstatus, ?_⟩
    rw [hstatus] at h hdone
    -- a counter that was lowered stays so when the deletion of the row fails
    have hstuck : Stuck w.redis filePublicCount := by
      by_contra hstuck
      rcases hdone hstuck with hset | hrest
      · exact lookup_addTo_ne_self hstuck ((hset rfl).2.2 filePublicCount)
      · rw [if_neg (by decide), wp_bind, executeDrop, wp_fault_executeCreate rfl] at hrest
        exact lookup_addTo_ne_self hstuck ((hrest.2 rfl rfl).2.2 filePublicCount)
    refine ⟨hstuck, ?_⟩
    rw [wp_fault_cacheDecrCount_stuck hstuck] at h
    have hdrop := h.1
    rw [if_neg (by decide), wp_bind, executeDrop, wp_fault_executeCreate rfl] at hdrop
    have hrecords := hdrop.1
    rw [if_pos rfl, wp_bind] at hrecords
    -- and so does a row that was deleted when one of the two Redis records cannot be removed
    have hfailure : wp singleFault (removeShareRecords .conn md5 filename)
        (fun ret s => ret ≠ 0 → Unchanged w s.1) _ := wp_mono hrecords fun ret s hs hret => by
      rw [if_neg hret] at hs
      exact hs rfl
    obtain ⟨hsame, hrest⟩ := of_wp_fault_removeShareRecords hfailure rfl
    exact ⟨withDb_eq_of_unchanged hsame, hrest⟩
  · rintro ⟨hstatus, hstuck, hdelete, hzrem, hfield⟩
    have hrest : ∀ b, wp singleFault (do
        let dropped ← executeDrop .conn (.deleteShareFile user md5 filename)
        if dropped then
          let ret ← removeShareRecords .conn md5 filename
          return if ret = 0 then httpRespOk else httpRespFail
        else
          return httpRespFail : Handler Int)
        (fun code s => code = httpRespFail → Unchanged w s.1) (w, b) := by
      intro b
      rw [wp_bind, executeDrop, wp_fault_executeCreate rfl, hdelete]
      refine ⟨?_, fun _ _ => unchanged_refl w⟩
      rw [if_pos rfl, wp_bind]
      refine wp_mono (wp_fault_removeShareRecords hzrem hfield) fun ret s hs hcode => ?_
      by_cases hret : ret = 0
      · rw [if_pos hret] at hcode
        exact absurd hcode hok
      · exact hs hret
    rw [hstatus, wp_fault_cacheDecrCount_stuck hstuck]
    exact ⟨hrest true, fun _ => ⟨fun _ => unchanged_refl w, hrest false⟩⟩

/-! ### Deleting a file -/

theorem wp_fault_sharedState {b : Bool} {Q : Option (Int × Bool) → World × Bool → Prop} :
    wp singleFault (sharedState .conn .conn user md5 filename) Q (w, b) ↔
      ((zsetOf w.redis filePublicZset = none → Q none (w, b)) ∧
        (∀ members, zsetOf w.redis filePublicZset = some members →
          Q (if fileidOf md5 filename ∈ members then some (1, true)
            else some (sharedFlag w.db user md5 filename, false)) (w, b))) ∧
        (b = true → Q none (w, false)) := by
  rw [sharedState, wp_bind, wp_fault_zsetExist]
  refine and_congr_left fun _ => and_congr_right fun _ => forall₂_congr fun members _ => ?_
  by_cases hmem : fileidOf md5 filename ∈ members
  · rw [if_pos hmem, if_pos hmem]
    rfl
  · rw [if_neg hmem, if_neg hmem]
    show wp singleFault (getResultOneStatus .conn user md5 filename 0 >>= _) _ _ ↔ _
    rw [wp_bind, wp_fault_getResultOneStatus, sharedFlag]
    cases w.db.userFileList.filter (isUserFile user md5 filename) with
    | nil => rfl
    | cons row rows => rfl

theorem deleteWhere_ne {ρ : Type} {p : ρ → Bool} {row : ρ} {rows others : List ρ}
    (hrow : row ∈ rows) (hp : p row) : Table.deleteWhere p others ≠ rows := by
  intro heq
  rw [← heq, Table.mem_deleteWhere] at hrow
  exact hrow.2 hp

/-- FastDFS may refuse to delete the contents after the row is gone. -/
theorem of_wp_fault_removeFile {b : Bool} {Q : Int → World × Bool → Prop}
    (h : wp singleFault (removeFile .conn md5) Q (w, b)) :
    Q (-1) (withDb w { w.db with fileInfo := Table.deleteWhere (isFile md5) w.db.fileInfo },
      b) := by
  rw [removeFile, wp_bind, wp_fault_executeQuery] at h
  have hrows := h.1
  change wp singleFault (executeDrop .conn _ >>= _) _ _ at hrows
  rw [wp_bind, executeDrop, wp_fault_executeCreate rfl] at hrows
  have hdropped := hrows.1
  rw [wp_bind, removeFileFromFastDfs, system, wp_fault_sys] at hdropped
  exact hdropped 1

/-- The tables after the user's row is removed. -/
def withoutUserFile (user md5 filename : CString) (t : Tables) : Tables :=
  { t with userFileList := Table.deleteWhere (isUserFile user md5 filename) t.userFileList }

theorem withoutUserFile_eq_iff :
    Unchanged w (withDb w (withoutUserFile user md5 filename w.db)) ↔
      ¬ Holds w.db user md5 filename := by
  rw [holds_iff]
  constructor
  · rintro hsame ⟨row, hrow, hof⟩
    exact deleteWhere_ne hrow hof (congrArg Tables.userFileList hsame.1)
  · intro hnone
    have hzero : w.db.userFileList.countP (isUserFile user md5 filename) = 0 := by
      rw [List.countP_eq_zero]
      exact fun row hrow hof => hnone ⟨row, hrow, hof⟩
    refine ⟨?_, rfl, fun _ => rfl⟩
    show withoutUserFile user md5 filename w.db = w.db
    rw [withoutUserFile, Table.deleteWhere_eq_self _ _ hzero]

section Release

variable {b : Bool} {count : Int} {counts : List Int}

/-- `releaseFile` after the user's row is removed. -/
theorem wp_fault_releaseFile_nil (hcounts : countsOf w.db md5 = []) :
    wp singleFault (releaseFile .conn md5) (fun ret s => ret ≠ 0 → Unchanged w s.1)
        (withDb w (withoutUserFile user md5 filename w.db), b) ↔
      ¬ Holds w.db user md5 filename := by
  have hsame : countsOf (withDb w (withoutUserFile user md5 filename w.db)).db md5 = [] := hcounts
  rw [releaseFile, wp_bind, wp_fault_getResultOneCount, hsame, ← withoutUserFile_eq_iff]
  change wp singleFault (if (1 : Int) ≠ 0 then _ else _) _ _ ↔ _
  rw [if_pos (by decide)]
  exact forall_prop_of_true (by decide)

theorem wp_fault_releaseFile_cons (hcounts : countsOf w.db md5 = count :: counts) :
    wp singleFault (releaseFile .conn md5) (fun ret s => ret ≠ 0 → Unchanged w s.1)
        (withDb w (withoutUserFile user md5 filename w.db), true) ↔
      count < 0 ∨ (1 < count ∧ ¬ Holds w.db user md5 filename) := by
  have hsame : countsOf (withDb w (withoutUserFile user md5 filename w.db)).db md5 =
      count :: counts := hcounts
  obtain ⟨row, hrow, hmd5, -⟩ := exists_of_countsOf hcounts
  have hfile : isFile md5 row := (isFile_iff md5 row).mpr hmd5
  have hchanged := changed_setCount_pos hsame (show count - 1 ≠ count by omega)
  rw [releaseFile, wp_bind, wp_fault_getResultOneCount, hsame, ← withoutUserFile_eq_iff]
  change wp singleFault (if (0 : Int) ≠ 0 then _ else if count > 0 then _ else _) _ _ ↔ _
  rw [if_neg (by decide)]
  by_cases hpos : count > 0
  · rw [if_pos hpos, wp_bind, wp_fault_executeUpdate rfl, or_iff_right (by omega)]
    rw [decide_eq_true hchanged, Bool.true_or, if_pos rfl]
    refine and_congr ?_ (by simp)
    by_cases hone : count - 1 = 0
    · rw [if_pos hone]
      refine iff_of_false (fun h => ?_) (by omega)
      have hremoved := of_wp_fault_removeFile h (by decide)
      exact deleteWhere_ne hrow hfile (congrArg Tables.fileInfo hremoved.1)
    · rw [if_neg hone]
      exact iff_of_true (fun hret => absurd rfl hret) (by omega)
  · rw [if_neg hpos]
    by_cases hzero : count = 0
    · rw [if_pos hzero]
      refine iff_of_false (fun h => ?_) (by omega)
      have hremoved := of_wp_fault_removeFile h (by decide)
      exact deleteWhere_ne hrow hfile (congrArg Tables.fileInfo hremoved.1)
    · rw [if_neg hzero]
      exact iff_of_true (fun hret => absurd rfl hret) (Or.inl (by omega))

end Release

theorem wp_fault_releaseFile_iff :
    wp singleFault (releaseFile .conn md5) (fun ret s => ret ≠ 0 → Unchanged w s.1)
        (withDb w (withoutUserFile user md5 filename w.db), true) ↔
      ReleaseRestores user md5 filename w.db := by
  unfold ReleaseRestores
  cases hcounts : countsOf w.db md5 with
  | nil => exact wp_fault_releaseFile_nil hcounts
  | cons count counts => exact wp_fault_releaseFile_cons hcounts

/-- `handleDeleteFile` after the share is removed. -/
def deleteRest (user md5 filename : CString) : Handler Int := do
  let dropped ← removeUserFile .conn .conn user md5 filename
  if dropped ≠ 0 then
    return httpRespFail
  else
    let released ← releaseFile .conn md5
    return if released = 0 then httpRespOk else httpRespFail

/-- The first thing that can fail is the count of the user's files. -/
theorem of_wp_fault_deleteRest {w' : World}
    (h : wp singleFault (deleteRest user md5 filename)
      (fun code s => code = httpRespFail → Unchanged w s.1) (w', true)) : Unchanged w w' := by
  rw [deleteRest, wp_bind, removeUserFile, wp_bind] at h
  obtain ⟨hfailed, -⟩ := of_wp_fault_cacheDecrCount h
  exact hfailed rfl

theorem wp_fault_deleteRest_iff :
    wp singleFault (deleteRest user md5 filename)
        (fun code s => code = httpRespFail → Unchanged w s.1) (w, true) ↔
      NoEffect (.redis (.decr (fileUserCount ++ user))) w ∧
        ReleaseRestores user md5 filename w.db := by
  have hok : httpRespOk ≠ httpRespFail := by decide
  rw [deleteRest, wp_bind, removeUserFile, wp_bind, noEffect_decr_iff]
  constructor
  · intro h
    have hstuck : Stuck w.redis (fileUserCount ++ user) := by
      by_contra hstuck
      rcases (of_wp_fault_cacheDecrCount h).2 hstuck with hset | hrest
      · exact lookup_addTo_ne_self hstuck ((hset rfl).2.2 (fileUserCount ++ user))
      · rw [if_neg (by decide), wp_bind, executeDrop, wp_fault_executeCreate rfl] at hrest
        exact lookup_addTo_ne_self hstuck ((hrest.2 rfl rfl).2.2 (fileUserCount ++ user))
    refine ⟨hstuck, wp_fault_releaseFile_iff.mp ?_⟩
    rw [wp_fault_cacheDecrCount_stuck hstuck] at h
    have hdrop := h.1
    rw [if_neg (by decide), wp_bind, executeDrop, wp_fault_executeCreate rfl] at hdrop
    have hrelease := hdrop.1
    rw [if_pos rfl, Prog.pure_eq_ret, wp_ret, if_neg (by decide), wp_bind] at hrelease
    refine wp_mono hrelease fun ret s hs hret => ?_
    rw [if_neg hret] at hs
    exact hs rfl
  · rintro ⟨hstuck, hrelease⟩
    have hrest : wp singleFault ((do
          let dropped ← executeDrop .conn (.deleteUserFile user md5 filename)
          return if dropped then 0 else -1) >>= fun (dropped : Int) =>
        if dropped ≠ 0 then (return httpRespFail : Handler Int)
        else do
          let released ← releaseFile .conn md5
          return if released = 0 then httpRespOk else httpRespFail)
        (fun code s => code = httpRespFail → Unchanged w s.1) (w, true) := by
      rw [wp_bind, wp_bind, executeDrop, wp_fault_executeCreate rfl]
      refine ⟨?_, fun _ _ => unchanged_refl w⟩
      rw [if_pos rfl, Prog.pure_eq_ret, wp_ret, if_neg (by decide), wp_bind]
      refine wp_mono (wp_fault_releaseFile_iff.mpr hrelease) fun ret s hs hcode => ?_
      by_cases hret : ret = 0
      · rw [if_pos hret] at hcode
        exact absurd hcode hok
      · exact hs hret
    have hcalm := wp_fault_calm (Q := fun code w' => code = httpRespFail → Unchanged w w') hrest
    rw [wp_fault_cacheDecrCount_stuck hstuck]
    exact ⟨(wp_bind ..).mp hrest, fun _ => ⟨fun _ => unchanged_refl w, (wp_bind ..).mp hcalm⟩⟩

/-- `handleDeleteFile` after the state of the share is known. -/
def deleteKnown (user md5 filename : CString) (isShared : Int) (redisHasRecord : Bool) :
    Handler Int := do
  let removed ← removeIfShared .conn .conn user md5 filename isShared redisHasRecord
  if removed ≠ 0 then return httpRespFail else deleteRest user md5 filename

/-- A removed member stays removed when the count of the user's files fails. -/
theorem not_wp_fault_removeMember {w' : World} {members : ZSet}
    (hzset : zsetOf w.redis filePublicZset = some members)
    (hzset' : zsetOf w'.redis filePublicZset = some members)
    (hmem : fileidOf md5 filename ∈ members) :
    ¬ wp singleFault (do
        let _ ← CacheConn.zsetZrem .conn filePublicZset (fileidOf md5 filename)
        let _ ← CacheConn.hdel .conn fileNameHash (fileidOf md5 filename)
        return 0 : Handler Int)
      (fun removed s => wp singleFault
        (if removed ≠ 0 then return httpRespFail else deleteRest user md5 filename)
        (fun code s => code = httpRespFail → Unchanged w s.1) s) (w', true) := by
  intro h
  have hgone : ∀ w₂ : World,
      w₂.redis.lookup filePublicZset =
        (storeZset w'.redis filePublicZset
          (members.erase (fileidOf md5 filename))).lookup filePublicZset →
      ¬ Unchanged w w₂ := by
    intro w₂ hlookup hsame
    have hread := zsetOf_congr (hlookup.symm.trans (hsame.2.2 filePublicZset))
    rw [zsetOf_storeZset, hzset] at hread
    rw [← Option.some.inj hread] at hmem
    exact (AList.mem_erase.mp hmem).1 rfl
  rw [wp_bind, wp_fault_zsetZrem] at h
  have hremoved := h.1.2 members hzset'
  rw [wp_bind, wp_fault_hdel] at hremoved
  cases hhash : hashOf (withRedis w' (storeZset w'.redis filePublicZset
      (members.erase (fileidOf md5 filename)))).redis fileNameHash with
  | none => exact hgone _ rfl (of_wp_fault_deleteRest (hremoved.1.1 hhash))
  | some fields =>
      refine hgone _ ?_ (of_wp_fault_deleteRest (hremoved.1.2 fields hhash))
      exact lookup_storeHash_ne _ _ (by decide)

theorem not_wp_fault_deleteKnown_member {members : ZSet}
    (hzset : zsetOf w.redis filePublicZset = some members)
    (hmem : fileidOf md5 filename ∈ members) :
    ¬ wp singleFault (deleteKnown user md5 filename 1 true)
      (fun code s => code = httpRespFail → Unchanged w s.1) (w, true) := by
  intro h
  rw [deleteKnown, wp_bind, removeIfShared, if_pos rfl, removeShare, wp_bind, executeDrop,
    wp_fault_executeCreate rfl] at h
  have hdropped := h.1
  rw [if_pos rfl, wp_bind] at hdropped
  by_cases hstuck : Stuck w.redis filePublicCount
  · rw [wp_fault_cacheDecrCount_stuck] at hdropped
    · refine not_wp_fault_removeMember hzset ?_ hmem hdropped.1
      exact hzset
    · exact hstuck
  · rcases (of_wp_fault_cacheDecrCount hdropped).2 hstuck with hset | hrest
    · exact lookup_addTo_ne_self hstuck ((hset rfl).2.2 filePublicCount)
    · refine not_wp_fault_removeMember hzset ?_ hmem hrest
      rw [withRedis_redis, zsetOf_congr (lookup_addTo_ne _ _ (by decide))]
      exact hzset

/-- Without a record in Redis. -/
theorem wp_fault_deleteKnown_iff {isShared : Int} :
    wp singleFault (deleteKnown user md5 filename isShared false)
        (fun code s => code = httpRespFail → Unchanged w s.1) (w, true) ↔
      (isShared = 1 → NoEffect (.update (.deleteShareFile user md5 filename)) w ∧
        NoEffect (.redis (.decr filePublicCount)) w) ∧
      NoEffect (.redis (.decr (fileUserCount ++ user))) w ∧
      ReleaseRestores user md5 filename w.db := by
  rw [deleteKnown, wp_bind, removeIfShared, noEffect_update_iff rfl,
    @noEffect_decr_iff w filePublicCount,
    ← wp_fault_deleteRest_iff]
  by_cases hshared : isShared = 1
  · rw [if_pos hshared, removeShare, wp_bind, executeDrop, wp_fault_executeCreate rfl]
    refine (and_iff_left fun _ _ => unchanged_refl w).trans ?_
    rw [if_pos rfl, wp_bind]
    constructor
    · intro h
      obtain ⟨hfailed, hdone⟩ := of_wp_fault_cacheDecrCount h
      have hdelete := withDb_eq_of_unchanged (hfailed rfl)
      rw [hdelete] at h hdone
      have hstuck : Stuck w.redis filePublicCount := by
        by_contra hstuck
        rcases hdone hstuck with hset | hrest
        · exact lookup_addTo_ne_self hstuck ((hset rfl).2.2 filePublicCount)
        · exact lookup_addTo_ne_self hstuck ((of_wp_fault_deleteRest hrest).2.2 filePublicCount)
      rw [wp_fault_cacheDecrCount_stuck hstuck] at h
      exact ⟨fun _ => ⟨hdelete, hstuck⟩, h.1⟩
    · rintro ⟨hnone, hrest⟩
      obtain ⟨hdelete, hstuck⟩ := hnone hshared
      have hcalm := wp_fault_calm (Q := fun code w' => code = httpRespFail → Unchanged w w') hrest
      rw [hdelete, wp_fault_cacheDecrCount_stuck hstuck]
      exact ⟨hrest, fun _ => ⟨fun _ => unchanged_refl w, hcalm⟩⟩
  · rw [if_neg hshared]
    exact (and_iff_right fun h => absurd h hshared).symm

theorem restores_delete_iff :
    Restores (.delete user md5 filename) w ↔
      ∀ members, zsetOf w.redis filePublicZset = some members →
        fileidOf md5 filename ∉ members ∧
        (sharedFlag w.db user md5 filename = 1 →
          NoEffect (.update (.deleteShareFile user md5 filename)) w ∧
            NoEffect (.redis (.decr filePublicCount)) w) ∧
        NoEffect (.redis (.decr (fileUserCount ++ user))) w ∧
        ReleaseRestores user md5 filename w.db := by
  rw [restores_iff_wp, WriteRequest.prog, handleDeleteFile, wp_fault_withDBConn,
    wp_fault_withCacheConn, wp_bind, wp_fault_sharedState]
  refine (and_iff_left fun _ _ => unchanged_refl w).trans ?_
  refine (and_iff_right fun _ _ => unchanged_refl w).trans ?_
  refine forall₂_congr fun members hzset => ?_
  by_cases hmem : fileidOf md5 filename ∈ members
  · rw [if_pos hmem]
    exact iff_of_false (not_wp_fault_deleteKnown_member hzset hmem) fun h => h.1 hmem
  · rw [if_neg hmem, and_iff_right hmem]
    exact wp_fault_deleteKnown_iff

end Handlers

/-- A handler changes nothing when it reports a failure, whichever statement failed, exactly
on the states in which it has nothing to undo. -/
theorem restores_iff (r : WriteRequest) (w : World) : Restores r w ↔ NothingToUndo r w := by
  cases r with
  | store => exact iff_of_false not_restores_store id
  | save => exact restores_save_iff
  | share => exact restores_share_iff
  | cancel => exact restores_cancel_iff
  | delete => exact restores_delete_iff

/-- The second insert of an upload fails. -/
theorem not_restores_sample : ¬ ∀ r w, Restores r w := by
  intro h
  exact not_restores_store (h (.store (CString.lit "alice") (CString.lit "a.png")
    (CString.lit "0123456789abcdef0123456789abcdef") 7 (CString.lit "group1/M00/00/00/x.png")
    (CString.lit "http://10.0.0.1:80/group1/M00/00/00/x.png")) World.empty)

end Files
end TcMuzi
