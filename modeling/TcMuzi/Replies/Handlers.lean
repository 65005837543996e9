import TcMuzi.Replies.NullUse

/-!
# How each handler ends

A handler returns, or it is spoiled and fails.  With real connections only null answers can
spoil it; for each handler that can lack a connection the rest is followed answer by answer.
-/

namespace TcMuzi
namespace Replies

open Base Server Redis Api Session Lib

/-- The response has an integer code. -/
def Coded (response : Json) : Prop := ∃ n, response.code = some n

theorem coded_withCode (n : Int) (members : List (CString × Json)) :
    Coded (Json.withCode n members) := ⟨n, Json.code_withCode n members⟩

section Handlers

variable {cmd : CString}

/-! ## Handlers of MySQL alone -/

/-- The insert behind the look-up. -/
theorem sound_insertUser (msg : RegisterMsg) : Sound (do
    let createTime ← currentTime
    let prepared ← onConn .conn prepare
    if prepared then
      let affectedRows ← onConn .conn (execute (.insertUser
        ⟨msg.userName, msg.nickName, msg.pwd, msg.phone, msg.email, createTime⟩))
      match affectedRows with
      | some (_ + 1) => return (0 : Int)
      | _ => return 1
    else
      return 0) fun _ => True := by
  refine (sound_sys .currentTime).then fun createTime => ?_
  refine sound_issue_bind trivial (fun _ => rfl) fun prepared => ?_
  refine sound_ite (fun _ => ?_) fun _ => sound_ret trivial
  refine sound_issue_bind trivial (fun _ => rfl) fun affected => ?_
  split <;> exact sound_ret trivial

theorem wp_backends_registerUser (msg : RegisterMsg) :
    wp (backends .plain cmd) (registerUser msg) (AtStart fun _ => True) .start := by
  refine wp_plain trivial ((sound_executeQuery rfl).then fun rows => ?_)
  rcases rows with _ | _ | _
  · exact sound_insertUser msg
  · exact sound_insertUser msg
  · exact sound_ret trivial

theorem wp_backends_verifyUserPassword (userName pwd : CString) :
    wp (backends .plain cmd) (verifyUserPassword userName pwd) (AtStart fun _ => True)
      .start := by
  refine wp_plain trivial ((sound_executeQuery rfl).then fun rows => ?_)
  split <;> exact sound_ret trivial

theorem sound_addReference (user md5 filename : CString) :
    Sound (addReference .conn user md5 filename) fun _ => True := by
  refine (sound_getResultOneCount md5 true 0).then fun (ret, count) => ?_
  refine sound_ite (fun _ => ?_) fun _ => sound_ret trivial
  refine (sound_executeUpdate _ false).then fun updated => ?_
  refine sound_ite (fun _ => ?_) fun _ => sound_ret trivial
  exact (sound_sys .currentTime).then fun _ => sound_executeCreate _

theorem wp_backends_handleDealMd5 (user md5 filename : CString) :
    wp (backends .plain cmd) (handleDealMd5 user md5 filename) (AtStart fun _ => True)
      .start := by
  refine wp_plain trivial (sound_startTransaction.then fun _ => ?_)
  refine (sound_checkwhetherHaveRecord rfl).then fun ret => sound_ite (fun _ => ?_) fun _ => ?_
  · exact sound_commit.then fun _ => sound_ret trivial
  · refine (sound_addReference user md5 filename).then fun succeed => ?_
    refine sound_ite (fun _ => ?_) fun _ => ?_
    · exact sound_commit.then fun _ => sound_ret trivial
    · exact sound_rollback.then fun _ => sound_ret trivial

theorem wp_backends_handlePvUserFile (user md5 filename : CString) :
    wp (backends .plain cmd) (handlePvUserFile user md5 filename) (AtStart fun _ => True)
      .start := by
  refine wp_plain trivial ((sound_executeQuery rfl).then fun rows => ?_)
  rcases rows with _ | _ | ⟨pv, rows⟩
  · exact sound_ret trivial
  · exact sound_ret trivial
  · exact (sound_executeUpdate _ true).then fun _ => sound_ret trivial

theorem wp_backends_handleSharePicture (user md5 filename : CString) :
    wp (backends .plain cmd) (handleSharePicture user md5 filename)
      (AtStart Coded) .start := by
  refine wp_plain ⟨trivial, fun _ _ _ => ⟨trivial, fun _ _ _ => trivial⟩⟩ ?_
  refine (sound_sys .spawnUUID).then fun shareId => ?_
  refine (sound_sys .currentTime).then fun createTime => ?_
  exact (sound_executeCreate _).then fun _ => sound_ret (coded_withCode ..)

theorem wp_backends_handleBrowsePicture (shareId : CString) :
    wp (backends .plain cmd) (handleBrowsePicture shareId)
      (AtStart Coded) .start := by
  refine wp_plain trivial ((sound_executeQuery rfl).then fun shares => ?_)
  rcases shares with _ | _ | ⟨share, shares⟩
  · exact sound_ret (coded_withCode ..)
  · exact sound_ret (coded_withCode ..)
  · refine (sound_executeQuery rfl).then fun urls => ?_
    rcases urls with _ | _ | ⟨url, urls⟩
    · exact sound_ret (coded_withCode ..)
    · exact sound_ret (coded_withCode ..)
    · exact (sound_executeUpdate _ true).then fun _ => sound_ret (coded_withCode ..)

theorem wp_backends_handleGetSharePicturesList (user : CString) (start count : Int) :
    wp (backends .plain cmd) (handleGetSharePicturesList user start count)
      (AtStart Coded) .start := by
  refine wp_plain trivial ?_
  have hcount : Sound (getSharePicturesCount .conn user) fun _ => True :=
    (sound_executeQuery rfl).then fun _ => sound_ret trivial
  refine hcount.then fun (ret, total) => ?_
  refine sound_ite (fun _ => sound_ret (coded_withCode ..)) fun _ => ?_
  refine sound_ite (fun _ => sound_ret (coded_withCode ..)) fun _ => ?_
  refine (sound_executeQuery rfl).then fun rows => ?_
  cases rows <;> exact sound_ret (coded_withCode ..)

theorem wp_backends_handleCancelSharePicture (user shareId : CString) :
    wp (backends .plain cmd) (handleCancelSharePicture user shareId)
      (AtStart Coded) .start :=
  wp_plain trivial ((sound_executeCreate _).then fun _ => sound_ret (coded_withCode ..))

theorem sound_getUserFilesCount (userName : CString) :
    Sound (getUserFilesCount .conn userName) fun _ => True := by
  have hcount : Sound (dbGetUserFilesCountByUsername .conn userName) fun _ => True :=
    (sound_executeQuery rfl).then fun _ => sound_ret trivial
  exact hcount.then fun (ret, count) => sound_ret trivial

theorem wp_backends_handleUserFilesCount (userName : CString) :
    wp (backends .plain cmd) (handleUserFilesCount userName)
      (Clear fun _ => True) .start :=
  wp_plain_besides trivial (sound_getUserFilesCount userName)

theorem wp_backends_getUserFileList (userName : CString) (start count : Int) {cmd' : CString} :
    wp (backends .plain cmd) (getUserFileList cmd' userName start count)
      (Clear fun response => ∀ r, response = some r → Coded r)
      .start := by
  refine wp_plain_besides trivial ?_
  refine (sound_getUserFilesCount userName).then fun (ret, total) => ?_
  refine sound_ite (fun _ => sound_ret nofun) fun _ => sound_ite (fun _ => sound_ret ?_) fun _ => ?_
  · intro r h
    cases h
    exact coded_withCode ..
  · refine sound_ite (fun _ => ?_) fun _ => sound_ret nofun
    refine (sound_executeQuery rfl).then fun rows => ?_
    cases rows with
    | none => exact sound_ret nofun
    | some rows =>
        refine sound_ret fun r h => ?_
        cases h
        exact coded_withCode ..

/-! ## Tokens -/

/-- `VerifyToken` looks at its connection: without one it refuses. -/
theorem wp_backends_verifyToken {work : Work} (hwork : work ≠ .upload)
    (hmiss : missing work .start .getCacheConn .null = false) (user token : CString) :
    wp (backends work cmd) (verifyToken user token)
      (fun ret q => q = .start ∨ (ret = -1 ∧ q.spoiled = false ∧ q.threw = false)) .start := by
  refine wp_backends_withCacheConn ?_ ?_
  · refine Or.inr ⟨rfl, ?_, rfl⟩
    simp [Seen.after, Seen.start, strikes] at hmiss ⊢
    exact hmiss
  · have hget : Sound (do
        let tmpToken ← CacheConn.get .conn user
        return if tmpToken = token then (0 : Int) else -1) fun _ => True :=
      CacheConn.sound_get.then fun _ => sound_ret trivial
    refine wp_mono (wp_onCache hget hwork) ?_
    rintro ret _ ⟨rfl, _⟩
    exact Or.inl rfl

theorem wp_backends_setToken (userName : CString) :
    wp (backends .plain cmd) (setToken userName) (Clear fun _ => True) .start := by
  have hset : Sound (do
      let token ← randomString 32
      let _ ← CacheConn.setEx .conn userName tokenTimeout token
      return ((0 : Int), token)) fun _ => True := by
    refine (sound_sys (.randomString 32)).then fun token => ?_
    exact (CacheConn.sound_replyText rfl).then fun _ => sound_ret trivial
  refine wp_backends_withCacheConn ?_ ?_
  · refine ⟨trivial, ?_⟩
    rintro token _ ⟨rfl, _⟩
    exact ⟨rfl, rfl, trivial⟩
  · refine wp_mono (wp_onCache hset (by decide)) ?_
    rintro a _ ⟨rfl, _⟩
    exact ⟨rfl, rfl, trivial⟩

/-! ## Sharing -/

theorem sound_addRecords {α : Type} {score : Int} {fileid filename : CString} {k : Handler α}
    {P : α → Prop} (hk : Sound k P) :
    Sound (CacheConn.zsetAdd .conn filePublicZset score fileid >>= fun _ =>
      CacheConn.hset .conn fileNameHash fileid filename >>= fun _ => k) P :=
  (CacheConn.sound_zsetWrite rfl).then fun _ => (CacheConn.sound_replyInteger rfl).then fun _ => hk

theorem sound_storeShare (user md5 filename : CString) :
    Sound (storeShare .conn .conn user md5 filename) fun _ => True := by
  refine (sound_executeUpdate _ false).then fun _ => ?_
  refine sound_ite (fun _ => ?_) fun _ => sound_ret trivial
  refine (sound_sys .currentTime).then fun _ => (sound_executeCreate _).then fun _ => ?_
  refine sound_ite (fun _ => ?_) fun _ => sound_ret trivial
  refine sound_cacheIncrCount.then fun _ => sound_ite (fun _ => sound_ret trivial) fun _ => ?_
  exact sound_addRecords (sound_ret trivial)

theorem sound_shareIfNew (user md5 filename : CString) :
    Sound (shareIfNew .conn .conn user md5 filename) fun _ => True := by
  refine (sound_checkwhetherHaveRecord rfl).then fun _ => sound_ite (fun _ => ?_) fun _ => ?_
  · exact sound_addRecords (sound_ret trivial)
  · exact sound_storeShare user md5 filename

/-- Without a Redis connection a file is shared up to its row in MySQL. -/
theorem wp_storeShare_null (user md5 filename : CString) :
    wp (backends .share cmd) (storeShare .conn .null user md5 filename) (Clear fun _ => True)
      (held (some .conn) (some .null)) := by
  refine ⟨trivial, ?_⟩
  rintro updated _ ⟨rfl, _⟩
  cases updated with
  | none => exact ⟨rfl, rfl, trivial⟩
  | some n =>
      show wp _ (if (decide (0 < n) || !false) = true then _ else _) _ _
      rw [Bool.not_false, Bool.or_true, if_pos rfl]
      refine ⟨trivial, ?_⟩
      rintro createTime _ ⟨rfl, _⟩
      refine ⟨trivial, ?_⟩
      rintro inserted _ ⟨rfl, _⟩
      cases inserted with
      | none => exact ⟨rfl, rfl, trivial⟩
      | some n => exact Or.inl rfl

theorem wp_backends_handleShareFile (user md5 filename : CString) :
    wp (backends .share cmd) (handleShareFile user md5 filename) (Clear fun _ => True) .start := by
  refine wp_backends_withDBConn (wp_backends_withCacheConn ?_ ?_) (wp_backends_withCacheConn ?_ ?_)
  · exact wp_of_dead trivial rfl
  · -- what Redis answers decides whether MySQL is asked
    refine ⟨trivial, ?_⟩
    rintro r _ ⟨rfl, _⟩
    rcases r with _ | _ | r
    · exact ⟨rfl, rfl, trivial⟩
    · exact Or.inl rfl
    · cases r with
      | nil => exact Or.inl rfl
      | _ => exact ⟨rfl, rfl, trivial⟩
  · refine ⟨trivial, ?_⟩
    rintro rows _ ⟨rfl, _⟩
    rcases rows with _ | _ | _
    · exact wp_storeShare_null user md5 filename
    · exact wp_storeShare_null user md5 filename
    · exact Or.inl rfl
  · have hbody : Sound (do
        let exist ← shareExist .conn md5 filename
        if exist = 1 then
          return shareHad
        else if exist = 0 then
          shareIfNew .conn .conn user md5 filename
        else
          return shareFail) fun _ => True := by
      refine CacheConn.sound_zsetExist.then fun _ => ?_
      refine sound_ite (fun _ => sound_ret trivial) fun _ => ?_
      exact sound_ite (fun _ => sound_shareIfNew user md5 filename) fun _ => sound_ret trivial
    refine wp_mono (wp_real hbody (by decide) (by decide) (by decide)) ?_
    rintro ret _ ⟨rfl, _⟩
    exact ⟨rfl, rfl, trivial⟩

/-! ## Deleting -/

theorem sound_sharedState (user md5 filename : CString) :
    Sound (sharedState .conn .conn user md5 filename) fun _ => True := by
  refine CacheConn.sound_zsetExist.then fun _ => sound_ite (fun _ => sound_ret trivial) fun _ => ?_
  refine sound_ite (fun _ => ?_) fun _ => sound_ret trivial
  exact (sound_getResultOneStatus user md5 filename 0).then fun (_, _) => sound_ret trivial

theorem sound_removeIfShared (user md5 filename : CString) (isShared : Int)
    (redisHasRecord : Bool) :
    Sound (removeIfShared .conn .conn user md5 filename isShared redisHasRecord) fun _ => True := by
  refine sound_ite (fun _ => ?_) fun _ => sound_ret trivial
  refine (sound_executeCreate _).then fun _ => sound_ite (fun _ => ?_) fun _ => sound_ret trivial
  refine sound_cacheDecrCount.then fun _ => sound_ite (fun _ => sound_ret trivial) fun _ => ?_
  refine sound_ite (fun _ => ?_) fun _ => sound_ret trivial
  refine (CacheConn.sound_zsetWrite rfl).then fun _ => ?_
  exact (CacheConn.sound_replyInteger rfl).then fun _ => sound_ret trivial

theorem sound_removeUserFile (user md5 filename : CString) :
    Sound (removeUserFile .conn .conn user md5 filename) fun _ => True := by
  refine sound_cacheDecrCount.then fun _ => sound_ite (fun _ => sound_ret trivial) fun _ => ?_
  exact (sound_executeCreate _).then fun _ => sound_ret trivial

theorem sound_removeFile (md5 : CString) : Sound (removeFile .conn md5) fun _ => True := by
  refine sound_strike trivial (fun r hr => ?_) fun r hr => ?_
  · cases r with
    | none => rfl
    | some rows => cases hr
  · cases r with
    | none => cases hr
    | some rows =>
        refine (sound_executeCreate _).then fun _ => ?_
        exact (sound_sys (.system _)).then fun _ => sound_ret trivial

theorem sound_releaseFile (md5 : CString) : Sound (releaseFile .conn md5) fun _ => True := by
  refine (sound_getResultOneCount md5 false 0).then fun (ret, count) => ?_
  refine sound_ite (fun _ => sound_ret trivial) fun _ => sound_ite (fun _ => ?_) fun _ => ?_
  · refine (sound_executeUpdate _ true).then fun _ => ?_
    refine sound_ite (fun _ => ?_) fun _ => sound_ret trivial
    exact sound_ite (fun _ => sound_removeFile md5) fun _ => sound_ret trivial
  · exact sound_ite (fun _ => sound_removeFile md5) fun _ => sound_ret trivial

theorem wp_backends_handleDeleteFile (user md5 filename : CString) :
    wp (backends .delete cmd) (handleDeleteFile user md5 filename) (Clear fun _ => True)
      .start := by
  refine wp_backends_withDBConn (wp_backends_withCacheConn ?_ ?_) (wp_backends_withCacheConn ?_ ?_)
  · exact wp_of_dead trivial rfl
  · -- only an error of Redis keeps the handler from asking MySQL
    refine ⟨trivial, ?_⟩
    rintro r _ ⟨rfl, _⟩
    rcases r with _ | _ | r
    · exact ⟨rfl, rfl, trivial⟩
    · exact Or.inl rfl
    · cases r with
      | nil => exact Or.inl rfl
      | string s => exact Or.inl rfl
      | _ => exact ⟨rfl, rfl, trivial⟩
  · exact wp_of_dead trivial rfl
  · refine wp_mono (wp_real (P := fun _ => True) ?_ (by decide) (by decide) (by decide)) ?_
    · refine (sound_sharedState user md5 filename).then fun state => ?_
      cases state with
      | none => exact sound_ret trivial
      | some state =>
          refine (sound_removeIfShared user md5 filename state.1 state.2).then fun _ => ?_
          refine sound_ite (fun _ => sound_ret trivial) fun _ => ?_
          refine (sound_removeUserFile user md5 filename).then fun _ => ?_
          refine sound_ite (fun _ => sound_ret trivial) fun _ => ?_
          exact (sound_releaseFile md5).then fun _ => sound_ret trivial
    · rintro ret _ ⟨rfl, _⟩
      exact ⟨rfl, rfl, trivial⟩

/-! ## The list of shares and its ranking -/

/-- What `cacheGetCount` makes of a reply. -/
def countRead : RedisResult → Int × Int
  | .reply (.string s) => if s ≠ CString.empty then (0, s.atoll) else (-1, 0)
  | _ => (-1, 0)

theorem cacheGetCount_eq (key : CString) :
    cacheGetCount .conn key =
      issue (.redis (.get key)) >>= fun result => .ret (countRead result) := by
  have hempty : ¬ CString.empty ≠ CString.empty := fun h => h rfl
  show Prog.cmd _ _ = Prog.cmd _ _
  congr 1
  funext result
  rcases result with _ | _ | r
  · exact congrArg Prog.ret (if_neg hempty)
  · exact congrArg Prog.ret (if_neg hempty)
  · cases r with
    | string s => rfl
    | _ => exact congrArg Prog.ret (if_neg hempty)

theorem readsZero_iff (result : RedisResult) :
    readsZero result = true ↔ (countRead result).2 = 0 := by
  rcases result with _ | _ | r
  · exact iff_of_true rfl rfl
  · exact iff_of_true rfl rfl
  · cases r with
    | string s =>
        by_cases hs : s = CString.empty
        · simp [readsZero, countRead, hs]
        · simp [readsZero, countRead, hs]
    | _ => exact iff_of_true rfl rfl

theorem sound_getShareFilesCount : Sound (getShareFilesCount .conn .conn) fun _ => True := by
  refine sound_cacheGetCount.then fun (_, fileCount) => ?_
  refine sound_ite (fun _ => ?_) fun _ => sound_ret trivial
  have hcount : Sound (dbGetShareFilesCount .conn) fun _ => True :=
    (sound_executeQuery rfl).then fun _ => sound_ret trivial
  refine hcount.then fun (ret, count) => sound_ite (fun _ => sound_ret trivial) fun _ => ?_
  exact sound_cacheSetCount.then fun _ => sound_ret trivial

theorem wp_backends_handleGetSharefilesCount :
    wp (backends .sharesCount cmd) handleGetSharefilesCount (Clear fun _ => True) .start := by
  refine wp_backends_withDBConn (wp_backends_withCacheConn ?_ ?_) (wp_backends_withCacheConn ?_ ?_)
  · exact wp_of_dead trivial rfl
  · -- a count that Redis knows needs no MySQL
    rw [getShareFilesCount, cacheGetCount_eq]
    refine ⟨trivial, ?_⟩
    rintro result _ ⟨rfl, _⟩
    have hspoiled : (((Seen.start.after .sharesCount (.getDBConn .tuchuangSlave) .null).after
        .sharesCount .getCacheConn .conn).after .sharesCount (.redis (.get filePublicCount))
          result).spoiled = readsZero result := by
      cases result <;> rfl
    show wp _ (if (countRead result).2 = 0 then _ else _) _ _
    by_cases hzero : (countRead result).2 = 0
    · rw [if_pos hzero]
      exact Or.inl (hspoiled.trans ((readsZero_iff result).mpr hzero))
    · rw [if_neg hzero]
      refine ⟨hspoiled.trans ?_, rfl, trivial⟩
      rw [← Bool.not_eq_true, readsZero_iff]
      exact hzero
  · exact wp_of_dead trivial rfl
  · refine wp_mono (wp_real sound_getShareFilesCount (by decide) (by decide) (by decide)) ?_
    rintro ret _ ⟨rfl, _⟩
    exact ⟨rfl, rfl, trivial⟩

theorem wp_backends_handleGetShareFilelist (start count : Int) :
    wp (backends .sharesList cmd) (handleGetShareFilelist start count) (Clear Coded) .start := by
  refine wp_backends_withDBConn (wp_of_dead ⟨trivial, fun cacheConn _ _ => ?_⟩ rfl)
    (wp_backends_withCacheConn ?_ ?_)
  · cases cacheConn with
    | null => trivial
    | conn =>
        show wp _ ((getShareFilesCount .null .conn >>= _) >>= _) _ _
        rw [getShareFilesCount, cacheGetCount_eq]
        refine ⟨trivial, fun result _ _ => ?_⟩
        show wp _ (((if (countRead result).2 = 0 then _ else _) >>= _) >>= _) _ _
        by_cases hzero : (countRead result).2 = 0
        · rw [if_pos hzero]
          trivial
        · rw [if_neg hzero]
          show wp _ ((if (countRead result).2 = 0 then _ else _) >>= _) _ _
          rw [if_neg hzero]
          trivial
  · exact wp_of_dead trivial rfl
  · refine wp_mono (wp_real (P := Coded) ?_ (by decide) (by decide) (by decide)) ?_
    · refine sound_getShareFilesCount.then fun result => ?_
      refine sound_ite (fun _ => sound_ret (coded_withCode ..)) fun _ => ?_
      refine sound_ite (fun _ => sound_ret (coded_withCode ..)) fun _ => ?_
      refine (sound_executeQuery rfl).then fun rows => ?_
      cases rows <;> exact sound_ret (coded_withCode ..)
    · rintro ret _ ⟨rfl, hcoded⟩
      exact ⟨rfl, rfl, hcoded⟩

theorem sound_rankingFiles (values : List CString) :
    Sound (rankingFiles .conn values) fun _ => True := by
  induction values with
  | nil => exact sound_ret trivial
  | cons value values ih =>
      refine CacheConn.sound_hget.then fun filename => ?_
      cases filename with
      | none => exact sound_ret trivial
      | some filename =>
          refine CacheConn.sound_zsetGetScore.then fun score => ?_
          refine sound_ite (fun _ => sound_ret trivial) fun _ => ih.then fun files => ?_
          cases files <;> exact sound_ret trivial

theorem wp_backends_handleGetRankingFilelist (start count : Int) :
    wp (backends .ranking cmd) (handleGetRankingFilelist start count) (Clear Coded) .start := by
  refine wp_backends_withCacheConn ?_ ?_
  · refine ⟨trivial, ?_⟩
    rintro allocated _ ⟨rfl, _⟩
    cases allocated with
    | true => exact Or.inl rfl
    | false => exact ⟨rfl, rfl, coded_withCode ..⟩
  · refine wp_mono (wp_onCache (P := Coded) ?_ (by decide)) ?_
    · refine (sound_sys (.calloc ..)).then fun _ => ?_
      refine sound_ite (fun _ => ?_) fun _ => sound_ret (coded_withCode ..)
      refine CacheConn.sound_zsetZrevrange.then fun values => ?_
      cases values with
      | none => exact sound_ret (coded_withCode ..)
      | some values =>
          refine (sound_rankingFiles values).then fun files => ?_
          cases files <;> exact sound_ret (coded_withCode ..)
    · rintro ret _ ⟨rfl, hcoded⟩
      exact ⟨rfl, rfl, hcoded⟩

/-! ## Cancelling, saving and downloading a share -/

theorem sound_removeShareRecords (md5 filename : CString) :
    Sound (removeShareRecords .conn md5 filename) fun _ => True := by
  refine (CacheConn.sound_zsetWrite rfl).then fun _ => ?_
  refine sound_ite (fun _ => sound_ret trivial) fun _ => ?_
  exact CacheConn.sound_replyInteger rfl

theorem wp_backends_handleCancelShareFile (user md5 filename : CString) :
    wp (backends .cancel cmd) (handleCancelShareFile user md5 filename) (Clear fun _ => True)
      .start := by
  refine wp_backends_withDBConn (wp_of_dead ⟨trivial, fun _ _ _ => trivial⟩ rfl)
    (wp_backends_withCacheConn ?_ ?_)
  · refine ⟨trivial, ?_⟩
    rintro updated _ ⟨rfl, _⟩
    cases updated with
    | none => exact ⟨rfl, rfl, trivial⟩
    | some n =>
        show wp _ (if (decide (0 < n) || !false) = true then _ else _) _ _
        rw [Bool.not_false, Bool.or_true, if_pos rfl]
        exact Or.inl rfl
  · have hbody : Sound (do
        let updated ← executeUpdate .conn (.setSharedStatus user md5 filename 0) false
        if updated then
          let ret ← cacheDecrCount .conn filePublicCount
          if ret < 0 then
            return httpRespFail
          else
            let dropped ← executeDrop .conn (.deleteShareFile user md5 filename)
            if dropped then
              let ret ← removeShareRecords .conn md5 filename
              return if ret = 0 then httpRespOk else httpRespFail
            else
              return httpRespFail
        else
          return httpRespFail) fun _ => True := by
      refine (sound_executeUpdate _ false).then fun _ => ?_
      refine sound_ite (fun _ => ?_) fun _ => sound_ret trivial
      refine sound_cacheDecrCount.then fun _ => sound_ite (fun _ => sound_ret trivial) fun _ => ?_
      refine (sound_executeCreate _).then fun _ => ?_
      refine sound_ite (fun _ => ?_) fun _ => sound_ret trivial
      exact (sound_removeShareRecords md5 filename).then fun _ => sound_ret trivial
    refine wp_mono (wp_real hbody (by decide) (by decide) (by decide)) ?_
    rintro ret _ ⟨rfl, _⟩
    exact ⟨rfl, rfl, trivial⟩

/-- Without a Redis connection a file is saved up to its row in MySQL. -/
theorem wp_saveReference_null (user md5 filename : CString) :
    wp (backends .save cmd) (saveReference .conn user md5 filename)
      (fun ret q => (ret ≠ 0 ∧ q.spoiled = false ∧ q.threw = false) ∨
        (ret = 0 ∧ q.spoiled = true)) (held (some .conn) (some .null)) := by
  refine ⟨trivial, ?_⟩
  rintro rows _ ⟨rfl, _⟩
  rcases rows with _ | _ | ⟨count, rows⟩
  · exact Or.inl rfl
  · exact Or.inl ⟨by decide, rfl, rfl⟩
  · refine ⟨trivial, ?_⟩
    rintro updated _ ⟨rfl, _⟩
    rcases updated with _ | _ | n
    · exact Or.inl ⟨by decide, rfl, rfl⟩
    · exact Or.inl ⟨by decide, rfl, rfl⟩
    · refine ⟨trivial, ?_⟩
      rintro createTime _ ⟨rfl, _⟩
      refine ⟨trivial, ?_⟩
      rintro inserted _ ⟨rfl, _⟩
      cases inserted with
      | none => exact Or.inl ⟨by decide, rfl, rfl⟩
      | some n => exact Or.inr ⟨rfl, rfl⟩

theorem sound_saveReference (user md5 filename : CString) :
    Sound (saveReference .conn user md5 filename) fun _ => True := by
  refine (sound_getResultOneCount md5 false 0).then fun (ret, count) => ?_
  refine sound_ite (fun _ => sound_ret trivial) fun _ => ?_
  refine (sound_executeUpdate _ true).then fun _ => ?_
  refine sound_ite (fun _ => ?_) fun _ => sound_ret trivial
  refine (sound_sys .currentTime).then fun _ => (sound_executeCreate _).then fun _ => ?_
  exact sound_ret trivial

theorem wp_backends_handleSaveFile (user md5 filename : CString) :
    wp (backends .save cmd) (handleSaveFile user md5 filename) (Clear fun _ => True) .start := by
  refine wp_backends_withDBConn (wp_of_dead ⟨trivial, fun _ _ _ => trivial⟩ rfl)
    (wp_backends_withCacheConn ?_ ?_)
  · refine ⟨trivial, ?_⟩
    rintro rows _ ⟨rfl, _⟩
    rcases rows with _ | _ | _
    · exact ⟨rfl, rfl, trivial⟩
    · show wp _ (saveReference .conn user md5 filename >>= _) _ _
      rw [wp_bind]
      refine wp_mono (wp_saveReference_null user md5 filename) ?_
      rintro ret q (⟨hne, hspoiled, hthrew⟩ | ⟨rfl, hspoiled⟩)
      · rw [if_pos hne]
        exact ⟨hspoiled, hthrew, trivial⟩
      · exact Or.inl hspoiled
    · exact ⟨rfl, rfl, trivial⟩
  · have hbody : Sound (do
        let record ← checkwhetherHaveRecord .conn (.userFile user md5 filename false)
        if record = 1 then
          return httpRespFileExist
        else if record < 0 then
          return httpRespFail
        else
          let saved ← saveReference .conn user md5 filename
          if saved ≠ 0 then
            return httpRespFail
          else
            let ret ← cacheIncrCount .conn (fileUserCount ++ user)
            return if ret < 0 then httpRespFail else httpRespOk) fun _ => True := by
      refine (sound_checkwhetherHaveRecord rfl).then fun _ => ?_
      refine sound_ite (fun _ => sound_ret trivial) fun _ => ?_
      refine sound_ite (fun _ => sound_ret trivial) fun _ => ?_
      refine (sound_saveReference user md5 filename).then fun _ => ?_
      refine sound_ite (fun _ => sound_ret trivial) fun _ => ?_
      exact sound_cacheIncrCount.then fun _ => sound_ret trivial
    refine wp_mono (wp_real hbody (by decide) (by decide) (by decide)) ?_
    rintro ret _ ⟨rfl, _⟩
    exact ⟨rfl, rfl, trivial⟩

/-- The transaction does without Redis; the committed value is what cannot be followed. -/
theorem wp_incrSharePv_null (md5 filename : CString) :
    wp (backends .pv cmd) (incrSharePv .conn md5 filename)
      (fun result q => (result = none ∧ q.spoiled = false ∧ q.threw = false) ∨
        (result.isSome ∧ q.spoiled = true)) (held (some .conn) (some .null)) := by
  have hrollback : wp (backends .pv cmd) (rollback .conn >>= fun _ => .ret (none : Option Int))
      (fun result q => (result = none ∧ q.spoiled = false ∧ q.threw = false) ∨
        (result.isSome ∧ q.spoiled = true)) (held (some .conn) (some .null)) := by
    refine ⟨trivial, ?_⟩
    rintro done _ ⟨rfl, _⟩
    exact Or.inl ⟨rfl, rfl, rfl⟩
  refine ⟨trivial, ?_⟩
  rintro started _ ⟨rfl, _⟩
  refine ⟨trivial, ?_⟩
  rintro rows _ ⟨rfl, _⟩
  rcases rows with _ | _ | ⟨pv, rows⟩
  · exact hrollback
  · exact hrollback
  · refine ⟨trivial, ?_⟩
    rintro updated _ ⟨rfl, _⟩
    cases updated with
    | none => exact hrollback
    | some n =>
        show wp _ (if (decide (0 < n) || !false) = true then _ else _) _ _
        rw [Bool.not_false, Bool.or_true, if_pos rfl]
        refine ⟨trivial, ?_⟩
        rintro done _ ⟨rfl, _⟩
        exact Or.inr ⟨rfl, rfl⟩

theorem sound_incrSharePv (md5 filename : CString) :
    Sound (incrSharePv .conn md5 filename) fun _ => True := by
  refine sound_startTransaction.then fun _ => (sound_executeQuery rfl).then fun rows => ?_
  have hrollback : Sound (rollback .conn >>= fun _ => .ret (none : Option Int)) fun _ => True :=
    sound_rollback.then fun _ => sound_ret trivial
  rcases rows with _ | _ | ⟨pv, rows⟩
  · exact hrollback
  · exact hrollback
  · refine (sound_executeUpdate _ false).then fun _ => sound_ite (fun _ => ?_) fun _ => hrollback
    exact sound_commit.then fun _ => sound_ret trivial

theorem sound_incrShareScore (md5 filename : CString) (pv : Int) :
    Sound (incrShareScore .conn md5 filename pv) fun _ => True := by
  refine CacheConn.sound_zsetExist.then fun _ => ?_
  refine sound_ite (fun _ => CacheConn.sound_zsetIncr) fun _ => ?_
  exact sound_ite (fun _ => sound_addRecords (sound_ret trivial)) fun _ => sound_ret trivial

theorem wp_backends_handlePvFile (md5 filename : CString) :
    wp (backends .pv cmd) (handlePvFile md5 filename) (Clear fun _ => True) .start := by
  refine wp_backends_withDBConn (wp_of_dead ⟨trivial, fun _ _ _ => trivial⟩ rfl)
    (wp_backends_withCacheConn ?_ ?_)
  · rw [wp_bind]
    refine wp_mono (wp_incrSharePv_null md5 filename) ?_
    rintro result q (⟨rfl, hspoiled, hthrew⟩ | ⟨hsome, hspoiled⟩)
    · exact ⟨hspoiled, hthrew, trivial⟩
    · obtain ⟨pv, rfl⟩ := Option.isSome_iff_exists.mp hsome
      exact Or.inl hspoiled
  · refine wp_mono (wp_real (P := fun _ => True) ?_ (by decide) (by decide) (by decide)) ?_
    · refine (sound_incrSharePv md5 filename).then fun result => ?_
      cases result with
      | none => exact sound_ret trivial
      | some pv => exact (sound_incrShareScore md5 filename pv).then fun _ => sound_ret trivial
    · rintro ret _ ⟨rfl, _⟩
      exact ⟨rfl, rfl, trivial⟩

/-! ## Uploading -/

/-- The state of an upload between its connection and its inserts. -/
def uploading (dbConn : Ptr) (unlinked spoiled threw : Bool) : Seen :=
  ⟨some dbConn, none, unlinked, spoiled, threw⟩

/-- The first tool gets along without a connection. -/
theorem wp_runTool_first (cfg : UploadConfig) (tool : String) (arg : CString) (dbConn : Ptr) :
    wp (backends .upload cmd) (runTool cfg tool arg)
      (fun _ q => q = uploading dbConn false false false) (uploading dbConn false false false) := by
  refine ⟨trivial, ?_⟩
  rintro (piped : Int) _ ⟨rfl, _⟩
  show wp _ (if piped < 0 then _ else _) _ _
  split
  · rfl
  · refine ⟨trivial, ?_⟩
    rintro forked _ ⟨rfl, _⟩
    cases forked with
    | error => rfl
    | child =>
        refine ⟨trivial, ?_⟩
        rintro started _ ⟨rfl, _⟩
        show _ = _
        simp [uploading, Seen.after, Seen.move, strikes, missing]
    | parent =>
        refine ⟨trivial, ?_⟩
        rintro output _ ⟨rfl, _⟩
        show _ = _
        simp [uploading, Seen.after, Seen.move, strikes, missing]

theorem wp_uploadFileToFastDfs (cfg : UploadConfig) (filePath : CString) (dbConn : Ptr) :
    wp (backends .upload cmd) (uploadFileToFastDfs cfg filePath)
      (fun _ q => q = uploading dbConn false false false) (uploading dbConn false false false) := by
  unfold uploadFileToFastDfs
  rw [wp_bind]
  refine wp_mono (wp_runTool_first cfg _ filePath dbConn) ?_
  rintro (_ | ⟨process, output⟩) _ rfl
  · rfl
  · cases process <;> rfl

/-- The second tool is the last thing before the inserts. -/
theorem wp_getFullurlByFileid (cfg : UploadConfig) (fileid : CString) (dbConn : Ptr) :
    wp (backends .upload cmd) (getFullurlByFileid cfg fileid)
      (fun ret q => (ret.1 < 0 ∧ q = uploading dbConn true false false) ∨
        (¬ ret.1 < 0 ∧ q = uploading dbConn true (decide (dbConn = .null)) false))
      (uploading dbConn true false false) := by
  refine ⟨trivial, ?_⟩
  rintro (piped : Int) _ ⟨rfl, _⟩
  show wp _ ((if piped < 0 then _ else _) >>= _) _ _
  split
  · exact Or.inl ⟨by decide, rfl⟩
  · refine ⟨trivial, ?_⟩
    rintro forked _ ⟨rfl, _⟩
    cases forked with
    | error => exact Or.inl ⟨by decide, rfl⟩
    | child =>
        refine ⟨trivial, ?_⟩
        rintro started _ ⟨rfl, _⟩
        refine Or.inr ⟨by decide, ?_⟩
        simp [uploading, Seen.after, Seen.move, strikes, missing]
    | parent =>
        refine ⟨trivial, ?_⟩
        rintro (output : List UInt8) _ ⟨rfl, _⟩
        have hafter : (((uploading dbConn true false false).after .upload (.sys .pipe) piped).after
            .upload (.sys .fork) .parent).after .upload (.sys (.readPipe 512)) output =
            uploading dbConn true (decide (dbConn = .null)) (!readsAddress output) := by
          simp [uploading, Seen.after, Seen.move, strikes, missing]
        show wp _ (orThrow (strstr _ (CString.cStr output).bytes) >>= _) _ _
        rw [hafter, readsAddress]
        split
        · rename_i found hfound
          rw [hfound, orThrow_some, Prog.ret_bind]
          cases hline :
            strstr [10] (found.drop (CString.lit "source ip address: ").bytes.length) with
          | none => exact Or.inr rfl
          | some line => exact Or.inr ⟨Int.lt_irrefl 0, rfl⟩
        · rename_i hnone
          rw [hnone]
          exact Or.inr rfl

theorem wp_storeFileinfo (user filename md5 : CString) (size : Int) (fileid url : CString) :
    wp (backends .upload cmd) (storeFileinfo .conn user filename md5 size fileid url)
      (fun _ q => q = uploading .conn true false false) (uploading .conn true false false) := by
  refine ⟨trivial, ?_⟩
  rintro stored _ ⟨rfl, _⟩
  cases stored with
  | none => rfl
  | some n =>
      refine ⟨trivial, ?_⟩
      rintro createTime _ ⟨rfl, _⟩
      refine ⟨trivial, ?_⟩
      rintro inserted _ ⟨rfl, _⟩
      cases inserted <;> rfl

/-- Without a connection nothing that comes to the inserts returns. -/
theorem dead_store (cfg : UploadConfig) (user filename md5 : CString) (size : Int)
    (fileid url : CString) :
    Dead (shortUrlOf cfg url >>= fun shortUrl =>
      storeFileinfo .null user filename md5 size fileid shortUrl >>= fun stored =>
        .ret (if stored < 0 then (1 : Int) else 0)) := by
  unfold shortUrlOf
  split
  · exact ⟨trivial, fun short _ _ => trivial⟩
  · trivial

theorem wp_uploadMsg (cfg : UploadConfig) (dbConn : Ptr) (parts : List Part) (size : Int) :
    wp (backends .upload cmd) (uploadMsg cfg dbConn parts size)
      (fun _ q => q.spoiled = false ∧ q.threw = false) (uploading dbConn false false false) := by
  refine ⟨trivial, ?_⟩
  rintro (renamed : Int) _ ⟨rfl, _⟩
  show wp _ (if renamed < 0 then _ else _) _ _
  split
  · exact ⟨rfl, rfl⟩
  · rw [wp_bind]
    refine wp_mono (wp_uploadFileToFastDfs cfg _ dbConn) ?_
    rintro ⟨uploaded, fileid⟩ _ rfl
    refine ⟨trivial, ?_⟩
    rintro unlinked _ ⟨rfl, _⟩
    show wp _ (if uploaded < 0 then _ else _) _ _
    split
    · exact ⟨rfl, rfl⟩
    · rw [wp_bind]
      refine wp_mono (wp_getFullurlByFileid cfg fileid dbConn) ?_
      rintro ⟨ret, url⟩ _ (⟨hneg, rfl⟩ | ⟨hnonneg, rfl⟩)
      · show wp _ (if ret < 0 then _ else _) _ _
        rw [if_pos hneg]
        exact ⟨rfl, rfl⟩
      · show wp _ (if ret < 0 then _ else _) _ _
        rw [if_neg hnonneg]
        cases dbConn with
        | null => exact wp_of_dead (dead_store cfg ..) rfl
        | conn =>
            rw [wp_bind]
            have hshort : wp (backends .upload cmd) (shortUrlOf cfg url)
                (fun _ q => q = uploading .conn true false false)
                (uploading .conn true false false) := by
              unfold shortUrlOf
              split
              · refine ⟨trivial, ?_⟩
                rintro short _ ⟨rfl, _⟩
                rfl
              · rfl
            refine wp_mono hshort ?_
            rintro shortUrl _ rfl
            rw [wp_bind]
            refine wp_mono (wp_storeFileinfo ..) ?_
            rintro stored _ rfl
            exact ⟨rfl, rfl⟩

/-- The request behind the connection. -/
theorem wp_uploadParts (cfg : UploadConfig) (dbConn : Ptr) {postData split : List UInt8}
    (hparts : (decodeMsg postData split).isSome) :
    wp (backends .upload cmd) (do
      let parts ← orThrow (decodeMsg postData split)
      if parts.length ≠ fieldCnt then
        return (0, some (.fast (encodeCode 1)))
      else
        match (uploadField parts "file_size").stol with
        | none => return (0, some (.fast (encodeCode 1)))
        | some size =>
            let code ← uploadMsg cfg dbConn parts size
            return (0, some (.fast (encodeCode code))))
      (Clear fun response : Response => ∃ code, codeOf response = some code)
      (uploading dbConn false false false) := by
  obtain ⟨parts, hparts⟩ := Option.isSome_iff_exists.mp hparts
  rw [hparts, orThrow_some, Prog.ret_bind]
  split
  · exact ⟨rfl, rfl, 1, codeOf_encodeCode ..⟩
  · split
    · exact ⟨rfl, rfl, 1, codeOf_encodeCode ..⟩
    · rw [wp_bind]
      refine wp_mono (wp_uploadMsg cfg dbConn parts _) ?_
      rintro code q ⟨hspoiled, hthrew⟩
      exact ⟨hspoiled, hthrew, code, codeOf_encodeCode ..⟩

theorem wp_backends_apiUpload (cfg : UploadConfig) (postData split : List UInt8)
    (hparts : (decodeMsg postData split).isSome) :
    wp (backends .upload cmd) (apiUpload cfg postData split)
      (Clear fun response => ∃ code, codeOf response = some code) .start := by
  refine wp_backends_withDBConn (wp_uploadParts cfg .null hparts)
    (wp_mono (wp_uploadParts cfg .conn hparts) ?_)
  rintro response q ⟨hspoiled, hthrew, hcode⟩
  exact ⟨hspoiled, hthrew, hcode⟩

end Handlers

end Replies
end TcMuzi
