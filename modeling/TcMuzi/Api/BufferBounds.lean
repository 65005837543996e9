import TcMuzi.Api.Buffers

/-!
# How long the arguments of a handler may be

The longest text of each handler decides: the others are shorter for the same arguments, and
some answers of the backends lead to it.
-/

namespace TcMuzi
namespace Api

open Base Server Redis Lib Mysql

variable {limits : Limits} {unlinked : Bool} {user md5 filename : CString}

/-- All texts fit, before the file is unlinked or after it. -/
abbrev StaysFrom (isMd5 : Bool) (limits : Limits) (unlinked : Bool) {α : Type} (p : Handler α) :
    Prop :=
  wp (buffers isMd5 limits) p (fun _ _ => True) unlinked

/-- A text of this length. -/
def zeros (n : Nat) : CString where
  bytes := List.replicate n 48
  nulFree := fun h => absurd (List.eq_of_mem_replicate h) (by decide)

theorem length_zeros (n : Nat) : (zeros n).length = n := List.length_replicate

/-! ## Statements that several handlers print -/

theorem inBounds_setSharedStatus {status : Int} (hstatus : digits status = 1)
    (h : user.length + md5.length + filename.length ≤ 420) :
    InBounds false (.update (.setSharedStatus user md5 filename status)) := by
  refine inBounds_update ?_
  simp [textLength, Update.templateLengths, Update.formats, Format.printed, hstatus]
  omega

theorem inBounds_deleteShareFile (h : user.length + md5.length + filename.length ≤ 423) :
    InBounds false (.update (.deleteShareFile user md5 filename)) := by
  refine inBounds_update ?_
  simp [textLength, Update.templateLengths, Update.formats, Format.printed]
  omega

theorem inBounds_userFile {isMd5 forUpdate : Bool}
    (h : user.length + md5.length + filename.length ≤ 424) :
    InBounds isMd5 (.query (.userFile user md5 filename forUpdate)) := by
  refine inBounds_query ?_
  cases forUpdate <;> simp [Query.templateLength, Query.format, Format.printed] <;> omega

/-- A statement about a file's row alone. -/
theorem inBounds_fileCount {isMd5 forUpdate : Bool} (h : md5.length ≤ 456) :
    InBounds isMd5 (.query (.fileCount md5 forUpdate)) := by
  refine inBounds_query ?_
  cases forUpdate <;> simp [Query.templateLength, Query.format, Format.printed] <;> omega

theorem inBounds_setFileCount {isMd5 : Bool} {count : Int} (h : md5.length ≤ 456)
    (hdigits : digits count ≤ 11) : InBounds isMd5 (.update (.setFileCount md5 count)) := by
  refine inBounds_update ?_
  simp [textLength, Update.templateLengths, Update.formats, Format.printed]
  omega

/-! ## One's own files -/

section Share

theorem stays_addRecords {α : Type} {isMd5 : Bool} {ptr : Ptr} {score : Int} {k : Handler α}
    {R : α → Prop} (h : md5.length + filename.length < 1024) (hk : Stays isMd5 limits k R) :
    Stays isMd5 limits (CacheConn.zsetAdd ptr filePublicZset score (fileidOf md5 filename) >>=
      fun _ => CacheConn.hset ptr fileNameHash (fileidOf md5 filename) filename >>= fun _ => k)
      R := by
  refine stays_bind (stays_of_uses (uses_zsetWrite (inBounds_redis rfl h))) fun _ _ => ?_
  exact stays_bind (stays_of_uses (uses_replyInteger (inBounds_redis rfl h))) fun _ _ => hk

variable (h : user.length + md5.length + filename.length ≤ 398)
include h

theorem stays_storeShare (ptr cacheConn : Ptr) :
    Stays false limits (storeShare ptr cacheConn user md5 filename) fun _ => True := by
  have hstatus : InBounds false (.update (.setSharedStatus user md5 filename 1)) :=
    inBounds_setSharedStatus digits_one (by omega)
  refine stays_bind (stays_executeUpdate hstatus) fun updated _ => ?_
  refine stays_ite (fun _ => ?_) fun _ => stays_ret trivial
  refine stays_bind stays_currentTime fun time htime => ?_
  have hinsert : InBounds false (.update (.insertShareFile ⟨user, md5, time, filename, 0⟩)) := by
    refine inBounds_update ?_
    simp [textLength, Update.templateLengths, Update.formats, Format.printed, digits_zero, htime]
    omega
  refine stays_bind (stays_executeCreate hinsert) fun inserted _ => ?_
  refine stays_ite (fun _ => ?_) fun _ => stays_ret trivial
  refine stays_bind stays_cacheIncrCount fun ret _ => ?_
  refine stays_ite (fun _ => stays_ret trivial) fun _ => ?_
  exact stays_addRecords (by omega) (stays_ret trivial)

theorem stays_handleShareFile :
    Stays false limits (handleShareFile user md5 filename) fun _ => True := by
  have hfileid : md5.length + filename.length < 1024 := by omega
  have hrecord : InBounds false (.query (.shareFile md5 filename)) := by
    refine inBounds_query ?_
    simp [Query.templateLength, Query.format, Format.printed]
    omega
  refine stays_withDBConn fun dbConn => stays_withCacheConn fun cacheConn => ?_
  have hexist : Uses (InBounds false) (shareExist cacheConn md5 filename) := by
    cases cacheConn with
    | null => trivial
    | conn => exact uses_zsetExist (inBounds_redis rfl hfileid)
  refine stays_bind (stays_of_uses hexist) fun _ _ => ?_
  refine stays_ite (fun _ => stays_ret trivial) fun _ => ?_
  refine stays_ite (fun _ => ?_) fun _ => stays_ret trivial
  refine stays_bind (stays_checkwhetherHaveRecord hrecord) fun record _ => ?_
  refine stays_ite (fun _ => ?_) fun _ => stays_storeShare h dbConn cacheConn
  exact stays_addRecords hfileid (stays_ret trivial)

end Share

/-- The row of the share is the longest text. -/
theorem handleShareFile_iff : StaysFrom false limits unlinked (handleShareFile user md5 filename) ↔
    user.length + md5.length + filename.length ≤ 398 := by
  refine ⟨fun h => ?_, fun h => stays_handleShareFile h unlinked⟩
  -- neither Redis nor MySQL knows the share, and the status of the file is updated
  have hconn := (h.2 .conn _ ⟨trivial, rfl⟩).2 .conn _ ⟨trivial, rfl⟩
  have hrecord := (hconn.2 (.reply .nil) _ ⟨trivial, rfl⟩).2 (some []) _ ⟨nofun, rfl⟩
  have htime := (hrecord.2 (some 1) _ ⟨trivial, rfl⟩).2 (zeros 19) _ ⟨length_zeros 19, rfl⟩
  have hinsert := (formats_fit_iff _).mp htime.1
  simp [textLength, Update.templateLengths, Update.formats, Format.printed, digits_zero,
    length_zeros] at hinsert
  omega

section Delete

variable (h : user.length + md5.length + filename.length ≤ 423)
include h

theorem stays_sharedState (ptr cacheConn : Ptr) :
    Stays false limits (sharedState ptr cacheConn user md5 filename) fun _ => True := by
  have hfileid : md5.length + filename.length < 1024 := by omega
  have hstatus : InBounds false (.query (.sharedStatus user md5 filename)) := by
    refine inBounds_query ?_
    simp [Query.templateLength, Query.format, Format.printed]
    omega
  refine stays_bind (stays_of_uses (uses_zsetExist (inBounds_redis rfl hfileid))) fun _ _ => ?_
  refine stays_ite (fun _ => stays_ret trivial) fun _ => ?_
  refine stays_ite (fun _ => ?_) fun _ => stays_ret trivial
  exact stays_bind (stays_getResultOneStatus hstatus) fun _ _ => stays_ret trivial

theorem stays_removeIfShared (ptr cacheConn : Ptr) (isShared : Int) (redisHasRecord : Bool) :
    Stays false limits (removeIfShared ptr cacheConn user md5 filename isShared redisHasRecord)
      fun _ => True := by
  have hfileid : md5.length + filename.length < 1024 := by omega
  refine stays_ite (fun _ => ?_) fun _ => stays_ret trivial
  refine stays_bind (stays_executeCreate (inBounds_deleteShareFile h)) fun _ _ => ?_
  refine stays_ite (fun _ => ?_) fun _ => stays_ret trivial
  refine stays_bind stays_cacheDecrCount fun _ _ => ?_
  refine stays_ite (fun _ => stays_ret trivial) fun _ => ?_
  refine stays_ite (fun _ => ?_) fun _ => stays_ret trivial
  refine stays_bind (stays_of_uses (uses_zsetWrite (inBounds_redis rfl hfileid))) fun _ _ => ?_
  exact stays_bind (stays_of_uses (uses_replyInteger (inBounds_redis rfl hfileid))) fun _ _ =>
    stays_ret trivial

theorem stays_removeUserFile (ptr cacheConn : Ptr) :
    Stays false limits (removeUserFile ptr cacheConn user md5 filename) fun _ => True := by
  have hdrop : InBounds false (.update (.deleteUserFile user md5 filename)) := by
    refine inBounds_update ?_
    simp [textLength, Update.templateLengths, Update.formats, Format.printed]
    omega
  refine stays_bind stays_cacheDecrCount fun _ _ => ?_
  refine stays_ite (fun _ => stays_ret trivial) fun _ => ?_
  exact stays_bind (stays_executeCreate hdrop) fun _ _ => stays_ret trivial

end Delete

theorem stays_removeFile (h : md5.length ≤ 456) (ptr : Ptr) :
    Stays false limits (removeFile ptr md5) fun _ => True := by
  have hfileId : InBounds false (.query (.fileId md5)) := by
    refine inBounds_query ?_
    simp [Query.templateLength, Query.format, Format.printed]
    omega
  have hdrop : InBounds false (.update (.deleteFileInfo md5)) := by
    refine inBounds_update ?_
    simp [textLength, Update.templateLengths, Update.formats, Format.printed]
    omega
  refine stays_bind (stays_executeQuery hfileId) fun rows _ => ?_
  split
  · exact fun _ => trivial
  · refine stays_bind (stays_executeCreate hdrop) fun _ _ => ?_
    exact stays_bind (stays_issue trivial fun _ _ _ => trivial) fun _ (_ : True) =>
      stays_ret trivial

theorem stays_releaseFile (h : md5.length ≤ 456) (ptr : Ptr) :
    Stays false limits (releaseFile ptr md5) fun _ => True := by
  refine stays_bind (stays_getResultOneCount (inBounds_fileCount h)) fun (ret, count) hcount => ?_
  obtain ⟨hlow, hhigh⟩ := hcount
  refine stays_ite (fun _ => stays_ret trivial) fun _ => ?_
  refine stays_ite (fun _ => ?_) fun _ => ?_
  · have hset : InBounds false (.update (.setFileCount md5 (count - 1))) :=
      inBounds_setFileCount h (digits_le (by omega) (by omega))
    refine stays_bind (stays_executeUpdate hset) fun _ _ => ?_
    refine stays_ite (fun _ => ?_) fun _ => stays_ret trivial
    exact stays_ite (fun _ => stays_removeFile h ptr) fun _ => stays_ret trivial
  · exact stays_ite (fun _ => stays_removeFile h ptr) fun _ => stays_ret trivial

/-- The query for the status of the share. -/
theorem handleDeleteFile_iff :
    StaysFrom false limits unlinked (handleDeleteFile user md5 filename) ↔
      user.length + md5.length + filename.length ≤ 423 := by
  constructor
  · intro h
    have hconn := (h.2 .conn _ ⟨trivial, rfl⟩).2 .conn _ ⟨trivial, rfl⟩
    -- Redis does not know the share
    have hstatus : InBounds false (.query (.sharedStatus user md5 filename)) :=
      (hconn.2 (.reply .nil) _ ⟨trivial, rfl⟩).1
    have hlength := length_of_query hstatus trivial
    simp [Query.templateLength, Query.format, Format.printed] at hlength
    omega
  · intro h
    refine stays_withDBConn (R := fun _ => True) (fun dbConn => ?_) unlinked
    refine stays_withCacheConn fun cacheConn => ?_
    refine stays_bind (stays_sharedState h dbConn cacheConn) fun shared _ => ?_
    cases shared with
    | none => exact stays_ret trivial
    | some shared =>
        obtain ⟨isShared, redisHasRecord⟩ := shared
        refine stays_bind (stays_removeIfShared h dbConn cacheConn isShared redisHasRecord)
          fun _ _ => ?_
        refine stays_ite (fun _ => stays_ret trivial) fun _ => ?_
        refine stays_bind (stays_removeUserFile h dbConn cacheConn) fun _ _ => ?_
        refine stays_ite (fun _ => stays_ret trivial) fun _ => ?_
        exact stays_bind (stays_releaseFile (by omega) dbConn) fun _ _ => stays_ret trivial

/-- The update of the downloads, with the longest number. -/
theorem handlePvUserFile_iff :
    StaysFrom false limits unlinked (handlePvUserFile user md5 filename) ↔
      user.length + md5.length + filename.length ≤ 421 := by
  constructor
  · intro h
    -- a count of eleven bytes
    have hrows : ∀ row ∈ [(-2147483648 : Int)], IsInt32 row :=
      List.forall_mem_singleton.mpr (by decide)
    have hquery := (h.2 .conn _ ⟨trivial, rfl⟩).2 (some [-2147483648]) _ ⟨hrows, rfl⟩
    have hlength := (formats_fit_iff _).mp hquery.1
    have hdigits : digits (wrapInt32 (-2147483648 + 1)) = 11 := by decide
    simp only [textLength, Update.templateLengths, Update.formats, Format.printed, List.map_cons,
      List.map_nil, size_int, size_str, hdigits] at hlength
    simp at hlength
    omega
  · intro h
    have hquery : InBounds false (.query (.userFilePv user md5 filename)) := by
      refine inBounds_query ?_
      simp [Query.templateLength, Query.format, Format.printed]
      omega
    refine stays_withDBConn (R := fun _ => True) (fun dbConn => ?_) unlinked
    refine stays_bind (stays_executeQuery hquery) fun rows hrows => ?_
    split
    · rename_i pv rows
      have hdigits := digits_wrapInt32_le (pv + 1)
      have hset :
          InBounds false (.update (.setUserFilePv user md5 filename (wrapInt32 (pv + 1)))) := by
        refine inBounds_update ?_
        simp [textLength, Update.templateLengths, Update.formats, Format.printed]
        omega
      exact stays_bind (stays_executeUpdate hset) fun _ _ => stays_ret trivial
    · exact stays_ret trivial

/-! ## Shared files -/

/-- The update of the status. -/
theorem handleCancelShareFile_iff :
    StaysFrom false limits unlinked (handleCancelShareFile user md5 filename) ↔
      user.length + md5.length + filename.length ≤ 420 := by
  constructor
  · intro h
    have hstatus := ((h.2 .conn _ ⟨trivial, rfl⟩).2 .conn _ ⟨trivial, rfl⟩).1
    have hlength := (formats_fit_iff _).mp hstatus
    simp [textLength, Update.templateLengths, Update.formats, Format.printed, digits_zero]
      at hlength
    omega
  · intro h
    have hfileid : md5.length + filename.length < 1024 := by omega
    have hstatus : InBounds false (.update (.setSharedStatus user md5 filename 0)) :=
      inBounds_setSharedStatus digits_zero h
    have hdrop : InBounds false (.update (.deleteShareFile user md5 filename)) :=
      inBounds_deleteShareFile (by omega)
    refine stays_withDBConn (R := fun _ => True) (fun dbConn => ?_) unlinked
    refine stays_withCacheConn fun cacheConn => ?_
    refine stays_bind (stays_executeUpdate hstatus) fun _ _ => ?_
    refine stays_ite (fun _ => ?_) fun _ => stays_ret trivial
    refine stays_bind stays_cacheDecrCount fun _ _ => ?_
    refine stays_ite (fun _ => stays_ret trivial) fun _ => ?_
    refine stays_bind (stays_executeCreate hdrop) fun _ _ => ?_
    refine stays_ite (fun _ => ?_) fun _ => stays_ret trivial
    have hremove : Stays false limits (removeShareRecords cacheConn md5 filename)
        fun _ => True := by
      refine stays_bind (stays_of_uses (uses_zsetWrite (inBounds_redis rfl hfileid)))
        fun _ _ => ?_
      refine stays_ite (fun _ => stays_ret trivial) fun _ => ?_
      exact stays_of_uses (uses_replyInteger (inBounds_redis rfl hfileid))
    exact stays_bind hremove fun _ _ => stays_ret trivial

/-- The row of a file that a user obtains. -/
theorem length_of_insertUserFile {time : CString} (htime : time.length = 19) :
    textLength (.insertUserFile (newUserFile user md5 time filename)) =
      129 + user.length + md5.length + filename.length := by
  simp [textLength, Update.templateLengths, Update.formats, Format.printed, newUserFile,
    digits_zero, htime]
  omega

theorem stays_saveReference (h : user.length + md5.length + filename.length ≤ 382) (ptr : Ptr) :
    Stays false limits (saveReference ptr user md5 filename) fun _ => True := by
  have hmd5 : md5.length ≤ 456 := by omega
  have hquery : InBounds false (.query (.fileCount md5 false)) := inBounds_fileCount hmd5
  refine stays_bind (stays_getResultOneCount hquery) fun (ret, count) _ => ?_
  refine stays_ite (fun _ => stays_ret trivial) fun _ => ?_
  have hset : InBounds false (.update (.setFileCount md5 (wrapInt32 (count + 1)))) :=
    inBounds_setFileCount hmd5 (digits_wrapInt32_le _)
  refine stays_bind (stays_executeUpdate hset) fun _ _ => ?_
  refine stays_ite (fun _ => ?_) fun _ => stays_ret trivial
  refine stays_bind stays_currentTime fun time htime => ?_
  have hinsert : InBounds false (.update (.insertUserFile (newUserFile user md5 time filename))) :=
    inBounds_update (by rw [length_of_insertUserFile htime]; omega)
  exact stays_bind (stays_executeCreate hinsert) fun _ _ => stays_ret trivial

theorem handleSaveFile_iff : StaysFrom false limits unlinked (handleSaveFile user md5 filename) ↔
    user.length + md5.length + filename.length ≤ 382 := by
  constructor
  · intro h
    have hconn := (h.2 .conn _ ⟨trivial, rfl⟩).2 .conn _ ⟨trivial, rfl⟩
    -- the user does not have the file, whose count is read and updated
    have hcount := hconn.2 (some []) _ ⟨nofun, rfl⟩
    have hzero : ∀ row ∈ [(0 : Int)], IsInt32 row := List.forall_mem_singleton.mpr (by decide)
    have htime := (hcount.2 (some [0]) _ ⟨hzero, rfl⟩).2 (some 1) _ ⟨trivial, rfl⟩
    have hinsert := htime.2 (zeros 19) _ ⟨length_zeros 19, rfl⟩
    have hlength := hinsert.1.resolve_left (by decide)
    rw [formats_fit_iff, length_of_insertUserFile (length_zeros 19)] at hlength
    omega
  · intro h
    have hrecord : InBounds false (.query (.userFile user md5 filename false)) :=
      inBounds_userFile (by omega)
    refine stays_withDBConn (R := fun _ => True) (fun dbConn => ?_) unlinked
    refine stays_withCacheConn fun cacheConn => ?_
    refine stays_bind (stays_checkwhetherHaveRecord hrecord) fun _ _ => ?_
    refine stays_ite (fun _ => stays_ret trivial) fun _ => ?_
    refine stays_ite (fun _ => stays_ret trivial) fun _ => ?_
    refine stays_bind (stays_saveReference h dbConn) fun _ _ => ?_
    refine stays_ite (fun _ => stays_ret trivial) fun _ => ?_
    exact stays_bind stays_cacheIncrCount fun _ _ => stays_ret trivial

section Pv

variable (h : md5.length + filename.length ≤ 434)
include h

theorem stays_incrSharePv (ptr : Ptr) :
    Stays false limits (incrSharePv ptr md5 filename) fun _ => True := by
  have hquery : InBounds false (.query (.shareFilePvForUpdate md5 filename)) := by
    refine inBounds_query ?_
    simp [Query.templateLength, Query.format, Format.printed]
    omega
  have hend : ∀ c, Uses (InBounds false) (onConn ptr (issue c)) → ∀ result : Option Int,
      Stays false limits (onConn ptr (issue c) >>= fun _ => .ret result) fun _ => True :=
    fun c hc result => stays_bind (stays_of_uses hc) fun _ _ => stays_ret trivial
  refine stays_bind (stays_of_uses (uses_onConn ⟨trivial, fun _ => trivial⟩)) fun _ _ => ?_
  refine stays_bind (stays_executeQuery hquery) fun rows hrows => ?_
  split
  · rename_i pv rows
    have hdigits := digits_wrapInt32_le (pv + 1)
    have hset : InBounds false (.update (.setShareFilePv md5 filename (wrapInt32 (pv + 1)))) := by
      refine inBounds_update ?_
      simp [textLength, Update.templateLengths, Update.formats, Format.printed]
      omega
    refine stays_bind (stays_executeUpdate hset) fun _ _ => ?_
    refine stays_ite (fun _ => ?_) fun _ => ?_
    · exact hend .commit (uses_onConn ⟨trivial, fun _ => trivial⟩) _
    · exact hend .rollback (uses_onConn ⟨trivial, fun _ => trivial⟩) _
  · exact hend .rollback (uses_onConn ⟨trivial, fun _ => trivial⟩) _

theorem stays_incrShareScore (ptr : Ptr) (pv : Int) :
    Stays false limits (incrShareScore ptr md5 filename pv) fun _ => True := by
  have hfileid : md5.length + filename.length < 1024 := by omega
  refine stays_bind (stays_of_uses (uses_zsetExist (inBounds_redis rfl hfileid))) fun _ _ => ?_
  refine stays_ite (fun _ => stays_of_uses (uses_zsetIncr (inBounds_redis rfl hfileid))) fun _ => ?_
  refine stays_ite (fun _ => ?_) fun _ => stays_ret trivial
  exact stays_addRecords hfileid (stays_ret trivial)

end Pv

theorem handlePvFile_iff : StaysFrom false limits unlinked (handlePvFile md5 filename) ↔
    md5.length + filename.length ≤ 434 := by
  constructor
  · intro h
    have hrows : ∀ row ∈ [(-2147483648 : Int)], IsInt32 row :=
      List.forall_mem_singleton.mpr (by decide)
    have hconn := (h.2 .conn _ ⟨trivial, rfl⟩).2 .conn _ ⟨trivial, rfl⟩
    have hquery := (hconn.2 true _ ⟨trivial, rfl⟩).2 (some [-2147483648]) _ ⟨hrows, rfl⟩
    have hlength := (formats_fit_iff _).mp hquery.1
    have hdigits : digits (wrapInt32 (-2147483648 + 1)) = 11 := by decide
    simp only [textLength, Update.templateLengths, Update.formats, Format.printed, List.map_cons,
      List.map_nil, size_int, size_str, hdigits] at hlength
    simp at hlength
    omega
  · intro h
    refine stays_withDBConn (R := fun _ => True) (fun dbConn => ?_) unlinked
    refine stays_withCacheConn fun cacheConn => ?_
    refine stays_bind (stays_incrSharePv h dbConn) fun pv _ => ?_
    cases pv with
    | none => exact stays_ret trivial
    | some pv => exact stays_bind (stays_incrShareScore h cacheConn pv) fun _ _ => stays_ret trivial

/-! ## Instant uploads -/

theorem stays_addReference (h : md5.length ≤ 456) (ptr : Ptr) :
    Stays true limits (addReference ptr user md5 filename) fun _ => True := by
  refine stays_bind (stays_getResultOneCount (inBounds_fileCount h)) fun (ret, count) _ => ?_
  have hset : InBounds true (.update (.setFileCount md5 (wrapInt32 (count + 1)))) :=
    inBounds_setFileCount h (digits_wrapInt32_le _)
  refine stays_ite (fun _ => ?_) fun _ => stays_ret trivial
  refine stays_bind (stays_executeUpdate hset) fun _ _ => ?_
  refine stays_ite (fun _ => ?_) fun _ => stays_ret trivial
  -- the row itself is cut where it is too long
  exact stays_bind stays_currentTime fun _ _ => stays_executeCreate (Or.inl rfl)

/-- The query for the user's row. -/
theorem handleDealMd5_iff : StaysFrom true limits unlinked (handleDealMd5 user md5 filename) ↔
    user.length + md5.length + filename.length ≤ 424 := by
  constructor
  · intro h
    have hquery : InBounds true (.query (.userFile user md5 filename true)) :=
      ((h.2 .conn _ ⟨trivial, rfl⟩).2 true _ ⟨trivial, rfl⟩).1
    have hlength := length_of_query hquery trivial
    simp [Query.templateLength, Query.format, Format.printed] at hlength
    omega
  · intro h
    have hrecord : InBounds true (.query (.userFile user md5 filename true)) :=
      inBounds_userFile h
    refine stays_withDBConn (R := fun _ => True) (fun ptr => ?_) unlinked
    have hend : ∀ c, InBounds true c → ∀ code : Int,
        Stays true limits (onConn ptr (issue c) >>= fun _ => .ret code) fun _ => True :=
      fun c hc code => stays_of_uses (uses_bind (uses_onConn ((uses_issue ..).mpr hc))
        fun _ => trivial)
    refine stays_bind (stays_of_uses (uses_onConn ⟨trivial, fun _ => trivial⟩)) fun _ _ => ?_
    refine stays_bind (stays_checkwhetherHaveRecord hrecord) fun _ _ => ?_
    refine stays_ite (fun _ => hend .commit trivial md5FileExit) fun _ => ?_
    refine stays_bind (stays_addReference (by omega) ptr) fun _ _ => ?_
    refine stays_ite (fun _ => hend .commit trivial md5Ok) fun _ => ?_
    exact hend .rollback trivial md5Failed

/-! ## Shared pictures -/

theorem handleSharePicture_iff :
    StaysFrom false limits unlinked (handleSharePicture user md5 filename) ↔
      user.length + md5.length + filename.length ≤ 330 := by
  have hlength : ∀ id time : CString, id.length = 36 → time.length = 19 →
      textLength (.insertSharePicture ⟨user, md5, filename, id, CString.empty, 0, time⟩) =
        181 + user.length + md5.length + filename.length := by
    intro id time hid htime
    have hempty : CString.empty.length = 0 := rfl
    simp [textLength, Update.templateLengths, Update.formats, Format.printed, digits_zero, hid,
      htime, hempty]
    omega
  constructor
  · intro h
    have htime := (h.2 .conn _ ⟨trivial, rfl⟩).2 (zeros 36) _ ⟨length_zeros 36, rfl⟩
    have hinsert := (htime.2 (zeros 19) _ ⟨length_zeros 19, rfl⟩).1
    have hfits := (formats_fit_iff _).mp hinsert
    rw [hlength _ _ (length_zeros 36) (length_zeros 19)] at hfits
    omega
  · intro h
    refine stays_withDBConn (R := fun _ => True) (fun ptr => ?_) unlinked
    refine stays_bind (stays_issue (c := .sys .spawnUUID) (R := fun id : CString => id.length = 36)
      trivial fun _ _ hid => hid) fun id hid => ?_
    refine stays_bind stays_currentTime fun time htime => ?_
    have hinsert : InBounds false (.update
        (.insertSharePicture ⟨user, md5, filename, id, CString.empty, 0, time⟩)) :=
      inBounds_update (by rw [hlength id time hid htime]; omega)
    exact stays_bind (stays_executeCreate hinsert) fun _ _ => stays_ret trivial

/-- The first query, and the one for the URL of the file that it names. -/
theorem handleBrowsePicture_iff {shareId : CString} :
    StaysFrom false limits unlinked (handleBrowsePicture shareId) ↔
      shareId.length ≤ 419 ∧ limits.filemd5 ≤ 472 := by
  constructor
  · intro h
    have hquery : InBounds false (.query (.sharePicture shareId)) :=
      (h.2 .conn _ ⟨trivial, rfl⟩).1
    have hlength := length_of_query hquery trivial
    simp [Query.templateLength, Query.format, Format.printed] at hlength
    have hrows : ∀ row ∈ [SharePicture.mk CString.empty (zeros limits.filemd5) CString.empty
        shareId CString.empty 0 CString.empty], UsualRow limits (.sharePicture shareId) row :=
      List.forall_mem_singleton.mpr ⟨(by decide : IsInt32 0), (length_zeros limits.filemd5).le⟩
    -- the row names the longest md5 that is stored
    have hurl : InBounds false (.query (.fileUrl _)) :=
      ((h.2 .conn _ ⟨trivial, rfl⟩).2 (some _) _ ⟨hrows, rfl⟩).1
    have hurlLength := length_of_query hurl trivial
    simp [Query.templateLength, Query.format, Format.printed, length_zeros] at hurlLength
    omega
  · rintro ⟨hid, hfilemd5⟩
    have hquery : InBounds false (.query (.sharePicture shareId)) := by
      refine inBounds_query ?_
      simp [Query.templateLength, Query.format, Format.printed]
      omega
    refine stays_withDBConn (R := fun _ => True) (fun ptr => ?_) unlinked
    refine stays_bind (stays_executeQuery hquery) fun rows hrows => ?_
    split
    · rename_i share rows
      obtain ⟨_, hmd5⟩ := hrows share List.mem_cons_self
      have hurl : InBounds false (.query (.fileUrl share.filemd5)) := by
        refine inBounds_query ?_
        simp [Query.templateLength, Query.format, Format.printed]
        omega
      refine stays_bind (stays_executeQuery hurl) fun urls _ => ?_
      split
      · have hdigits := digits_wrapInt32_le (share.pv + 1)
        have hset :
            InBounds false (.update (.setSharePicturePv shareId (wrapInt32 (share.pv + 1)))) := by
          refine inBounds_update ?_
          simp [textLength, Update.templateLengths, Update.formats, Format.printed]
          omega
        exact stays_bind (stays_executeUpdate hset) fun _ _ => stays_ret trivial
      · exact stays_ret trivial
    · exact stays_ret trivial

theorem stays_getSharePicturesCount (ptr : Ptr) :
    Stays false limits (getSharePicturesCount ptr user) fun _ => True :=
  stays_bind (stays_executeQuery nofun) fun _ _ => stays_ret trivial

/-- The page is asked for when the count is not 0. -/
theorem handleGetSharePicturesList_iff {start count : Int} :
    StaysFrom false limits unlinked (handleGetSharePicturesList user start count) ↔
      user.length + digits start + digits count ≤ 181 := by
  constructor
  · intro h
    have hcount := (h.2 .conn _ ⟨trivial, rfl⟩).2 (some [1]) _ ⟨fun _ _ => trivial, rfl⟩
    have hquery : InBounds false (.query (.sharePictureListPage user start count)) := hcount.1
    have hlength := length_of_query hquery trivial
    simp [Query.templateLength, Query.format, Format.printed] at hlength
    omega
  · intro h
    have hquery : InBounds false (.query (.sharePictureListPage user start count)) := by
      refine inBounds_query ?_
      simp [Query.templateLength, Query.format, Format.printed]
      omega
    refine stays_withDBConn (R := fun _ => True) (fun ptr => ?_) unlinked
    refine stays_bind (stays_getSharePicturesCount ptr) fun _ _ => ?_
    refine stays_ite (fun _ => stays_ret trivial) fun _ => ?_
    refine stays_ite (fun _ => stays_ret trivial) fun _ => ?_
    refine stays_bind (stays_executeQuery hquery) fun rows _ => ?_
    split <;> exact stays_ret trivial

theorem handleCancelSharePicture_iff {shareId : CString} :
    StaysFrom false limits unlinked (handleCancelSharePicture user shareId) ↔
      user.length + shareId.length ≤ 447 := by
  constructor
  · intro h
    have hlength := (formats_fit_iff _).mp (h.2 .conn _ ⟨trivial, rfl⟩).1
    simp [textLength, Update.templateLengths, Update.formats, Format.printed] at hlength
    omega
  · intro h
    have hdrop : InBounds false (.update (.deleteSharePicture user shareId)) := by
      refine inBounds_update ?_
      simp [textLength, Update.templateLengths, Update.formats, Format.printed]
      omega
    refine stays_withDBConn (R := fun _ => True) (fun ptr => ?_) unlinked
    exact stays_bind (stays_executeCreate hdrop) fun _ _ => stays_ret trivial

end Api
end TcMuzi
