import TcMuzi.Api.DealSharefile
import TcMuzi.Api.Myfiles
import TcMuzi.Api.Sequential
import TcMuzi.Api.SharePicture
import TcMuzi.Api.Account
import TcMuzi.Api.Upload
import TcMuzi.Redis.Strings

/-!
# What the bodies of the handlers use

Between taking its connections and giving them back, a handler issues SQL statements and
system calls and works on a few keys of Redis.  Each lemma says so for an arbitrary
predicate on commands that allows these.
-/

namespace TcMuzi
namespace Api

open Base Server Redis Lib

/-- SQL statements outside a transaction, and system calls. -/
def IsLocal : Server.Command → Prop
  | .query _ => True
  | .update _ => True
  | .prepare => True
  | .execute _ => True
  | .sys _ => True
  | _ => False

/-- SQL statements outside a transaction, and the time they write down. -/
def IsStatement : Server.Command → Prop
  | .sys .currentTime => True
  | .sys _ => False
  | c => IsLocal c

/-- The keys of the counters. -/
def CounterKey (user key : CString) : Prop :=
  key = filePublicCount ∨ key = fileUserCount ++ user

/-- What the handlers of a user's files do in Redis. -/
def FileCommand (user : CString) (c : Redis.Command) : Prop :=
  (IsZset c ∧ c.key = filePublicZset) ∨ (IsHash c ∧ c.key = fileNameHash) ∨ CounterKey user c.key

variable {P : Server.Command → Prop} {user : CString} {α : Type}

/-! ## Connections and requests -/

theorem uses_withDBConn {pool : DBInstance} {body : Ptr → Handler α} (hget : P (.getDBConn pool))
    (hrel : P (.relDBConn pool)) (hbody : ∀ ptr, Uses P (body ptr)) :
    Uses P (withDBConn pool body) := by
  refine uses_bind ((uses_issue ..).mpr hget) fun ptr => uses_bind (hbody ptr) fun a => ?_
  cases ptr with
  | null => trivial
  | conn => exact uses_bind ((uses_issue ..).mpr hrel) fun _ => trivial

theorem uses_withCacheConn {body : Ptr → Handler α} (hget : P .getCacheConn)
    (hrel : P .relCacheConn) (hbody : ∀ ptr, Uses P (body ptr)) :
    Uses P (withCacheConn body) := by
  refine uses_bind ((uses_issue ..).mpr hget) fun ptr => uses_bind (hbody ptr) fun a => ?_
  cases ptr with
  | null => trivial
  | conn => exact uses_bind ((uses_issue ..).mpr hrel) fun _ => trivial

/-- Reading the members of a request issues no command. -/
theorem uses_orThrow (o : Option α) : Uses P (orThrow o) := by
  cases o <;> trivial

theorem uses_extractField (root : Json) (field : String) : Uses P (extractField root field) := by
  refine uses_bind (uses_orThrow _) fun value => uses_ite trivial ?_
  exact uses_bind (uses_orThrow _) fun _ => trivial

theorem uses_extractFieldAsInt (root : Json) (field : String) :
    Uses P (extractFieldAsInt root field) := by
  refine uses_bind (uses_orThrow _) fun value => uses_ite trivial ?_
  exact uses_bind (uses_orThrow _) fun _ => trivial

/-- A missing member ends the reading with another value. -/
theorem uses_field_or {β : Type} {root : Json} {field : String} {other : Handler β}
    {k : CString → Handler β} (hother : Uses P other) (hk : ∀ value, Uses P (k value)) :
    Uses P (extractField root field >>= fun
      | some value => k value
      | _ => other) := by
  refine uses_bind (uses_extractField root field) fun value => ?_
  cases value with
  | none => exact hother
  | some value => exact hk value

theorem uses_fieldAsInt_or {β : Type} {root : Json} {field : String} {other : Handler β}
    {k : Int → Handler β} (hother : Uses P other) (hk : ∀ value, Uses P (k value)) :
    Uses P (extractFieldAsInt root field >>= fun
      | some value => k value
      | _ => other) := by
  refine uses_bind (uses_extractFieldAsInt root field) fun value => ?_
  cases value with
  | none => exact hother
  | some value => exact hk value

theorem uses_decodeMd5Json (reader : JsonReader) (postData : List UInt8) :
    Uses P (decodeMd5Json reader postData) := by
  unfold decodeMd5Json
  split
  · refine uses_field_or trivial fun _ => uses_field_or trivial fun _ => ?_
    exact uses_field_or trivial fun _ => uses_field_or trivial fun _ => trivial
  · trivial

theorem uses_decodeDealsharefileJson (reader : JsonReader) (postData : List UInt8) :
    Uses P (decodeDealsharefileJson reader postData) := by
  unfold decodeDealsharefileJson
  split
  · refine uses_field_or trivial fun _ => uses_field_or trivial fun _ => ?_
    exact uses_field_or trivial fun _ => trivial
  · trivial

theorem uses_decodeLoginJson (reader : JsonReader) (postData : List UInt8) :
    Uses P (decodeLoginJson reader postData) := by
  unfold decodeLoginJson
  split
  · exact uses_field_or trivial fun _ => uses_field_or trivial fun _ => trivial
  · trivial

theorem uses_extractOptional (root : Json) (field : String) :
    Uses P (extractOptional root field) :=
  uses_bind (uses_extractField root field) fun _ => trivial

theorem uses_decodeRegisterJson (reader : JsonReader) (postData : List UInt8) :
    Uses P (decodeRegisterJson reader postData) := by
  unfold decodeRegisterJson
  split
  · refine uses_field_or trivial fun _ => uses_field_or trivial fun _ => ?_
    refine uses_field_or trivial fun _ => uses_bind (uses_extractOptional ..) fun _ => ?_
    exact uses_bind (uses_extractOptional ..) fun _ => trivial
  · trivial

theorem uses_decodeCountJson (reader : JsonReader) (postData : List UInt8) :
    Uses P (decodeCountJson reader postData) := by
  unfold decodeCountJson
  split
  · exact uses_field_or trivial fun _ => uses_field_or trivial fun _ => trivial
  · trivial

theorem uses_decodeFileslistJson (reader : JsonReader) (postData : List UInt8) :
    Uses P (decodeFileslistJson reader postData) := by
  unfold decodeFileslistJson
  split
  · refine uses_field_or trivial fun _ => uses_field_or trivial fun _ => ?_
    exact uses_fieldAsInt_or trivial fun _ => uses_fieldAsInt_or trivial fun _ => trivial
  · trivial

/-! ## SQL statements -/

/-- Whoever allows the system calls too allows the statements. -/
theorem sql (hlocal : ∀ c, IsLocal c → P c) (c : Server.Command) (hc : IsStatement c) : P c := by
  refine hlocal c ?_
  unfold IsStatement at hc
  split at hc
  · trivial
  · exact hc.elim
  · exact hc

section Statements

variable (hsql : ∀ c, IsStatement c → P c)

include hsql

theorem uses_currentTime : Uses P currentTime :=
  (uses_issue ..).mpr (hsql _ trivial)

theorem uses_executeQuery (ptr : Ptr) (q : Mysql.Query) : Uses P (executeQuery ptr q) :=
  uses_onConn ((uses_issue ..).mpr (hsql _ trivial))

theorem uses_executeUpdate (ptr : Ptr) (u : Mysql.Update) (careAffectedRows : Bool) :
    Uses P (executeUpdate ptr u careAffectedRows) := by
  refine uses_onConn (uses_bind ((uses_issue ..).mpr (hsql _ trivial)) fun affected => ?_)
  cases affected <;> trivial

theorem uses_executeCreate (ptr : Ptr) (u : Mysql.Update) : Uses P (executeCreate ptr u) :=
  uses_onConn (uses_bind ((uses_issue ..).mpr (hsql _ trivial)) fun _ => trivial)

theorem uses_executeDrop (ptr : Ptr) (u : Mysql.Update) : Uses P (executeDrop ptr u) :=
  uses_executeCreate hsql ptr u

theorem uses_checkwhetherHaveRecord (ptr : Ptr) (q : Mysql.Query) :
    Uses P (checkwhetherHaveRecord ptr q) := by
  refine uses_bind (uses_executeQuery hsql ptr q) fun resultSet => ?_
  split <;> trivial

theorem uses_getResultOneCount (ptr : Ptr) (md5 : CString) (forUpdate : Bool) (count : Int) :
    Uses P (getResultOneCount ptr md5 forUpdate count) := by
  refine uses_bind (uses_executeQuery hsql ptr _) fun resultSet => ?_
  split <;> trivial

theorem uses_getResultOneStatus (ptr : Ptr) (user md5 filename : CString) (status : Int) :
    Uses P (getResultOneStatus ptr user md5 filename status) := by
  refine uses_bind (uses_executeQuery hsql ptr _) fun resultSet => ?_
  split <;> trivial

theorem uses_saveReference (ptr : Ptr) (user md5 filename : CString) :
    Uses P (saveReference ptr user md5 filename) := by
  refine uses_bind (uses_getResultOneCount hsql ptr md5 false 0) fun (ret, count) => ?_
  refine uses_ite trivial (uses_bind (uses_executeUpdate hsql ptr _ _) fun _ => ?_)
  refine uses_ite (uses_bind (uses_currentTime hsql) fun _ => ?_) trivial
  exact uses_bind (uses_executeCreate hsql ptr _) fun _ => trivial

theorem uses_addReference (ptr : Ptr) (user md5 filename : CString) :
    Uses P (addReference ptr user md5 filename) := by
  refine uses_bind (uses_getResultOneCount hsql ptr md5 true 0) fun (ret, count) => ?_
  refine uses_ite (uses_bind (uses_executeUpdate hsql ptr _ _) fun _ => ?_) trivial
  refine uses_ite (uses_bind (uses_currentTime hsql) fun _ => ?_) trivial
  exact uses_executeCreate hsql ptr _

theorem uses_dbGetUserFilesCountByUsername (ptr : Ptr) (user : CString) :
    Uses P (dbGetUserFilesCountByUsername ptr user) :=
  uses_bind (uses_executeQuery hsql ptr _) fun _ => trivial

theorem uses_getUserFilesCount (ptr : Ptr) (user : CString) :
    Uses P (getUserFilesCount ptr user) :=
  uses_bind (uses_dbGetUserFilesCountByUsername hsql ptr user) fun (_, _) => trivial

theorem uses_dbGetShareFilesCount (ptr : Ptr) : Uses P (dbGetShareFilesCount ptr) :=
  uses_bind (uses_executeQuery hsql ptr _) fun _ => trivial

theorem uses_getSharePicturesCount (ptr : Ptr) (user : CString) :
    Uses P (getSharePicturesCount ptr user) :=
  uses_bind (uses_executeQuery hsql ptr _) fun _ => trivial

theorem uses_storeFileinfo (ptr : Ptr) (user filename md5 : CString) (size : Int)
    (fileid url : CString) : Uses P (storeFileinfo ptr user filename md5 size fileid url) := by
  refine uses_bind (uses_executeCreate hsql ptr _) fun _ => uses_ite ?_ trivial
  refine uses_bind (uses_currentTime hsql) fun _ => ?_
  exact uses_bind (uses_executeCreate hsql ptr _) fun _ => trivial

/-- A transaction uses its three commands besides. -/
theorem uses_dealMd5Transaction (htxn : P .startTransaction ∧ P .commit ∧ P .rollback) (ptr : Ptr)
    (user md5 filename : CString) : Uses P (dealMd5Transaction ptr user md5 filename) := by
  obtain ⟨hstart, hcommit, hrollback⟩ := htxn
  refine uses_bind (uses_onConn ((uses_issue ..).mpr hstart)) fun _ => ?_
  refine uses_bind (uses_checkwhetherHaveRecord hsql ptr _) fun _ => uses_ite ?_ ?_
  · exact uses_bind (uses_onConn ((uses_issue ..).mpr hcommit)) fun _ => trivial
  · refine uses_bind (uses_addReference hsql ptr user md5 filename) fun _ => uses_ite ?_ ?_
    · exact uses_bind (uses_onConn ((uses_issue ..).mpr hcommit)) fun _ => trivial
    · exact uses_bind (uses_onConn ((uses_issue ..).mpr hrollback)) fun _ => trivial

theorem uses_incrSharePv (htxn : P .startTransaction ∧ P .commit ∧ P .rollback) (ptr : Ptr)
    (md5 filename : CString) : Uses P (incrSharePv ptr md5 filename) := by
  obtain ⟨hstart, hcommit, hrollback⟩ := htxn
  refine uses_bind (uses_onConn ((uses_issue ..).mpr hstart)) fun _ => ?_
  refine uses_bind (uses_executeQuery hsql ptr _) fun _ => ?_
  split
  · refine uses_bind (uses_executeUpdate hsql ptr _ _) fun _ => uses_ite ?_ ?_
    · exact uses_bind (uses_onConn ((uses_issue ..).mpr hcommit)) fun _ => trivial
    · exact uses_bind (uses_onConn ((uses_issue ..).mpr hrollback)) fun _ => trivial
  · exact uses_bind (uses_onConn ((uses_issue ..).mpr hrollback)) fun _ => trivial

end Statements

/-! ## System calls -/

section Local

variable (hlocal : ∀ c, IsLocal c → P c)

include hlocal

theorem uses_parseCmd (url : List UInt8) : Uses P (parseCmd url) := by
  unfold parseCmd
  split
  · trivial
  · exact (uses_issue ..).mpr (hlocal _ trivial)

theorem uses_removeFile (ptr : Ptr) (md5 : CString) : Uses P (removeFile ptr md5) := by
  refine uses_bind (uses_executeQuery (sql hlocal) ptr _) fun resultSet => ?_
  split
  · trivial
  · refine uses_bind (uses_executeDrop (sql hlocal) ptr _) fun _ => ?_
    exact uses_bind ((uses_issue ..).mpr (hlocal _ trivial)) fun _ => trivial

theorem uses_releaseFile (ptr : Ptr) (md5 : CString) : Uses P (releaseFile ptr md5) := by
  refine uses_bind (uses_getResultOneCount (sql hlocal) ptr md5 false 0) fun (ret, count) => ?_
  refine uses_ite trivial (uses_ite ?_ (uses_ite (uses_removeFile hlocal ptr md5) trivial))
  refine uses_bind (uses_executeUpdate (sql hlocal) ptr _ _) fun _ => uses_ite ?_ trivial
  exact uses_ite (uses_removeFile hlocal ptr md5) trivial

theorem uses_runTool (cfg : UploadConfig) (tool : String) (arg : CString) :
    Uses P (runTool cfg tool arg) := by
  refine uses_bind ((uses_issue ..).mpr (hlocal _ trivial)) fun _ => uses_ite trivial ?_
  refine uses_bind ((uses_issue ..).mpr (hlocal _ trivial)) fun forked => ?_
  cases forked with
  | error => trivial
  | child => exact uses_bind ((uses_issue ..).mpr (hlocal _ trivial)) fun _ => trivial
  | parent => exact uses_bind ((uses_issue ..).mpr (hlocal _ trivial)) fun _ => trivial

theorem uses_uploadFileToFastDfs (cfg : UploadConfig) (filePath : CString) :
    Uses P (uploadFileToFastDfs cfg filePath) := by
  refine uses_bind (uses_runTool hlocal cfg _ _) fun out => ?_
  split
  · split <;> trivial
  · trivial

theorem uses_getFullurlByFileid (cfg : UploadConfig) (fileid : CString) :
    Uses P (getFullurlByFileid cfg fileid) := by
  refine uses_bind (uses_runTool hlocal cfg _ _) fun out => ?_
  split
  · split
    · exact uses_bind (uses_orThrow _) fun _ => uses_bind (uses_orThrow _) fun _ => trivial
    · trivial
  · trivial

theorem uses_shortUrlOf (cfg : UploadConfig) (url : CString) : Uses P (shortUrlOf cfg url) := by
  refine uses_ite ?_ trivial
  exact uses_bind ((uses_issue ..).mpr (hlocal _ trivial)) fun _ => trivial

theorem uses_uploadMsg (cfg : UploadConfig) (ptr : Ptr) (parts : List Part) (size : Int) :
    Uses P (uploadMsg cfg ptr parts size) := by
  refine uses_bind ((uses_issue ..).mpr (hlocal _ trivial)) fun _ => uses_ite trivial ?_
  refine uses_bind (uses_uploadFileToFastDfs hlocal cfg _) fun (_, fileid) => ?_
  refine uses_bind ((uses_issue ..).mpr (hlocal _ trivial)) fun _ => uses_ite trivial ?_
  refine uses_bind (uses_getFullurlByFileid hlocal cfg fileid) fun (_, url) => ?_
  refine uses_ite trivial (uses_bind (uses_shortUrlOf hlocal cfg url) fun _ => ?_)
  exact uses_bind (uses_storeFileinfo (sql hlocal) ..) fun _ => trivial

end Local

/-! ## The records of the shared files -/

section Records

variable (hredis : ∀ c, FileCommand user c → P (.redis c))

include hredis

theorem uses_publicCount (c : Redis.Command) (hc : c.key = filePublicCount) : P (.redis c) :=
  hredis c (Or.inr (Or.inr (Or.inl hc)))

theorem uses_userCount (c : Redis.Command) (hc : c.key = fileUserCount ++ user) : P (.redis c) :=
  hredis c (Or.inr (Or.inr (Or.inr hc)))

theorem uses_removeShareRecords (ptr : Ptr) (md5 filename : CString) :
    Uses P (removeShareRecords ptr md5 filename) := by
  refine uses_bind (uses_zsetWrite (hredis _ (Or.inl ⟨trivial, rfl⟩))) fun _ => uses_ite trivial ?_
  exact uses_replyInteger (hredis _ (Or.inr (Or.inl ⟨trivial, rfl⟩)))

/-- Both records of a file are written. -/
theorem uses_addRecords {ptr : Ptr} {score : Int} {fileid filename : CString} {k : Handler α}
    (hk : Uses P k) :
    Uses P (CacheConn.zsetAdd ptr filePublicZset score fileid >>= fun _ =>
      CacheConn.hset ptr fileNameHash fileid filename >>= fun _ => k) := by
  refine uses_bind (uses_zsetWrite (hredis _ (Or.inl ⟨trivial, rfl⟩))) fun _ => ?_
  exact uses_bind (uses_replyInteger (hredis _ (Or.inr (Or.inl ⟨trivial, rfl⟩)))) fun _ => hk

theorem uses_incrShareScore (ptr : Ptr) (md5 filename : CString) (pv : Int) :
    Uses P (incrShareScore ptr md5 filename pv) := by
  refine uses_bind (uses_zsetExist (hredis _ (Or.inl ⟨trivial, rfl⟩))) fun _ => uses_ite ?_ ?_
  · exact uses_zsetIncr (hredis _ (Or.inl ⟨trivial, rfl⟩))
  · exact uses_ite (uses_addRecords hredis trivial) trivial

theorem uses_shareExist (ptr : Ptr) (md5 filename : CString) :
    Uses P (shareExist ptr md5 filename) := by
  cases ptr with
  | null => trivial
  | conn => exact uses_zsetExist (hredis _ (Or.inl ⟨trivial, rfl⟩))

theorem uses_rankingFiles (ptr : Ptr) (values : List CString) :
    Uses P (rankingFiles ptr values) := by
  induction values with
  | nil => trivial
  | cons value values ih =>
      refine uses_bind (uses_hget (hredis _ (Or.inr (Or.inl ⟨trivial, rfl⟩)))) fun filename => ?_
      cases filename with
      | none => trivial
      | some filename =>
          refine uses_bind (uses_zsetGetScore (hredis _ (Or.inl ⟨trivial, rfl⟩))) fun score => ?_
          refine uses_ite trivial (uses_bind ih fun files => ?_)
          cases files <;> trivial

variable (hsql : ∀ c, IsStatement c → P c)

include hsql

theorem uses_storeShare (ptr cacheConn : Ptr) (owner md5 filename : CString) :
    Uses P (storeShare ptr cacheConn owner md5 filename) := by
  refine uses_bind (uses_executeUpdate hsql ptr _ _) fun _ => uses_ite ?_ trivial
  refine uses_bind (uses_currentTime hsql) fun _ => ?_
  refine uses_bind (uses_executeCreate hsql ptr _) fun _ => uses_ite ?_ trivial
  refine uses_bind (uses_cacheIncrCount (uses_publicCount hredis)) fun _ => ?_
  exact uses_ite trivial (uses_addRecords hredis trivial)

theorem uses_shareIfNew (ptr cacheConn : Ptr) (owner md5 filename : CString) :
    Uses P (shareIfNew ptr cacheConn owner md5 filename) := by
  refine uses_bind (uses_checkwhetherHaveRecord hsql ptr _) fun _ => uses_ite ?_ ?_
  · exact uses_addRecords hredis trivial
  · exact uses_storeShare hredis hsql ptr cacheConn owner md5 filename

theorem uses_sharedState (ptr cacheConn : Ptr) (owner md5 filename : CString) :
    Uses P (sharedState ptr cacheConn owner md5 filename) := by
  refine uses_bind (uses_zsetExist (hredis _ (Or.inl ⟨trivial, rfl⟩))) fun _ => uses_ite trivial ?_
  refine uses_ite (uses_bind (uses_getResultOneStatus hsql ..) fun (_, _) => trivial) trivial

theorem uses_removeIfShared (ptr cacheConn : Ptr) (owner md5 filename : CString) (isShared : Int)
    (redisHasRecord : Bool) :
    Uses P (removeIfShared ptr cacheConn owner md5 filename isShared redisHasRecord) := by
  refine uses_ite (uses_bind (uses_executeDrop hsql ptr _) fun _ => uses_ite ?_ trivial) trivial
  refine uses_bind (uses_cacheDecrCount (uses_publicCount hredis)) fun _ => ?_
  refine uses_ite trivial (uses_ite ?_ trivial)
  refine uses_bind (uses_zsetWrite (hredis _ (Or.inl ⟨trivial, rfl⟩))) fun _ => ?_
  exact uses_bind (uses_replyInteger (hredis _ (Or.inr (Or.inl ⟨trivial, rfl⟩)))) fun _ => trivial

theorem uses_removeUserFile (ptr cacheConn : Ptr) (md5 filename : CString) :
    Uses P (removeUserFile ptr cacheConn user md5 filename) := by
  refine uses_bind (uses_cacheDecrCount (uses_userCount hredis)) fun _ => ?_
  exact uses_ite trivial (uses_bind (uses_executeDrop hsql ptr _) fun _ => trivial)

theorem uses_getShareFilesCount (ptr cacheConn : Ptr) :
    Uses P (getShareFilesCount ptr cacheConn) := by
  have hcount := uses_publicCount hredis
  refine uses_bind (uses_cacheGetCount hcount) fun (_, _) => uses_ite ?_ trivial
  refine uses_bind (uses_dbGetShareFilesCount hsql ptr) fun (_, _) => uses_ite trivial ?_
  exact uses_bind (uses_cacheSetCount hcount) fun _ => trivial

end Records

/-! ## How the handlers nest their connections -/

/-- A handler that takes one MySQL connection. -/
def OnDB (P : Server.Command → Prop) (pool : DBInstance) (p : Handler α) : Prop :=
  ∃ body, p = withDBConn pool body ∧ ∀ dbConn, Uses P (body dbConn)

/-- A handler that takes one Redis connection. -/
def OnCache (P : Server.Command → Prop) (p : Handler α) : Prop :=
  ∃ body, p = withCacheConn body ∧ ∀ cacheConn, Uses P (body cacheConn)

/-- A handler that takes a slave connection of MySQL and then one of Redis. -/
def OnSlaveAndCache (P : Server.Command → Prop) (p : Handler α) : Prop :=
  ∃ body : Ptr → Ptr → Handler α,
    (p = withDBConn .tuchuangSlave fun dbConn => withCacheConn fun cacheConn =>
      body dbConn cacheConn) ∧ ∀ dbConn cacheConn, Uses P (body dbConn cacheConn)

theorem onCache_verifyToken (token : CString) (hget : P (.redis (.get user))) :
    OnCache P (verifyToken user token) := by
  refine ⟨_, rfl, fun cacheConn => ?_⟩
  cases cacheConn with
  | null => trivial
  | conn => exact uses_bind (uses_get hget) fun _ => trivial

theorem onCache_setToken (hlocal : ∀ c, IsLocal c → P c)
    (hset : ∀ token, P (.redis (.setex user tokenTimeout token))) : OnCache P (setToken user) := by
  refine ⟨_, rfl, fun cacheConn => ?_⟩
  refine uses_bind ((uses_issue ..).mpr (hlocal _ trivial)) fun token => ?_
  cases cacheConn with
  | null => trivial
  | conn => exact uses_bind (uses_replyText (hset token)) fun _ => trivial

theorem onDB_handleDealMd5 (hsql : ∀ c, IsStatement c → P c)
    (htxn : P .startTransaction ∧ P .commit ∧ P .rollback)
    (user md5 filename : CString) :
    OnDB P .tuchuangMaster (handleDealMd5 user md5 filename) :=
  ⟨_, rfl, fun ptr => uses_dealMd5Transaction hsql htxn ptr user md5 filename⟩

theorem onSlaveAndCache_handleSaveFile (hsql : ∀ c, IsStatement c → P c)
    (hredis : ∀ c, FileCommand user c → P (.redis c)) (md5 filename : CString) :
    OnSlaveAndCache P (handleSaveFile user md5 filename) := by
  refine ⟨_, rfl, fun ptr cacheConn => ?_⟩
  refine uses_bind (uses_checkwhetherHaveRecord hsql ptr _) fun _ => uses_ite trivial ?_
  refine uses_ite trivial (uses_bind (uses_saveReference hsql ptr user md5 filename) fun _ => ?_)
  refine uses_ite trivial (uses_bind ?_ fun _ => trivial)
  exact uses_cacheIncrCount (uses_userCount hredis)

section Handlers

variable (hlocal : ∀ c, IsLocal c → P c)

include hlocal

theorem onDB_registerUser (msg : RegisterMsg) : OnDB P .tuchuangMaster (registerUser msg) := by
  refine ⟨_, rfl, fun ptr => uses_bind (uses_executeQuery (sql hlocal) ptr _) fun resultSet => ?_⟩
  split
  · trivial
  · refine uses_bind (uses_currentTime (sql hlocal)) fun _ => ?_
    refine uses_bind (uses_onConn ((uses_issue ..).mpr (hlocal _ trivial))) fun _ => ?_
    refine uses_ite (uses_bind (uses_onConn ((uses_issue ..).mpr (hlocal _ trivial))) ?_) trivial
    intro affectedRows
    split <;> trivial

theorem onDB_verifyUserPassword (userName pwd : CString) :
    OnDB P .tuchuangSlave (verifyUserPassword userName pwd) := by
  refine ⟨_, rfl, fun ptr => uses_bind (uses_executeQuery (sql hlocal) ptr _) fun resultSet => ?_⟩
  split <;> trivial

theorem onSlaveAndCache_handleUserFilesCount (userName : CString) :
    OnSlaveAndCache P (handleUserFilesCount userName) :=
  ⟨_, rfl, fun ptr _ => uses_getUserFilesCount (sql hlocal) ptr userName⟩

theorem onSlaveAndCache_getUserFileList (cmd userName : CString) (start count : Int) :
    OnSlaveAndCache P (getUserFileList cmd userName start count) := by
  refine ⟨_, rfl, fun ptr _ => uses_bind (uses_getUserFilesCount (sql hlocal) ptr userName) ?_⟩
  rintro ⟨ret, total⟩
  refine uses_ite trivial (uses_ite trivial (uses_ite ?_ trivial))
  refine uses_bind (uses_executeQuery (sql hlocal) ptr _) fun resultSet => ?_
  split <;> trivial

theorem onDB_handlePvUserFile (user md5 filename : CString) :
    OnDB P .tuchuangSlave (handlePvUserFile user md5 filename) := by
  refine ⟨_, rfl, fun ptr => uses_bind (uses_executeQuery (sql hlocal) ptr _) fun resultSet => ?_⟩
  split
  · exact uses_bind (uses_executeUpdate (sql hlocal) ptr _ _) fun _ => trivial
  · trivial

theorem onDB_handleSharePicture (user filemd5 fileName : CString) :
    OnDB P .tuchuangMaster (handleSharePicture user filemd5 fileName) := by
  refine ⟨_, rfl, fun ptr => uses_bind ((uses_issue ..).mpr (hlocal _ trivial)) fun _ => ?_⟩
  refine uses_bind (uses_currentTime (sql hlocal)) fun _ => ?_
  exact uses_bind (uses_executeCreate (sql hlocal) ptr _) fun _ => trivial

theorem onDB_handleBrowsePicture (shareId : CString) :
    OnDB P .tuchuangSlave (handleBrowsePicture shareId) := by
  refine ⟨_, rfl, fun ptr => uses_bind (uses_executeQuery (sql hlocal) ptr _) fun shares => ?_⟩
  split
  · refine uses_bind (uses_executeQuery (sql hlocal) ptr _) fun urls => ?_
    split
    · exact uses_bind (uses_executeUpdate (sql hlocal) ptr _ _) fun _ => trivial
    · trivial
  · trivial

theorem onDB_handleGetSharePicturesList (user : CString) (start count : Int) :
    OnDB P .tuchuangSlave (handleGetSharePicturesList user start count) := by
  refine ⟨_, rfl, fun ptr => uses_bind (uses_getSharePicturesCount (sql hlocal) ptr user) ?_⟩
  rintro ⟨ret, total⟩
  refine uses_ite trivial (uses_ite trivial ?_)
  refine uses_bind (uses_executeQuery (sql hlocal) ptr _) fun resultSet => ?_
  split <;> trivial

theorem onDB_handleCancelSharePicture (user shareId : CString) :
    OnDB P .tuchuangMaster (handleCancelSharePicture user shareId) :=
  ⟨_, rfl, fun ptr => uses_bind (uses_executeCreate (sql hlocal) ptr _) fun _ => trivial⟩

variable (hredis : ∀ c, FileCommand user c → P (.redis c))

include hredis

theorem onSlaveAndCache_handleShareFile (owner md5 filename : CString) :
    OnSlaveAndCache P (handleShareFile owner md5 filename) := by
  refine ⟨_, rfl, fun ptr cacheConn => ?_⟩
  refine uses_bind (uses_shareExist hredis cacheConn md5 filename) fun _ => uses_ite trivial ?_
  exact uses_ite (uses_shareIfNew hredis (sql hlocal) ptr cacheConn owner md5 filename) trivial

theorem onSlaveAndCache_handleDeleteFile (md5 filename : CString) :
    OnSlaveAndCache P (handleDeleteFile user md5 filename) := by
  refine ⟨_, rfl, fun ptr cacheConn => ?_⟩
  refine uses_bind (uses_sharedState hredis (sql hlocal) ..) fun shared => ?_
  cases shared with
  | none => trivial
  | some shared =>
      refine uses_bind (uses_removeIfShared hredis (sql hlocal) ..) fun _ => uses_ite trivial ?_
      refine uses_bind (uses_removeUserFile hredis (sql hlocal) ..) fun _ => uses_ite trivial ?_
      exact uses_bind (uses_releaseFile hlocal ptr md5) fun _ => trivial

theorem onSlaveAndCache_handleCancelShareFile (owner md5 filename : CString) :
    OnSlaveAndCache P (handleCancelShareFile owner md5 filename) := by
  refine ⟨_, rfl, fun ptr cacheConn => ?_⟩
  refine uses_bind (uses_executeUpdate (sql hlocal) ptr _ _) fun _ => uses_ite ?_ trivial
  refine uses_bind (uses_cacheDecrCount (uses_publicCount hredis)) fun _ => ?_
  refine uses_ite trivial (uses_bind (uses_executeDrop (sql hlocal) ptr _) fun _ => ?_)
  refine uses_ite ?_ trivial
  exact uses_bind (uses_removeShareRecords hredis cacheConn md5 filename) fun _ => trivial

theorem onSlaveAndCache_handlePvFile (htxn : P .startTransaction ∧ P .commit ∧ P .rollback)
    (md5 filename : CString) : OnSlaveAndCache P (handlePvFile md5 filename) := by
  refine ⟨_, rfl, fun ptr cacheConn => ?_⟩
  refine uses_bind (uses_incrSharePv (sql hlocal) htxn ptr md5 filename) fun pv => ?_
  cases pv with
  | none => trivial
  | some pv => exact uses_bind (uses_incrShareScore hredis cacheConn md5 filename pv) fun _ => trivial

theorem onSlaveAndCache_handleGetSharefilesCount : OnSlaveAndCache P handleGetSharefilesCount :=
  ⟨_, rfl, fun ptr cacheConn => uses_getShareFilesCount hredis (sql hlocal) ptr cacheConn⟩

theorem onSlaveAndCache_handleGetShareFilelist (start count : Int) :
    OnSlaveAndCache P (handleGetShareFilelist start count) := by
  refine ⟨_, rfl, fun ptr cacheConn => ?_⟩
  refine uses_bind (uses_getShareFilesCount hredis (sql hlocal) ptr cacheConn) fun (ret, total) => ?_
  refine uses_ite trivial (uses_ite trivial ?_)
  refine uses_bind (uses_executeQuery (sql hlocal) ptr _) fun resultSet => ?_
  split <;> trivial

theorem onCache_handleGetRankingFilelist (start count : Int) :
    OnCache P (handleGetRankingFilelist start count) := by
  refine ⟨_, rfl, fun cacheConn => ?_⟩
  refine uses_bind ((uses_issue ..).mpr (hlocal _ trivial)) fun _ => uses_ite ?_ trivial
  refine uses_bind (uses_zsetZrevrange (hredis _ (Or.inl ⟨trivial, rfl⟩))) fun values => ?_
  cases values with
  | none => trivial
  | some values =>
      refine uses_bind (uses_rankingFiles hredis cacheConn values) fun files => ?_
      cases files <;> trivial

end Handlers

end Api
end TcMuzi
