import TcMuzi.Api.Dealfile
import TcMuzi.Api.Md5

/-!
# `/api/dealsharefile`: count downloads of, cancel and save shared files
-/

namespace TcMuzi
namespace Api

open Base Server Redis

structure DealsharefileMsg where
  userName : CString
  md5 : CString
  filename : CString

def decodeDealsharefileJson (reader : JsonReader) (postData : List UInt8) :
    Handler (Option DealsharefileMsg) := do
  let some root := reader postData | return none
  let some userName ← extractField root "user" | return none
  let some md5 ← extractField root "md5" | return none
  let some filename ← extractField root "filename" | return none
  return some ⟨userName, md5, filename⟩

/-! ## Counting downloads -/

/-- The transaction that increments `pv`: the value before, `none` after a rollback. -/
def incrSharePv (dbConn : Ptr) (md5 filename : CString) : Handler (Option Int) := do
  let _ ← startTransaction dbConn
  let resultSet : Option (List Int) ← executeQuery dbConn (.shareFilePvForUpdate md5 filename)
  match resultSet with
  | some (pv :: _) =>
      let updated ← executeUpdate dbConn (.setShareFilePv md5 filename (wrapInt32 (pv + 1))) false
      if updated then
        let _ ← commit dbConn
        return some pv
      else
        let _ ← rollback dbConn
        return none
  | _ =>
      let _ ← rollback dbConn
      return none

/-- The score of the file in Redis follows; a missing member is put back. -/
def incrShareScore (cacheConn : Ptr) (md5 filename : CString) (pv : Int) : Handler Int := do
  let exist ← CacheConn.zsetExist cacheConn filePublicZset (fileidOf md5 filename)
  if exist = 1 then
    CacheConn.zsetIncr cacheConn filePublicZset (fileidOf md5 filename)
  else if exist = 0 then
    let _ ← CacheConn.zsetAdd cacheConn filePublicZset (wrapInt32 (pv + 1))
      (fileidOf md5 filename)
    let _ ← CacheConn.hset cacheConn fileNameHash (fileidOf md5 filename) filename
    return 0
  else
    return -1

/-- `handlePvFile` of `api_deal_sharefile.cc`. -/
def handlePvFile (md5 filename : CString) : Handler Int :=
  withDBConn .tuchuangSlave fun dbConn =>
  withCacheConn fun cacheConn => do
    let some pv ← incrSharePv dbConn md5 filename | return httpRespFail
    let ret ← incrShareScore cacheConn md5 filename pv
    return if ret = 0 then httpRespOk else httpRespFail

/-! ## Cancelling a share -/

/-- Step 4: the Redis records of the file. -/
def removeShareRecords (cacheConn : Ptr) (md5 filename : CString) : Handler Int := do
  let ret ← CacheConn.zsetZrem cacheConn filePublicZset (fileidOf md5 filename)
  if ret ≠ 0 then
    return ret
  else
    CacheConn.hdel cacheConn fileNameHash (fileidOf md5 filename)

/-- The return value of `Hdel` becomes the code: a removed field answers a failure. -/
def handleCancelShareFile (userName md5 filename : CString) : Handler Int :=
  withDBConn .tuchuangSlave fun dbConn =>
  withCacheConn fun cacheConn => do
    let updated ← executeUpdate dbConn (.setSharedStatus userName md5 filename 0) false
    if updated then
      let ret ← cacheDecrCount cacheConn filePublicCount
      if ret < 0 then
        return httpRespFail
      else
        let dropped ← executeDrop dbConn (.deleteShareFile userName md5 filename)
        if dropped then
          let ret ← removeShareRecords cacheConn md5 filename
          return if ret = 0 then httpRespOk else httpRespFail
        else
          return httpRespFail
    else
      return httpRespFail

/-! ## Saving a shared file -/

/-- Read the count, write it back incremented, insert the user's row: outside any
transaction. -/
def saveReference (dbConn : Ptr) (userName md5 filename : CString) : Handler Int := do
  let (ret, count) ← getResultOneCount dbConn md5 false 0
  if ret ≠ 0 then
    return -1
  else
    let updated ← executeUpdate dbConn (.setFileCount md5 (wrapInt32 (count + 1))) true
    if updated then
      let timeStr ← currentTime
      let inserted ←
        executeCreate dbConn (.insertUserFile (newUserFile userName md5 timeStr filename))
      return if inserted then 0 else -1
    else
      return -1

def handleSaveFile (userName md5 filename : CString) : Handler Int :=
  withDBConn .tuchuangSlave fun dbConn =>
  withCacheConn fun cacheConn => do
    let record ← checkwhetherHaveRecord dbConn (.userFile userName md5 filename false)
    if record = 1 then
      return httpRespFileExist
    else if record < 0 then
      return httpRespFail
    else
      let saved ← saveReference dbConn userName md5 filename
      if saved ≠ 0 then
        return httpRespFail
      else
        let ret ← cacheIncrCount cacheConn (fileUserCount ++ userName)
        return if ret < 0 then httpRespFail else httpRespOk

/-! ## The entry point -/

/-- The handler of a command; an unknown one leaves the code at 0. -/
def dealsharefileCmd (cmd : CString) (msg : DealsharefileMsg) : Handler Int :=
  if cmd = CString.lit "cancel" then
    handleCancelShareFile msg.userName msg.md5 msg.filename
  else if cmd = CString.lit "save" then
    handleSaveFile msg.userName msg.md5 msg.filename
  else if cmd = CString.lit "pv" then
    handlePvFile msg.md5 msg.filename
  else
    return 0

/-- Only a negative code answers a failure, and no handler returns one. -/
def apiDealsharefile (reader : JsonReader) (url postData : List UInt8) : Handler Response := do
  let cmd ← parseCmd url
  let some msg ← decodeDealsharefileJson reader postData
    | return (0, some (encodeCode httpRespFail))
  let ret ← dealsharefileCmd cmd msg
  return (0, some (encodeCode (if ret < 0 then httpRespFail else httpRespOk)))

end Api
end TcMuzi
