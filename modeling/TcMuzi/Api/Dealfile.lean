import TcMuzi.Api.Common

/-!
# `/api/dealfile`: share, delete and count downloads of one's own files

The handlers number their steps; each group of steps that the source separates by
its `goto END` exits is a definition of its own.
-/

namespace TcMuzi
namespace Api

open Base Server Redis

def shareOk : Int := 0
def shareFail : Int := 1
def shareHad : Int := 3

/-- The member of `FILE_PUBLIC_ZSET` for a file: its md5 and its name. -/
def fileidOf (md5 filename : CString) : CString := md5 ++ filename

/-! ## Sharing -/

/-- Steps 4 to 6: store the share in MySQL, then in Redis. -/
def storeShare (dbConn cacheConn : Ptr) (user md5 filename : CString) : Handler Int := do
  let updated ← executeUpdate dbConn (.setSharedStatus user md5 filename 1) false
  if updated then
    let createTime ← currentTime
    let inserted ← executeCreate dbConn (.insertShareFile ⟨user, md5, createTime, filename, 0⟩)
    if inserted then
      let ret ← cacheIncrCount cacheConn filePublicCount
      if ret < 0 then
        return shareFail
      else
        let _ ← CacheConn.zsetAdd cacheConn filePublicZset 0 (fileidOf md5 filename)
        let _ ← CacheConn.hset cacheConn fileNameHash (fileidOf md5 filename) filename
        return shareOk
    else
      return shareFail
  else
    return shareFail

/-- Step 1: `ZsetExist`, or 0 without a connection. -/
def shareExist (cacheConn : Ptr) (md5 filename : CString) : Handler Int :=
  match cacheConn with
  | .conn => CacheConn.zsetExist cacheConn filePublicZset (fileidOf md5 filename)
  | .null => return 0

/-- Steps 2 and 3: a share that only MySQL knows is put back into Redis. -/
def shareIfNew (dbConn cacheConn : Ptr) (user md5 filename : CString) : Handler Int := do
  let record ← checkwhetherHaveRecord dbConn (.shareFile md5 filename)
  if record = 1 then
    let _ ← CacheConn.zsetAdd cacheConn filePublicZset 0 (fileidOf md5 filename)
    let _ ← CacheConn.hset cacheConn fileNameHash (fileidOf md5 filename) filename
    return shareHad
  else
    storeShare dbConn cacheConn user md5 filename

def handleShareFile (user md5 filename : CString) : Handler Int :=
  withDBConn .tuchuangSlave fun dbConn =>
  withCacheConn fun cacheConn => do
    let exist ← shareExist cacheConn md5 filename
    if exist = 1 then
      return shareHad
    else if exist = 0 then
      shareIfNew dbConn cacheConn user md5 filename
    else
      return shareFail

/-! ## Deleting -/

/-- Steps 1 and 2: `is_shared` and whether Redis has a record, `none` on an error.
Without a record in Redis the flag of the user's own row decides. -/
def sharedState (dbConn cacheConn : Ptr) (user md5 filename : CString) :
    Handler (Option (Int × Bool)) := do
  let exist ← CacheConn.zsetExist cacheConn filePublicZset (fileidOf md5 filename)
  if exist = 1 then
    return some (1, true)
  else if exist = 0 then
    let (ret, sharedStatus) ← getResultOneStatus dbConn user md5 filename 0
    return some (if ret = 0 then sharedStatus else 0, false)
  else
    return none

/-- Steps 3 and 4: drop the share.  The delete is by user, the Redis records are
by md5 and file name only. -/
def removeShare (dbConn cacheConn : Ptr) (user md5 filename : CString) (redisHasRecord : Bool) :
    Handler Int := do
  let dropped ← executeDrop dbConn (.deleteShareFile user md5 filename)
  if dropped then
    let ret ← cacheDecrCount cacheConn filePublicCount
    if ret < 0 then
      return -1
    else if redisHasRecord then
      let _ ← CacheConn.zsetZrem cacheConn filePublicZset (fileidOf md5 filename)
      let _ ← CacheConn.hdel cacheConn fileNameHash (fileidOf md5 filename)
      return 0
    else
      return 0
  else
    return -1

def removeIfShared (dbConn cacheConn : Ptr) (user md5 filename : CString) (isShared : Int)
    (redisHasRecord : Bool) : Handler Int :=
  if isShared = 1 then removeShare dbConn cacheConn user md5 filename redisHasRecord else return 0

/-- The user's row goes, whether there was one or not. -/
def removeUserFile (dbConn cacheConn : Ptr) (user md5 filename : CString) : Handler Int := do
  let ret ← cacheDecrCount cacheConn (fileUserCount ++ user)
  if ret < 0 then
    return -1
  else
    let dropped ← executeDrop dbConn (.deleteUserFile user md5 filename)
    return if dropped then 0 else -1

/-- Nobody refers to the file any more: drop its row and its contents.  The result
set is read without a check for NULL. -/
def removeFile (dbConn : Ptr) (md5 : CString) : Handler Int := do
  let resultSet : Option (List CString) ← executeQuery dbConn (.fileId md5)
  match resultSet with
  | none => .fail
  | some rows =>
      let _ ← executeDrop dbConn (.deleteFileInfo md5)
      let ret ← removeFileFromFastDfs (rows.headD CString.empty)
      return if ret = 0 then 0 else -1

/-- Count one reference less: read the count, write it back decremented, and
remove the file when the decremented value is 0. -/
def releaseFile (dbConn : Ptr) (md5 : CString) : Handler Int := do
  let (ret, count) ← getResultOneCount dbConn md5 false 0
  if ret ≠ 0 then
    return -1
  else if count > 0 then
    let updated ← executeUpdate dbConn (.setFileCount md5 (count - 1)) true
    if updated then
      if count - 1 = 0 then removeFile dbConn md5 else return 0
    else
      return -1
  else if count = 0 then
    removeFile dbConn md5
  else
    return 0

def handleDeleteFile (user md5 filename : CString) : Handler Int :=
  withDBConn .tuchuangSlave fun dbConn =>
  withCacheConn fun cacheConn => do
    let some (isShared, redisHasRecord) ← sharedState dbConn cacheConn user md5 filename
      | return httpRespFail
    let removed ← removeIfShared dbConn cacheConn user md5 filename isShared redisHasRecord
    if removed ≠ 0 then
      return httpRespFail
    else
      let dropped ← removeUserFile dbConn cacheConn user md5 filename
      if dropped ≠ 0 then
        return httpRespFail
      else
        let released ← releaseFile dbConn md5
        return if released = 0 then httpRespOk else httpRespFail

/-! ## Counting downloads -/

/-- `handlePvFile` of `api_dealfile.cc`. -/
def handlePvUserFile (user md5 filename : CString) : Handler Int :=
  withDBConn .tuchuangSlave fun dbConn => do
    let resultSet : Option (List Int) ← executeQuery dbConn (.userFilePv user md5 filename)
    match resultSet with
    | some (pv :: _) =>
        let updated ←
          executeUpdate dbConn (.setUserFilePv user md5 filename (wrapInt32 (pv + 1))) true
        return if updated then httpRespOk else httpRespFail
    | _ => return httpRespFail

/-! ## The entry point -/

/-- The response after the first two commands.  Only `share` is followed by an
`else`, so these also run into the branch for unknown commands. -/
def dealfileTail (cmd user md5 filename : CString) : Handler Response :=
  if cmd = CString.lit "share" then do
    let ret ← handleShareFile user md5 filename
    return (0, some (encodeCode ret))
  else
    return (0, some (encodeCode shareFail))

def apiDealfile (reader : JsonReader) (url postData : List UInt8) : Handler Response := do
  let cmd ← parseCmd url
  let some root := reader postData | return (-1, some (encodeCode httpRespFail))
  let some user ← extractField root "user" | return (-1, some (encodeCode shareFail))
  let some token ← extractField root "token" | return (-1, some (encodeCode shareFail))
  let some filename ← extractField root "filename" | return (-1, some (encodeCode shareFail))
  let some md5 ← extractField root "md5" | return (-1, some (encodeCode shareFail))
  if cmd = CString.lit "del" then
    let ret ← verifyToken user token
    if ret < 0 then
      return (-1, some (encodeCode shareFail))
    else
      let _ ← handleDeleteFile user md5 filename
      dealfileTail cmd user md5 filename
  else if cmd = CString.lit "pv" then
    let _ ← handlePvUserFile user md5 filename
    dealfileTail cmd user md5 filename
  else
    dealfileTail cmd user md5 filename

end Api
end TcMuzi
