import TcMuzi.Api.Common

/-!
# `/api/md5`: instant upload

`handleDealMd5` gives a user a file that is already stored.  It is the only
handler that counts references inside a transaction.
-/

namespace TcMuzi
namespace Api

open Base Server

def md5Ok : Int := 0
def md5Failed : Int := 1
def md5TokenFaild : Int := 4
def md5FileExit : Int := 5

structure Md5Msg where
  user : CString
  token : CString
  md5 : CString
  fileName : CString

def decodeMd5Json (reader : JsonReader) (postData : List UInt8) : Handler (Option Md5Msg) := do
  let some root := reader postData | return none
  let some user ← extractField root "user" | return none
  let some token ← extractField root "token" | return none
  let some md5 ← extractField root "md5" | return none
  let some fileName ← extractField root "filename" | return none
  return some ⟨user, token, md5, fileName⟩

/-- The row that the handlers add for a file a user obtains. -/
def newUserFile (user md5 createTime fileName : CString) : Mysql.UserFile where
  user := user
  md5 := md5
  createTime := createTime
  fileName := fileName
  sharedStatus := 0
  pv := 0

/-- The part of the transaction behind the ownership check: take the count under
a lock, write it back incremented, insert the user's row. -/
def addReference (dbConn : Ptr) (user md5 filename : CString) : Handler Bool := do
  let (ret, fileRefCount) ← getResultOneCount dbConn md5 true 0
  if ret ≠ -1 ∧ ret ≠ 1 then
    let updated ← executeUpdate dbConn (.setFileCount md5 (wrapInt32 (fileRefCount + 1))) false
    if updated then
      let timeStr ← currentTime
      executeCreate dbConn (.insertUserFile (newUserFile user md5 timeStr filename))
    else
      return false
  else
    return false

/-- The whole transaction.  The replies of `StartTransaction`, `Commit` and
`Rollback` are not read, and an ownership check that failed counts as no record. -/
def dealMd5Transaction (dbConn : Ptr) (user md5 filename : CString) : Handler Int := do
  let _ ← startTransaction dbConn
  let ret ← checkwhetherHaveRecord dbConn (.userFile user md5 filename true)
  if ret = 1 then
    let _ ← commit dbConn
    return md5FileExit
  else
    let succeed ← addReference dbConn user md5 filename
    if succeed then
      let _ ← commit dbConn
      return md5Ok
    else
      let _ ← rollback dbConn
      return md5Failed

/-- `handleDealMd5`: the code of its response. -/
def handleDealMd5 (user md5 filename : CString) : Handler Int :=
  withDBConn .tuchuangMaster fun dbConn => dealMd5Transaction dbConn user md5 filename

def apiMd5 (reader : JsonReader) (postData : List UInt8) : Handler Response := do
  let some msg ← decodeMd5Json reader postData | return (0, some (encodeCode md5Failed))
  let ret ← verifyToken msg.user msg.token
  if ret = 0 then
    let code ← handleDealMd5 msg.user msg.md5 msg.fileName
    return (0, some (encodeCode code))
  else
    return (0, some (encodeCode md5TokenFaild))

end Api
end TcMuzi
