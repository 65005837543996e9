import TcMuzi.Api.Common

/-!
# `/api/myfiles`: a user's own files
-/

namespace TcMuzi
namespace Api

open Base Server

def decodeCountJson (reader : JsonReader) (postData : List UInt8) :
    Handler (Option (CString × CString)) := do
  let some root := reader postData | return none
  let some userName ← extractField root "user" | return none
  let some token ← extractField root "token" | return none
  return some (userName, token)

def encodeCountJson (ret total : Int) : Json :=
  Json.withCode ret (if ret = 0 then [(CString.lit "total", .int total)] else [])

/-- `getUserFilesCount` asks MySQL only. -/
def getUserFilesCount (dbConn : Ptr) (userName : CString) : Handler (Int × Int) := do
  let (ret, count) ← dbGetUserFilesCountByUsername dbConn userName
  return if ret < 0 then (-1, count) else (0, count)

def handleUserFilesCount (userName : CString) : Handler (Int × Int) :=
  withDBConn .tuchuangSlave fun dbConn =>
  withCacheConn fun _ => getUserFilesCount dbConn userName

structure FileslistMsg where
  userName : CString
  token : CString
  start : Int
  count : Int

def decodeFileslistJson (reader : JsonReader) (postData : List UInt8) :
    Handler (Option FileslistMsg) := do
  let some root := reader postData | return none
  let some userName ← extractField root "user" | return none
  let some token ← extractField root "token" | return none
  let some start ← extractFieldAsInt root "start" | return none
  let some count ← extractFieldAsInt root "count" | return none
  return some ⟨userName, token, start, count⟩

/-- One entry of the list. -/
def userFileJson : Mysql.UserFile × Mysql.FileInfo → Json
  | (row, file) => .obj [
      (CString.lit "user", .str row.user),
      (CString.lit "md5", .str row.md5),
      (CString.lit "create_time", .str row.createTime),
      (CString.lit "file_name", .str row.fileName),
      (CString.lit "share_status", .int row.sharedStatus),
      (CString.lit "pv", .int row.pv),
      (CString.lit "url", .str file.url),
      (CString.lit "size", .int (wrapInt32 file.size)),
      (CString.lit "type", .str file.type)]

/-- `getUserFileList`: the response, `none` for the return code -1. -/
def getUserFileList (cmd userName : CString) (start count : Int) : Handler (Option Json) :=
  withDBConn .tuchuangSlave fun dbConn =>
  withCacheConn fun _ => do
    let (ret, total) ← getUserFilesCount dbConn userName
    if ret < 0 then
      return none
    else if total = 0 then
      return some (Json.withCode 0 [(CString.lit "count", .int 0), (CString.lit "total", .int 0)])
    else if cmd = CString.lit "normal" then
      let resultSet : Option (List (Mysql.UserFile × Mysql.FileInfo)) ←
        executeQuery dbConn (.userFileListPage userName start count)
      match resultSet with
      | none => return none
      | some rows =>
          return some (Json.withCode 0 [
            (CString.lit "files", if rows = [] then .null else .arr (rows.map userFileJson)),
            (CString.lit "count", .int rows.length),
            (CString.lit "total", .int total)])
    else
      return none

/-- The command `count`. -/
def myfilesCount (reader : JsonReader) (postData : List UInt8) : Handler Response := do
  let some (userName, token) ← decodeCountJson reader postData
    | return (-1, some (encodeCountJson 1 0))
  let ret ← verifyToken userName token
  if ret = 0 then
    let (ret, count) ← handleUserFilesCount userName
    return (0, some (if ret < 0 then encodeCountJson 1 0 else encodeCountJson 0 count))
  else
    return (0, some (encodeCountJson 1 0))

/-- Every other command: an unknown one is only noticed by `getUserFileList`. -/
def myfilesList (reader : JsonReader) (cmd : CString) (postData : List UInt8) :
    Handler Response := do
  let some msg ← decodeFileslistJson reader postData | return (0, some (encodeCountJson 1 0))
  let ret ← verifyToken msg.userName msg.token
  if ret = 0 then
    let response ← getUserFileList cmd msg.userName msg.start msg.count
    return (0, some (.fast (response.getD (encodeCountJson 1 0))))
  else
    return (0, some (encodeCountJson 1 0))

def apiMyfiles (reader : JsonReader) (url postData : List UInt8) : Handler Response := do
  let cmd ← parseCmd url
  if cmd = CString.lit "count" then
    myfilesCount reader postData
  else
    myfilesList reader cmd postData

end Api
end TcMuzi
