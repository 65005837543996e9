import TcMuzi.Base.Json
import TcMuzi.Base.TcCommon
import TcMuzi.Redis.CacheConn

/-!
# What the handlers share

`api_common.cc` and the parts of `tc_common.cc` that talk to MySQL or Redis: the
Redis keys, the counters, the readers of a single record, the token check, and the
extraction of request fields.  Functions with an output reference return it beside
their code.
-/

namespace TcMuzi
namespace Api

open Base Server Redis

/-! ## Constants -/

def filePublicZset : CString := CString.lit "FILE_PUBLIC_ZSET"
def fileNameHash : CString := CString.lit "FILE_NAME_HASH"
def filePublicCount : CString := CString.lit "FILE_PUBLIC_COUNT"
def fileUserCount : CString := CString.lit "FILE_USER_COUNT"

def httpRespOk : Int := 0
def httpRespFail : Int := 1
def httpRespTokenErr : Int := 4
def httpRespFileExist : Int := 5

/-- What an entry point returns and the response text it leaves, if any.  A value is written
by a `FastWriter` unless it says otherwise. -/
abbrev Response := Int × Option Written

/-- An `encode…Json` function with no member besides the code. -/
def encodeCode (ret : Int) : Json := Json.withCode ret []

/-- The entry points read members with `root[field].isNull()` and `asString()`:
`none` for a null one.  Both may throw. -/
def extractField (root : Json) (field : String) : Handler (Option CString) := do
  let value ← orThrow (root.member (CString.lit field))
  if value.isNull then
    return none
  else
    let text ← orThrow value.asString
    return some text

def extractFieldAsInt (root : Json) (field : String) : Handler (Option Int) := do
  let value ← orThrow (root.member (CString.lit field))
  if value.isNull then
    return none
  else
    let n ← orThrow value.asInt
    return some n

/-- The command of a request, left in an unwritten buffer when the URL has none. -/
def parseCmd (url : List UInt8) : Handler CString :=
  match queryParseKeyValue (CString.cStr url) (CString.lit "cmd") with
  | some cmd => .ret cmd
  | none => uninitialised

/-! ## Counters in Redis -/

def cacheSetCount (cacheConn : Ptr) (key : CString) (count : Int) : Handler Int := do
  let ret ← CacheConn.set cacheConn key (CString.ofInt count)
  return if ret ≠ CString.empty then 0 else -1

def cacheGetCount (cacheConn : Ptr) (key : CString) : Handler (Int × Int) := do
  let strCount ← CacheConn.get cacheConn key
  return if strCount ≠ CString.empty then (0, strCount.atoll) else (-1, 0)

def cacheIncrCount (cacheConn : Ptr) (key : CString) : Handler Int := do
  let (ret, _) ← CacheConn.incr cacheConn key
  return if ret < 0 then -1 else 0

/-- A count that became negative is set back to 0. -/
def cacheDecrCount (cacheConn : Ptr) (key : CString) : Handler Int := do
  let (ret, count) ← CacheConn.decr cacheConn key
  if ret < 0 then
    return -1
  else if count < 0 then
    let ret ← cacheSetCount cacheConn key 0
    return if ret < 0 then -1 else 0
  else
    return 0

/-! ## Single records of MySQL -/

/-- `count(*)` of a query that has one row with one number: code and count. -/
def dbGetCount (resultSet : Option (List Int)) : Int × Int :=
  match resultSet with
  | some (count :: _) => (0, count)
  | some [] => (0, 0)
  | none => (-1, 0)

def dbGetUserFilesCountByUsername (dbConn : Ptr) (userName : CString) : Handler (Int × Int) := do
  let resultSet ← executeQuery dbConn (.userFilesCount userName)
  return dbGetCount resultSet

def dbGetShareFilesCount (dbConn : Ptr) : Handler (Int × Int) := do
  let resultSet ← executeQuery dbConn .shareFilesCount
  return dbGetCount resultSet

/-- `GetResultOneCount` of a count query: -1 is never returned, because a NULL
result set is dereferenced.  A nonzero `count` is not overwritten. -/
def getResultOneCount (dbConn : Ptr) (md5 : CString) (forUpdate : Bool) (count : Int) :
    Handler (Int × Int) := do
  let resultSet : Option (List Int) ← executeQuery dbConn (.fileCount md5 forUpdate)
  match resultSet with
  | none => .fail
  | some [] => return (1, count)
  | some (value :: _) => return if count = 0 then (0, value) else (2, count)

/-- `CheckwhetherHaveRecord`: -1 failure, 0 no record, 1 a record. -/
def checkwhetherHaveRecord (dbConn : Ptr) (q : Mysql.Query) : Handler Int := do
  let resultSet ← executeQuery dbConn q
  match resultSet with
  | none => return -1
  | some [] => return 0
  | some (_ :: _) => return 1

/-- `GetResultOneStatus`: code and shared status; a NULL result set is dereferenced. -/
def getResultOneStatus (dbConn : Ptr) (user md5 fileName : CString) (sharedStatus : Int) :
    Handler (Int × Int) := do
  let resultSet : Option (List Int) ← executeQuery dbConn (.sharedStatus user md5 fileName)
  match resultSet with
  | none => .fail
  | some [] => return (-1, sharedStatus)
  | some (status :: _) => return (0, status)

/-- `VerifyToken`. -/
def verifyToken (userName token : CString) : Handler Int :=
  withCacheConn fun cacheConn =>
    match cacheConn with
    | .null => return -1
    | .conn => do
        let tmpToken ← CacheConn.get cacheConn userName
        return if tmpToken = token then 0 else -1

/-- `RemoveFileFromFastDfs`: its `s_dfs_path_client` is never assigned. -/
def removeFileFromFastDfs (fileid : CString) : Handler Int :=
  system (CString.lit "fdfs_delete_file " ++ CString.empty ++ CString.lit " " ++ fileid)

end Api
end TcMuzi
