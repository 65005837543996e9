import TcMuzi.Api.Common

/-!
# `/api/sharefiles`: the shared files and their ranking
-/

namespace TcMuzi
namespace Api

open Base Server Redis

def encodeSharefilesJson (ret total : Int) : Json :=
  Json.withCode ret (if ret = 0 then [(CString.lit "total", .int total)] else [])

/-- `getShareFilesCount`: code and count.  A count of 0 in Redis, or none, is looked
up in MySQL and written back. -/
def getShareFilesCount (dbConn cacheConn : Ptr) : Handler (Int × Int) := do
  let (_, fileCount) ← cacheGetCount cacheConn filePublicCount
  if fileCount = 0 then
    let (ret, count) ← dbGetShareFilesCount dbConn
    if ret < 0 then
      return (-1, count)
    else
      let written ← cacheSetCount cacheConn filePublicCount count
      return if written < 0 then (-1, count) else (0, count)
  else
    return (0, fileCount)

def handleGetSharefilesCount : Handler (Int × Int) :=
  withDBConn .tuchuangSlave fun dbConn =>
  withCacheConn fun cacheConn => getShareFilesCount dbConn cacheConn

/-- The loop of `InitializePvCache`. -/
def loadShares (cacheConn : Ptr) : List Mysql.ShareFile → Handler Unit
  | [] => return ()
  | row :: rows => do
      let field := row.md5 ++ row.fileName
      let _ ← CacheConn.zsetAdd cacheConn filePublicZset row.pv field
      let _ ← CacheConn.hset cacheConn fileNameHash field row.fileName
      loadShares cacheConn rows

/-- `InitializePvCache`, at the start of the server: rebuild the Redis records from
the share list. -/
def initializePvCache : Handler Int :=
  withDBConn .tuchuangSlave fun dbConn =>
  withCacheConn fun cacheConn => do
    let _ ← CacheConn.del cacheConn filePublicZset
    let _ ← CacheConn.del cacheConn fileNameHash
    let resultSet : Option (List Mysql.ShareFile) ← executeQuery dbConn .shareFilesByPv
    match resultSet with
    | none => return -1
    | some rows =>
        let _ ← loadShares cacheConn rows
        return 0

/-! ## The ranking -/

/-- One entry of the ranking per member, `none` when a read fails. -/
def rankingFiles (cacheConn : Ptr) : List CString → Handler (Option (List Json))
  | [] => return some []
  | value :: values => do
      let some filename ← CacheConn.hget cacheConn fileNameHash value | return none
      let score ← CacheConn.zsetGetScore cacheConn filePublicZset value
      if score = -1 then
        return none
      else
        let some files ← rankingFiles cacheConn values | return none
        let file := Json.obj [(CString.lit "filename", .str filename), (CString.lit "pv", .int score)]
        return some (file :: files)

/-- The `files` member, absent when there is none. -/
def filesMember (files : List Json) : List (CString × Json) :=
  if files = [] then [] else [(CString.lit "files", .arr files)]

/-- The response of a list request. -/
def encodeFileList (total : Int) (files : List Json) : Json :=
  Json.withCode 0 (filesMember files ++
    [(CString.lit "total", .int total), (CString.lit "count", .int files.length)])

/-- The ranking reads Redis only; its `total` stays 0. -/
def handleGetRankingFilelist (start count : Int) : Handler Json :=
  withCacheConn fun cacheConn => do
    let allocated ← calloc count CacheConn.valuesIdSize
    if allocated then
      let endPos := wrapInt32 (start + count - 1)
      let some values ← CacheConn.zsetZrevrange cacheConn filePublicZset start endPos
        | return encodeCode 1
      let some files ← rankingFiles cacheConn values | return encodeCode 1
      return encodeFileList 0 files
    else
      return encodeCode 1

/-! ## The list -/

/-- One entry of the list.  The share list has no column `share_status`, which reads
as 0. -/
def shareFileJson : Mysql.ShareFile × Mysql.FileInfo → Json
  | (row, file) => .obj [
      (CString.lit "user", .str row.user),
      (CString.lit "md5", .str row.md5),
      (CString.lit "file_name", .str row.fileName),
      (CString.lit "share_status", .int 0),
      (CString.lit "pv", .int row.pv),
      (CString.lit "create_time", .str row.createTime),
      (CString.lit "url", .str file.url),
      (CString.lit "size", .int (wrapInt32 file.size)),
      (CString.lit "type", .str file.type)]

def handleGetShareFilelist (start count : Int) : Handler Json :=
  withDBConn .tuchuangSlave fun dbConn =>
  withCacheConn fun cacheConn => do
    let (ret, total) ← getShareFilesCount dbConn cacheConn
    if ret < 0 then
      return encodeCode 1
    else if total = 0 then
      return encodeFileList 0 []
    else
      let resultSet : Option (List (Mysql.ShareFile × Mysql.FileInfo)) ←
        executeQuery dbConn (.shareFileListPage start count)
      match resultSet with
      | none => return encodeCode 1
      | some rows => return encodeFileList total (rows.map shareFileJson)

/-! ## The entry point -/

def apiSharefile (reader : JsonReader) (url postData : List UInt8) : Handler Response := do
  let cmd ← parseCmd url
  if cmd = CString.lit "count" then
    let (ret, count) ← handleGetSharefilesCount
    return (0, some (if ret < 0 then encodeSharefilesJson 1 0 else encodeSharefilesJson 0 count))
  else
    let some root := reader postData | return (-1, some (encodeSharefilesJson 1 0))
    let some count ← extractFieldAsInt root "count" | return (-1, some (encodeSharefilesJson 1 0))
    let some start ← extractFieldAsInt root "start" | return (-1, some (encodeSharefilesJson 1 0))
    if cmd = CString.lit "normal" then
      let response ← handleGetShareFilelist start count
      return (0, some (.styled response))
    else if cmd = CString.lit "pvdesc" then
      let response ← handleGetRankingFilelist start count
      return (0, some (.styled response))
    else
      return (0, some (encodeSharefilesJson 1 0))

end Api
end TcMuzi
