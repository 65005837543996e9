import TcMuzi.Api.Sharefiles

/-!
# `/api/sharepic`: picture shares
-/

namespace TcMuzi
namespace Api

open Base Server

def encodeSharePictureJson (ret : Int) (shareId : CString) : Json :=
  Json.withCode ret (if ret = 0 then [(CString.lit "share_id", .str shareId)] else [])

def handleSharePicture (user filemd5 fileName : CString) : Handler Json :=
  withDBConn .tuchuangMaster fun dbConn => do
    let shareId ← spawnUUID
    let createTime ← currentTime
    let inserted ← executeCreate dbConn (.insertSharePicture
      ⟨user, filemd5, fileName, shareId, CString.empty, 0, createTime⟩)
    return encodeSharePictureJson (if inserted then httpRespOk else httpRespFail) shareId

def encodeBrowselPictureJson (ret pv : Int) (url user time : CString) : Json :=
  Json.withCode ret (if ret = 0 then
    [(CString.lit "pv", .int pv), (CString.lit "url", .str url), (CString.lit "user", .str user),
      (CString.lit "time", .str time)]
  else [])

/-- A share that cannot be found, has no file, or whose `pv` cannot be written
answers a failure. -/
def handleBrowsePicture (shareId : CString) : Handler Json :=
  withDBConn .tuchuangSlave fun dbConn => do
    let shares : Option (List Mysql.SharePicture) ← executeQuery dbConn (.sharePicture shareId)
    match shares with
    | some (share :: _) =>
        let urls : Option (List CString) ← executeQuery dbConn (.fileUrl share.filemd5)
        match urls with
        | some (url :: _) =>
            let pv := wrapInt32 (share.pv + 1)
            let updated ← executeUpdate dbConn (.setSharePicturePv shareId pv) true
            return encodeBrowselPictureJson (if updated then httpRespOk else httpRespFail)
              pv url share.user share.createTime
        | _ => return encodeCode httpRespFail
    | _ => return encodeCode httpRespFail

def getSharePicturesCount (dbConn : Ptr) (user : CString) : Handler (Int × Int) := do
  let resultSet ← executeQuery dbConn (.sharePicturesCount user)
  return dbGetCount resultSet

/-- One entry of the list. -/
def sharePictureJson : Mysql.SharePicture × Mysql.FileInfo → Json
  | (row, file) => .obj [
      (CString.lit "user", .str row.user),
      (CString.lit "filemd5", .str row.filemd5),
      (CString.lit "file_name", .str row.fileName),
      (CString.lit "urlmd5", .str row.shareId),
      (CString.lit "pv", .int row.pv),
      (CString.lit "create_time", .str row.createTime),
      (CString.lit "size", .int (wrapInt32 file.size))]

def handleGetSharePicturesList (user : CString) (start count : Int) : Handler Json :=
  withDBConn .tuchuangSlave fun dbConn => do
    let (ret, total) ← getSharePicturesCount dbConn user
    if ret < 0 then
      return encodeCode httpRespFail
    else if total = 0 then
      return encodeFileList 0 []
    else
      let resultSet : Option (List (Mysql.SharePicture × Mysql.FileInfo)) ←
        executeQuery dbConn (.sharePictureListPage user start count)
      match resultSet with
      | none => return encodeCode httpRespFail
      | some rows => return encodeFileList total (rows.map sharePictureJson)

def handleCancelSharePicture (user shareId : CString) : Handler Json :=
  withDBConn .tuchuangMaster fun dbConn => do
    let dropped ← executePassQuery dbConn (.deleteSharePicture user shareId)
    return encodeCode (if dropped then httpRespOk else httpRespFail)

/-! ## The commands of the entry point -/

/-- A missing field. -/
def sharePictureFail : Response := (-1, some (encodeSharePictureJson httpRespFail CString.empty))

def sharePictureTokenErr : Response :=
  (-1, some (encodeSharePictureJson httpRespTokenErr CString.empty))

def sharePictureShare (root : Json) : Handler Response := do
  let some user ← extractField root "user" | return sharePictureFail
  let some token ← extractField root "token" | return sharePictureFail
  let some md5 ← extractField root "md5" | return sharePictureFail
  let some filename ← extractField root "filename" | return sharePictureFail
  let ret ← verifyToken user token
  if ret < 0 then
    return sharePictureTokenErr
  else
    let response ← handleSharePicture user md5 filename
    return (0, some response)

def sharePictureBrowse (root : Json) : Handler Response := do
  let some urlmd5 ← extractField root "urlmd5" | return sharePictureFail
  let response ← handleBrowsePicture urlmd5
  return (0, some response)

def sharePictureNormal (root : Json) : Handler Response := do
  let some user ← extractField root "user" | return sharePictureFail
  let some token ← extractField root "token" | return sharePictureFail
  let some start ← extractFieldAsInt root "start" | return sharePictureFail
  let some count ← extractFieldAsInt root "count" | return sharePictureFail
  let ret ← verifyToken user token
  if ret < 0 then
    return sharePictureTokenErr
  else
    let response ← handleGetSharePicturesList user start count
    return (0, some (.styled response))

/-- The token is not checked here. -/
def sharePictureCancel (root : Json) : Handler Response := do
  let some user ← extractField root "user" | return sharePictureFail
  let some urlmd5 ← extractField root "urlmd5" | return sharePictureFail
  let response ← handleCancelSharePicture user urlmd5
  return (0, some response)

def apiSharePicture (reader : JsonReader) (url postData : List UInt8) : Handler Response := do
  let cmd ← parseCmd url
  let some root := reader postData | return sharePictureFail
  if cmd = CString.lit "share" then
    sharePictureShare root
  else if cmd = CString.lit "browse" then
    sharePictureBrowse root
  else if cmd = CString.lit "normal" then
    sharePictureNormal root
  else if cmd = CString.lit "cancel" then
    sharePictureCancel root
  else
    return (0, none)

end Api
end TcMuzi
