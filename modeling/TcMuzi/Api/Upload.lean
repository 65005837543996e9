import TcMuzi.Api.Md5

/-!
# `/api/upload`

The multipart body, the calls of the FastDFS tools, and the two inserts of
`storeFileinfo`.  After `fork` the definitions follow the process that answers:
where the tool could be started that is the parent, and a child in which `execlp`
returned runs on with nothing read.
-/

namespace TcMuzi
namespace Api

open Base Server

/-- What `ApiUploadInit` stores. -/
structure UploadConfig where
  dfsPathClient : CString
  storageWebServerIp : CString
  storageWebServerPort : CString
  shorturlServerAddress : CString

/-! ## The multipart body -/

/-- A part's name and its value. -/
abbrev Part := List UInt8 × List UInt8

/-- The bytes before the first occurrence of a separator, and the bytes from it on. -/
def breakOn (needle hay : List UInt8) : Option (List UInt8 × List UInt8) :=
  match strstr needle hay with
  | none => none
  | some found => some (hay.take (hay.length - found.length), found)

def isLineBreak (b : UInt8) : Bool := b == 13 || b == 10

/-- `strip`: throws on a value of line breaks only, whose two ends cross. -/
def strip (value : List UInt8) : Option (List UInt8) :=
  if value ≠ [] ∧ value.all isLineBreak then none
  else some ((value.dropWhile isLineBreak).reverse.dropWhile isLineBreak).reverse

def leftFlag : List UInt8 := (CString.lit "name=\"").bytes

def rightFlag : List UInt8 := (CString.lit "\"").bytes

/-- One part, between two separators: `none` ends the loop, `some none` is an
exception. -/
def parsePart (part : List UInt8) : Option (Option Part) :=
  match breakOn leftFlag part with
  | none => none
  | some (_, fromFlag) =>
      match breakOn rightFlag (fromFlag.drop leftFlag.length) with
      | none => none
      | some (_, []) => none
      | some (_, [_]) => some none
      | some (field, _ :: b :: value) =>
          match strip ((b :: value).dropLast) with
          | none => some none
          | some value => some (some (field, value))

/-- The loop of `decodeMsg`, from behind a separator on; `none` for an exception.
A separator is not empty, so every round consumes a byte of the fuel. -/
def parseParts (split : List UInt8) : Nat → List UInt8 → Option (List Part)
  | 0, _ => some []
  | fuel + 1, cur =>
      match breakOn split cur with
      | none => some []
      | some (part, next) =>
          match parsePart part with
          | none => some []
          | some none => none
          | some (some parsed) =>
              (parseParts split fuel (next.drop split.length)).map (parsed :: ·)

/-- A member of `UploadMsg`: the last part of that name, empty without one. -/
def uploadField (parts : List Part) (field : String) : CString :=
  match parts.reverse.find? fun part => part.1 = (CString.lit field).bytes with
  | some part => CString.cStr part.2
  | none => CString.empty

/-- The number of parts that `decodeMsg` insists on. -/
def fieldCnt : Nat := 6

/-- `decodeMsg`: throws, or the parts found so far. -/
def decodeMsg (postData split : List UInt8) : Option (List Part) :=
  match strstr split postData with
  | none => some []
  | some found => parseParts split (found.length + 1) (found.drop split.length)

/-! ## The FastDFS tools -/

/-- Run a tool and read at most 512 bytes of its output; `none` when the pipe or the
process could not be made. -/
def runTool (cfg : UploadConfig) (tool : String) (arg : CString) :
    Handler (Option (ForkResult × CString)) := do
  let piped ← pipe
  if piped < 0 then
    return none
  else
    let forked ← fork
    match forked with
    | .error => return none
    | .child =>
        execlp (CString.lit tool) cfg.dfsPathClient arg
        return some (.child, CString.empty)
    | .parent =>
        let output ← readPipe 512
        return some (.parent, CString.cStr output)

/-- The return code and the file id. -/
def uploadFileToFastDfs (cfg : UploadConfig) (filePath : CString) : Handler (Int × CString) := do
  let some (process, output) ← runTool cfg "fdfs_upload_file" filePath | return (-1, CString.empty)
  match process with
  | .parent =>
      let fileid := trimSpace output
      return if fileid = CString.empty then (-1, fileid) else (0, fileid)
  | _ => return (0, CString.empty)

/-- The return code and the URL.  The address in the tool's output is looked for
without a check, and only logged. -/
def getFullurlByFileid (cfg : UploadConfig) (fileid : CString) : Handler (Int × CString) := do
  let some (process, output) ← runTool cfg "fdfs_file_info" fileid | return (-1, CString.empty)
  match process with
  | .parent => do
      let source := (CString.lit "source ip address: ").bytes
      let found ← orThrow (strstr source output.bytes)
      let _ ← orThrow (strstr [10] (found.drop source.length))
      return (0, CString.lit "http://" ++ cfg.storageWebServerIp ++ CString.lit ":"
        ++ cfg.storageWebServerPort ++ CString.lit "/" ++ fileid)
  | _ => return (0, CString.empty)

/-! ## Storing the file -/

/-- The row for a new file: one user refers to it. -/
def newFileInfo (md5 fileid url : CString) (size : Int) (filename : CString) : Mysql.FileInfo where
  md5 := md5
  fileId := fileid
  url := url
  size := size
  type := getFileSuffix filename
  count := 1

def storeFileinfo (dbConn : Ptr) (user filename md5 : CString) (size : Int)
    (fileid fdfsFileUrl : CString) : Handler Int := do
  let stored ← executeCreate dbConn
    (.insertFileInfo (newFileInfo md5 fileid fdfsFileUrl size filename))
  if stored then
    let createTime ← currentTime
    let inserted ← executeCreate dbConn (.insertUserFile (newUserFile user md5 createTime filename))
    return if inserted then 0 else -1
  else
    return -1

/-- A short link for the URL, or the URL itself. -/
def shortUrlOf (cfg : UploadConfig) (url : CString) : Handler CString :=
  if cfg.shorturlServerAddress ≠ CString.empty then do
    let short ← getShortUrl url
    return short.getD url
  else
    return url

/-- The upload of a body with its six parts and a valid size: the response code. -/
def uploadMsg (cfg : UploadConfig) (dbConn : Ptr) (parts : List Part) (size : Int) :
    Handler Int := do
  let fileName := uploadField parts "file_name"
  let filePath := uploadField parts "file_path"
  let newFilePath := filePath ++ CString.lit "." ++ getFileSuffix fileName
  let renamed ← rename filePath newFilePath
  if renamed < 0 then
    return 1
  else
    let (uploaded, fileid) ← uploadFileToFastDfs cfg newFilePath
    let _ ← unlink newFilePath
    if uploaded < 0 then
      return 1
    else
      let (ret, url) ← getFullurlByFileid cfg fileid
      if ret < 0 then
        return 1
      else
        let shortUrl ← shortUrlOf cfg url
        let stored ← storeFileinfo dbConn (uploadField parts "user") fileName
          (uploadField parts "file_md5") size fileid shortUrl
        return if stored < 0 then 1 else 0

def apiUpload (cfg : UploadConfig) (postData split : List UInt8) : Handler Response :=
  withDBConn .tuchuangMaster fun dbConn => do
    let parts ← orThrow (decodeMsg postData split)
    if parts.length ≠ fieldCnt then
      return (0, some (encodeCode 1))
    else
      match (uploadField parts "file_size").stol with
      | none => return (0, some (encodeCode 1))
      | some size =>
          let code ← uploadMsg cfg dbConn parts size
          return (0, some (encodeCode code))

end Api
end TcMuzi
