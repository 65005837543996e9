import Mathlib.Data.List.Sort
import TcMuzi.Lib.Table
import TcMuzi.Mysql.Tables

/-!
# The SQL statements

Every statement the handlers send, as data: the constructor is the statement's
template and its arguments are the values printed into it.  Strings are compared
byte for byte.  `Query.exec` is the result set of a `SELECT`, `Update.exec` the
effect of a write with the number of rows MySQL reports as affected (an `UPDATE`
that leaves a row as it was does not count it).  `none` is an SQL error.
-/

namespace TcMuzi
namespace Mysql

open Base Lib

/-- The `SELECT` statements.  `forUpdate` marks the locking reads. -/
inductive Query
  | passwordOf (user : CString)
  | userByName (user : CString)
  | userFilesCount (user : CString)
  | shareFilesCount
  | userFileListPage (user : CString) (start count : Int)
  | userFile (user md5 fileName : CString) (forUpdate : Bool)
  | fileCount (md5 : CString) (forUpdate : Bool)
  | shareFile (md5 fileName : CString)
  | sharedStatus (user md5 fileName : CString)
  | fileId (md5 : CString)
  | userFilePv (user md5 fileName : CString)
  | shareFilePvForUpdate (md5 fileName : CString)
  | shareFilesByPv
  | shareFileListPage (start count : Int)
  | sharePicture (shareId : CString)
  | fileUrl (md5 : CString)
  | sharePicturesCount (user : CString)
  | sharePictureListPage (user : CString) (start count : Int)
deriving DecidableEq

/-- The columns a result row of the statement carries. -/
@[reducible] def Query.Row : Query → Type
  | .passwordOf _ => CString
  | .userByName _ => UserInfo
  | .userFilesCount _ => Int
  | .shareFilesCount => Int
  | .userFileListPage .. => UserFile × FileInfo
  | .userFile .. => UserFile
  | .fileCount .. => Int
  | .shareFile .. => ShareFile
  | .sharedStatus .. => Int
  | .fileId _ => CString
  | .userFilePv .. => Int
  | .shareFilePvForUpdate .. => Int
  | .shareFilesByPv => ShareFile
  | .shareFileListPage .. => ShareFile × FileInfo
  | .sharePicture _ => SharePicture
  | .fileUrl _ => CString
  | .sharePicturesCount _ => Int
  | .sharePictureListPage .. => SharePicture × FileInfo

/-- `LIMIT start, count`: negative bounds are a syntax error. -/
def limit {ρ : Type} (start count : Int) (rows : List ρ) : Option (List ρ) :=
  if start < 0 ∨ count < 0 then none else some ((rows.drop start.toNat).take count.toNat)

/-- The rows of `file_info, t` with equal md5. -/
def joinFileInfo {ρ : Type} (md5 : ρ → CString) (rows : List ρ) (files : List FileInfo) :
    List (ρ × FileInfo) :=
  files.flatMap fun file => (rows.filter fun row => md5 row = file.md5).map fun row => (row, file)

/-- Where clause on the columns of a user's file. -/
def isUserFile (user md5 fileName : CString) (row : UserFile) : Bool :=
  row.user = user && row.md5 = md5 && row.fileName = fileName

/-- Where clause on the columns of a shared file. -/
def isShareFile (md5 fileName : CString) (row : ShareFile) : Bool :=
  row.md5 = md5 && row.fileName = fileName

/-- Where clause on the owner and the columns of a shared file. -/
def isShareFileOf (user md5 fileName : CString) (row : ShareFile) : Bool :=
  row.user = user && row.md5 = md5 && row.fileName = fileName

/-- Where clause on the md5 of a file. -/
def isFile (md5 : CString) (row : FileInfo) : Bool :=
  row.md5 = md5

/-- The result set of a `SELECT`. -/
def Query.exec : (q : Query) → Tables → Option (List q.Row)
  | .passwordOf user, t =>
      some ((t.userInfo.filter fun row => row.userName = user).map (·.password))
  | .userByName user, t => some (t.userInfo.filter fun row => row.userName = user)
  | .userFilesCount user, t =>
      some [((t.userFileList.countP fun row => row.user = user : Nat) : Int)]
  | .shareFilesCount, t => some [(t.shareFileList.length : Int)]
  | .userFileListPage user start count, t =>
      limit start count (joinFileInfo (fun row : UserFile => row.md5)
        (t.userFileList.filter fun row => row.user = user) t.fileInfo)
  | .userFile user md5 fileName _, t => some (t.userFileList.filter (isUserFile user md5 fileName))
  | .fileCount md5 _, t => some ((t.fileInfo.filter (isFile md5)).map (·.count))
  | .shareFile md5 fileName, t => some (t.shareFileList.filter (isShareFile md5 fileName))
  | .sharedStatus user md5 fileName, t =>
      some ((t.userFileList.filter (isUserFile user md5 fileName)).map (·.sharedStatus))
  | .fileId md5, t => some ((t.fileInfo.filter (isFile md5)).map (·.fileId))
  | .userFilePv user md5 fileName, t =>
      some ((t.userFileList.filter (isUserFile user md5 fileName)).map (·.pv))
  | .shareFilePvForUpdate md5 fileName, t =>
      some ((t.shareFileList.filter (isShareFile md5 fileName)).map (·.pv))
  | .shareFilesByPv, t => some (t.shareFileList.insertionSort fun a b => b.pv ≤ a.pv)
  | .shareFileListPage start count, t =>
      limit start count (joinFileInfo (fun row : ShareFile => row.md5) t.shareFileList t.fileInfo)
  | .sharePicture shareId, t => some (t.sharePictureList.filter fun row => row.shareId = shareId)
  | .fileUrl md5, t => some ((t.fileInfo.filter (isFile md5)).map (·.url))
  | .sharePicturesCount user, t =>
      some [((t.sharePictureList.countP fun row => row.user = user : Nat) : Int)]
  | .sharePictureListPage user start count, t =>
      limit start count (joinFileInfo (fun row : SharePicture => row.filemd5)
        (t.sharePictureList.filter fun row => row.user = user) t.fileInfo)

/-- The writing statements. -/
inductive Update
  | insertUser (row : UserInfo)
  | insertFileInfo (row : FileInfo)
  | setFileCount (md5 : CString) (count : Int)
  | deleteFileInfo (md5 : CString)
  | insertUserFile (row : UserFile)
  | setSharedStatus (user md5 fileName : CString) (status : Int)
  | setUserFilePv (user md5 fileName : CString) (pv : Int)
  | deleteUserFile (user md5 fileName : CString)
  | insertShareFile (row : ShareFile)
  | setShareFilePv (md5 fileName : CString) (pv : Int)
  | deleteShareFile (user md5 fileName : CString)
  | insertSharePicture (row : SharePicture)
  | setSharePicturePv (shareId : CString) (pv : Int)
  | deleteSharePicture (user shareId : CString)
deriving DecidableEq

/-- Affected rows and the tables after a write.  Only `user_info` has unique
keys besides its id. -/
def Update.exec : Update → Tables → Option (Nat × Tables)
  | .insertUser row, t =>
      if t.userInfo.any fun r => r.userName = row.userName || r.nickName = row.nickName then none
      else some (1, { t with userInfo := Table.insertRow row t.userInfo })
  | .insertFileInfo row, t => some (1, { t with fileInfo := Table.insertRow row t.fileInfo })
  | .setFileCount md5 count, t =>
      let set := fun row : FileInfo => { row with count := count }
      some (Table.changed (isFile md5) set t.fileInfo,
        { t with fileInfo := Table.setWhere (isFile md5) set t.fileInfo })
  | .deleteFileInfo md5, t =>
      some (t.fileInfo.countP (isFile md5),
        { t with fileInfo := Table.deleteWhere (isFile md5) t.fileInfo })
  | .insertUserFile row, t =>
      some (1, { t with userFileList := Table.insertRow row t.userFileList })
  | .setSharedStatus user md5 fileName status, t =>
      let cond := isUserFile user md5 fileName
      let set := fun row : UserFile => { row with sharedStatus := status }
      some (Table.changed cond set t.userFileList,
        { t with userFileList := Table.setWhere cond set t.userFileList })
  | .setUserFilePv user md5 fileName pv, t =>
      let cond := isUserFile user md5 fileName
      let set := fun row : UserFile => { row with pv := pv }
      some (Table.changed cond set t.userFileList,
        { t with userFileList := Table.setWhere cond set t.userFileList })
  | .deleteUserFile user md5 fileName, t =>
      let cond := isUserFile user md5 fileName
      some (t.userFileList.countP cond,
        { t with userFileList := Table.deleteWhere cond t.userFileList })
  | .insertShareFile row, t =>
      some (1, { t with shareFileList := Table.insertRow row t.shareFileList })
  | .setShareFilePv md5 fileName pv, t =>
      let cond := isShareFile md5 fileName
      let set := fun row : ShareFile => { row with pv := pv }
      some (Table.changed cond set t.shareFileList,
        { t with shareFileList := Table.setWhere cond set t.shareFileList })
  | .deleteShareFile user md5 fileName, t =>
      let cond := isShareFileOf user md5 fileName
      some (t.shareFileList.countP cond,
        { t with shareFileList := Table.deleteWhere cond t.shareFileList })
  | .insertSharePicture row, t =>
      some (1, { t with sharePictureList := Table.insertRow row t.sharePictureList })
  | .setSharePicturePv shareId pv, t =>
      let cond := fun row : SharePicture => decide (row.shareId = shareId)
      let set := fun row : SharePicture => { row with pv := pv }
      some (Table.changed cond set t.sharePictureList,
        { t with sharePictureList := Table.setWhere cond set t.sharePictureList })
  | .deleteSharePicture user shareId, t =>
      let cond := fun row : SharePicture => row.user = user && row.shareId = shareId
      some (t.sharePictureList.countP cond,
        { t with sharePictureList := Table.deleteWhere cond t.sharePictureList })

/-- The count that was read, written back incremented, affects the row it was read from. -/
theorem changed_incremented {t : Tables} {md5 : CString} {forUpdate : Bool} {count : Int}
    {counts : List Int} (h : (Query.fileCount md5 forUpdate).exec t = some (count :: counts)) :
    0 < Table.changed (isFile md5) (fun row => { row with count := wrapInt32 (count + 1) })
      t.fileInfo := by
  have hmem : count ∈ (t.fileInfo.filter (isFile md5)).map (·.count) := by
    rw [Option.some.inj h]
    exact List.mem_cons_self
  obtain ⟨row, hrow, rfl⟩ := List.mem_map.mp hmem
  obtain ⟨hrow, hfile⟩ := List.mem_filter.mp hrow
  refine Table.changed_pos hrow hfile fun heq => ?_
  exact wrapInt32_add_one_ne row.count (congrArg FileInfo.count heq)

end Mysql
end TcMuzi
