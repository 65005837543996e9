import TcMuzi.Base.CString

/-!
# The MySQL tables

One record per table of the `tuchuang_mini` database, with the columns that the
handlers read or write (the `AUTO_INCREMENT` ids are only logged).  `size` is a
`bigint`, the counts and flags are `int(11)` columns: `HoldInts` says that they hold
no more than an `int` does.  The handlers compute their new values in an `int`, which
wraps; they never write one that the column would refuse.
-/

namespace TcMuzi
namespace Mysql

open Base

structure UserInfo where
  userName : CString
  nickName : CString
  password : CString
  phone : CString
  email : CString
  createTime : CString
deriving DecidableEq

structure FileInfo where
  md5 : CString
  fileId : CString
  url : CString
  size : Int
  type : CString
  -- how many `user_file_list` rows refer to the file
  count : Int
deriving DecidableEq

structure UserFile where
  user : CString
  md5 : CString
  createTime : CString
  fileName : CString
  -- 0 not shared, 1 shared
  sharedStatus : Int
  pv : Int
deriving DecidableEq

structure ShareFile where
  user : CString
  md5 : CString
  createTime : CString
  fileName : CString
  pv : Int
deriving DecidableEq

structure SharePicture where
  user : CString
  filemd5 : CString
  fileName : CString
  shareId : CString
  key : CString
  pv : Int
  createTime : CString
deriving DecidableEq

structure Tables where
  userInfo : List UserInfo
  fileInfo : List FileInfo
  userFileList : List UserFile
  shareFileList : List ShareFile
  sharePictureList : List SharePicture
deriving DecidableEq

/-- The tables `db.sql` creates. -/
def Tables.empty : Tables := ⟨[], [], [], [], []⟩

/-- The `int(11)` columns hold values of an `int`. -/
structure Tables.HoldInts (t : Tables) : Prop where
  count : ∀ row ∈ t.fileInfo, IsInt32 row.count
  sharedStatus : ∀ row ∈ t.userFileList, IsInt32 row.sharedStatus
  userFilePv : ∀ row ∈ t.userFileList, IsInt32 row.pv
  shareFilePv : ∀ row ∈ t.shareFileList, IsInt32 row.pv
  sharePicturePv : ∀ row ∈ t.sharePictureList, IsInt32 row.pv

instance (t : Tables) : Decidable t.HoldInts :=
  decidable_of_iff ((∀ row ∈ t.fileInfo, IsInt32 row.count) ∧
      (∀ row ∈ t.userFileList, IsInt32 row.sharedStatus) ∧
      (∀ row ∈ t.userFileList, IsInt32 row.pv) ∧ (∀ row ∈ t.shareFileList, IsInt32 row.pv) ∧
      ∀ row ∈ t.sharePictureList, IsInt32 row.pv)
    ⟨fun ⟨hcount, hstatus, huser, hshare, hpicture⟩ => ⟨hcount, hstatus, huser, hshare, hpicture⟩,
      fun h => ⟨h.count, h.sharedStatus, h.userFilePv, h.shareFilePv, h.sharePicturePv⟩⟩

/-- The columns `(user, md5, file_name)` that name a user's file. -/
def UserFile.key (row : UserFile) : CString × CString × CString :=
  (row.user, row.md5, row.fileName)

/-- The columns `(md5, file_name)` that name a shared file. -/
def ShareFile.key (row : ShareFile) : CString × CString :=
  (row.md5, row.fileName)

end Mysql
end TcMuzi
