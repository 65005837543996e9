import TcMuzi.Lib.SqlText
import TcMuzi.Mysql.Statement

/-!
# The SQL texts

The format string of every statement with the arguments that `sprintf` or `FormatString`
prints into it.
-/

namespace TcMuzi
namespace Mysql

open Base Lib SqlText

/-- A format string and its arguments. -/
structure Format where
  text : CString
  args : List Arg

namespace Format

def pieces (f : Format) : List Piece := SqlText.pieces f.text.bytes f.args

/-- The text that reaches `mysql_real_query`. -/
def sql (f : Format) : List UInt8 := render f.pieces

/-- The server reads the format's own tokens, with one literal for every quoted placeholder
that denotes the string printed there. -/
def ReadAsTemplate (f : Format) : Prop := tokenise f.sql = templateTokens f.pieces

instance (f : Format) : Decidable f.ReadAsTemplate := inferInstanceAs (Decidable (_ = _))

/-- The string arguments. -/
def strings (f : Format) : List (List UInt8) := stringArgs f.args

theorem format_readAsTemplate_iff {f : Format} (h : wellFormed f.text.bytes f.args) :
    f.ReadAsTemplate ↔ ∀ arg ∈ f.strings, Harmless arg :=
  tokenise_format_iff h

end Format

/-- `%s` of a `c_str()`. -/
def str (s : CString) : Arg := .string s.bytes

def Query.format : Query → Format
  | .passwordOf user =>
      ⟨.lit "select password from user_info where user_name='%s'", [str user]⟩
  | .userByName user => ⟨.lit "select * from user_info where user_name='%s'", [str user]⟩
  | .userFilesCount user =>
      ⟨.lit "select count(*) from user_file_list where user='%s'", [str user]⟩
  | .shareFilesCount => ⟨.lit "select count(*) from share_file_list", []⟩
  | .userFileListPage user start count =>
      ⟨.lit "select user_file_list.*, file_info.url, file_info.size,  file_info.type from file_info, user_file_list where user = '%s'             and file_info.md5 = user_file_list.md5 limit %d, %d",
        [str user, .int start, .int count]⟩
  | .userFile user md5 fileName true =>
      ⟨.lit "select * from user_file_list where user = '%s' and md5 = '%s' and file_name = '%s' for update", [str user, str md5, str fileName]⟩
  | .userFile user md5 fileName false =>
      ⟨.lit "select * from user_file_list where user = '%s' and md5 = '%s' and file_name = '%s'",
        [str user, str md5, str fileName]⟩
  | .fileCount md5 true =>
      ⟨.lit "select count from file_info where md5 = '%s' for update", [str md5]⟩
  | .fileCount md5 false => ⟨.lit "select count from file_info where md5 = '%s'", [str md5]⟩
  | .shareFile md5 fileName =>
      ⟨.lit "select * from share_file_list where md5 = '%s' and file_name = '%s'",
        [str md5, str fileName]⟩
  | .sharedStatus user md5 fileName =>
      ⟨.lit "select shared_status from user_file_list where user = '%s' and md5 = '%s' and file_name = '%s'", [str user, str md5, str fileName]⟩
  | .fileId md5 => ⟨.lit "select file_id from file_info where md5 = '%s'", [str md5]⟩
  | .userFilePv user md5 fileName =>
      ⟨.lit "select pv from user_file_list where user = '%s' and md5 = '%s' and file_name = '%s'", [str user, str md5, str fileName]⟩
  | .shareFilePvForUpdate md5 fileName =>
      ⟨.lit "select pv from share_file_list where md5 = '%s' and file_name = '%s' for update",
        [str md5, str fileName]⟩
  | .shareFilesByPv =>
      ⟨.lit "select md5, file_name, pv from share_file_list order by pv desc", []⟩
  | .shareFileListPage start count =>
      ⟨.lit "select share_file_list.*, file_info.url, file_info.size, file_info.type from file_info,         share_file_list where file_info.md5 = share_file_list.md5 limit %d, %d", [.int start, .int count]⟩
  | .sharePicture shareId =>
      ⟨.lit "select user, filemd5, file_name, pv, create_time from share_picture_list where share_id = '%s'", [str shareId]⟩
  | .fileUrl md5 => ⟨.lit "select url from file_info where md5 ='%s'", [str md5]⟩
  | .sharePicturesCount user =>
      ⟨.lit "select count(*) from share_picture_list where user='%s'", [str user]⟩
  | .sharePictureListPage user start count =>
      ⟨.lit "select share_picture_list.user, share_picture_list.filemd5, share_picture_list.file_name,share_picture_list.share_id, share_picture_list.pv,         share_picture_list.create_time, file_info.size from file_info, share_picture_list where share_picture_list.user = '%s' and          file_info.md5 = share_picture_list.filemd5 limit %d, %d",
        [str user, .int start, .int count]⟩

/-- The texts of a write.  Two handlers space the one that sets a file's count differently. -/
def Update.formats : Update → List Format
  -- prepared, so nothing is printed into it
  | .insertUser _ =>
      [⟨.lit "insert into user_info (`user_name`,`nick_name`,`password`,`phone`,`email`,`create_time`) values(?,?,?,?,?,?)", []⟩]
  | .insertFileInfo row =>
      [⟨.lit "insert into file_info (md5, file_id, url, size, type, count) values ('%s', '%s', '%s', '%ld', '%s', %d)",
        [str row.md5, str row.fileId, str row.url, .int row.size, str row.type, .int row.count]⟩]
  | .setFileCount md5 count =>
      [⟨.lit "update file_info set count = %d where md5 = '%s'", [.int count, str md5]⟩,
        ⟨.lit "update file_info set count=%d where md5 = '%s'", [.int count, str md5]⟩]
  | .deleteFileInfo md5 => [⟨.lit "delete from file_info where md5 = '%s'", [str md5]⟩]
  | .insertUserFile row =>
      [⟨.lit "insert into user_file_list(user, md5, create_time, file_name, shared_status, pv) values ('%s', '%s', '%s', '%s', %d, %d)",
        [str row.user, str row.md5, str row.createTime, str row.fileName, .int row.sharedStatus,
          .int row.pv]⟩]
  -- the status is a digit of the text
  | .setSharedStatus user md5 fileName status =>
      [⟨.lit "update user_file_list set shared_status = %d where user = '%s' and md5 = '%s' and file_name = '%s'", [.int status, str user, str md5, str fileName]⟩]
  | .setUserFilePv user md5 fileName pv =>
      [⟨.lit "update user_file_list set pv = %d where user = '%s' and md5 = '%s' and file_name = '%s'", [.int pv, str user, str md5, str fileName]⟩]
  | .deleteUserFile user md5 fileName =>
      [⟨.lit "delete from user_file_list where user = '%s' and md5 = '%s' and file_name = '%s'",
        [str user, str md5, str fileName]⟩]
  | .insertShareFile row =>
      [⟨.lit "insert into share_file_list (user, md5, create_time, file_name, pv) values ('%s', '%s', '%s', '%s', %d)",
        [str row.user, str row.md5, str row.createTime, str row.fileName, .int row.pv]⟩]
  | .setShareFilePv md5 fileName pv =>
      [⟨.lit "update share_file_list set pv = %d where md5 = '%s' and file_name = '%s'",
        [.int pv, str md5, str fileName]⟩]
  | .deleteShareFile user md5 fileName =>
      [⟨.lit "delete from share_file_list where user = '%s' and md5 = '%s' and file_name = '%s'",
        [str user, str md5, str fileName]⟩]
  | .insertSharePicture row =>
      [⟨.lit "insert into share_picture_list (user, filemd5, file_name, share_id, `key`, pv, create_time) values ('%s', '%s', '%s', '%s', '%s', %d, '%s')",
        [str row.user, str row.filemd5, str row.fileName, str row.shareId, str row.key,
          .int row.pv, str row.createTime]⟩]
  | .setSharePicturePv shareId pv =>
      [⟨.lit "update share_picture_list set pv = %d where share_id = '%s'",
        [.int pv, str shareId]⟩]
  | .deleteSharePicture user shareId =>
      [⟨.lit "delete from share_picture_list where user = '%s' and share_id = '%s'",
        [str user, str shareId]⟩]

/-- What is left to compute: the text's letters with blank arguments. -/
theorem wellFormed_lit (l : List Char) (args : List Arg) :
    wellFormed (CString.lit (String.ofList l)).bytes args =
      wellFormed ((l.map Decimal.byteOf).takeWhile (· ≠ 0)) (args.map Arg.blank) := by
  rw [wellFormed_map_blank, CString.bytes_lit]

-- the texts are longer than the default bound on nesting
set_option maxRecDepth 4000 in
theorem Query.wellFormed_format (q : Query) :
    wellFormed q.format.text.bytes q.format.args := by
  cases q with
  | userFile user md5 fileName forUpdate =>
      cases forUpdate <;> rw [Query.format, wellFormed_lit] <;>
        simp only [List.map, str, Arg.blank] <;> decide +kernel
  | fileCount md5 forUpdate =>
      cases forUpdate <;> rw [Query.format, wellFormed_lit] <;>
        simp only [List.map, str, Arg.blank] <;> decide +kernel
  | _ =>
      rw [Query.format, wellFormed_lit]
      simp only [List.map, str, Arg.blank]
      decide +kernel

set_option maxRecDepth 4000 in
theorem Update.wellFormed_formats (u : Update) :
    ∀ f ∈ u.formats, wellFormed f.text.bytes f.args := by
  cases u with
  | setFileCount md5 count =>
      rw [Update.formats, List.forall_mem_cons, List.forall_mem_singleton, wellFormed_lit,
        wellFormed_lit]
      simp only [List.map, str, Arg.blank]
      exact ⟨by decide +kernel, by decide +kernel⟩
  | _ =>
      rw [Update.formats, List.forall_mem_singleton, wellFormed_lit]
      simp only [List.map, str, Arg.blank]
      decide +kernel

/-! ## Lengths -/

/-- The bytes of a printed number. -/
def digits (n : Int) : Nat := (CString.ofInt n).length

@[simp] theorem size_str (s : CString) : (str s).size = s.length := rfl

@[simp] theorem size_int (n : Int) : (Arg.int n).size = digits n := rfl

namespace Format

/-- The bytes of the text that do not come from an argument. -/
def fixed (f : Format) : Nat := fixedLength f.text.bytes (f.args.map Arg.blank)

/-- The bytes that the arguments bring. -/
def printed (f : Format) : Nat := (f.args.map Arg.size).sum

theorem length_sql {f : Format} (h : wellFormed f.text.bytes f.args) :
    f.sql.length = f.fixed + f.printed :=
  length_format h

theorem fixed_lit (l : List Char) (args : List Arg) :
    (Format.mk (.lit (String.ofList l)) args).fixed =
      fixedLength ((l.map Decimal.byteOf).takeWhile (· ≠ 0)) (args.map Arg.blank) := by
  rw [fixed, CString.bytes_lit]

end Format

def Query.templateLength : Query → Nat
  | .passwordOf _ => 49
  | .userByName _ => 42
  | .userFilesCount _ => 49
  | .shareFilesCount => 36
  | .userFileListPage .. => 178
  | .userFile _ _ _ true => 87
  | .userFile _ _ _ false => 76
  | .fileCount _ true => 53
  | .fileCount _ false => 42
  | .shareFile .. => 63
  | .sharedStatus .. => 88
  | .fileId _ => 44
  | .userFilePv .. => 77
  | .shareFilePvForUpdate .. => 75
  | .shareFilesByPv => 63
  | .shareFileListPage .. => 162
  | .sharePicture _ => 92
  | .fileUrl _ => 39
  | .sharePicturesCount _ => 53
  | .sharePictureListPage .. => 330

def Update.templateLengths : Update → List Nat
  | .insertUser _ => [108]
  | .insertFileInfo _ => [90]
  | .setFileCount .. => [44, 42]
  | .deleteFileInfo _ => [36]
  | .insertUserFile _ => [108]
  | .setSharedStatus .. => [90]
  | .setUserFilePv .. => [79]
  | .deleteUserFile .. => [74]
  | .insertShareFile _ => [93]
  | .setShareFilePv .. => [66]
  | .deleteShareFile .. => [75]
  | .insertSharePicture _ => [125]
  | .setSharePicturePv .. => [55]
  | .deleteSharePicture .. => [64]

set_option maxRecDepth 4000 in
theorem Query.fixed_format (q : Query) : q.format.fixed = q.templateLength := by
  cases q with
  | userFile user md5 fileName forUpdate =>
      cases forUpdate <;> rw [Query.format, Query.templateLength, Format.fixed_lit] <;>
        simp only [List.map, str, Arg.blank] <;> decide +kernel
  | fileCount md5 forUpdate =>
      cases forUpdate <;> rw [Query.format, Query.templateLength, Format.fixed_lit] <;>
        simp only [List.map, str, Arg.blank] <;> decide +kernel
  | _ =>
      rw [Query.format, Query.templateLength, Format.fixed_lit]
      simp only [List.map, str, Arg.blank]
      decide +kernel

set_option maxRecDepth 4000 in
theorem Update.fixed_formats (u : Update) : u.formats.map Format.fixed = u.templateLengths := by
  cases u with
  | setFileCount md5 count =>
      rw [Update.formats, Update.templateLengths, List.map_cons, List.map_singleton,
        Format.fixed_lit, Format.fixed_lit]
      simp only [List.map, str, Arg.blank]
      decide +kernel
  | _ =>
      rw [Update.formats, Update.templateLengths, List.map_singleton, Format.fixed_lit]
      simp only [List.map, str, Arg.blank]
      decide +kernel

/-- The length of a statement's text. -/
theorem Query.length_sql (q : Query) :
    q.format.sql.length = q.templateLength + q.format.printed := by
  rw [Format.length_sql q.wellFormed_format, q.fixed_format]

theorem Update.length_sql (u : Update) :
    u.formats.map (fun f => f.sql.length) =
      List.zipWith (· + ·) u.templateLengths (u.formats.map Format.printed) := by
  rw [← u.fixed_formats, List.zipWith_map_left, List.zipWith_map_right, List.zipWith_self]
  exact List.map_congr_left fun f hf => Format.length_sql (u.wellFormed_formats f hf)

end Mysql
end TcMuzi
