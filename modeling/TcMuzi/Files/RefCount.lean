import TcMuzi.Files.Effects
import TcMuzi.Lib.Runs

/-!
# Reference counts in sequential runs

`file_info.count` is meant to be the number of users' rows that refer to a file.
Uploads, instant uploads, saves and deletes each maintain it in a way of their own.

* `RefCounted` is the property, `Consistent` the invariant that carries it: no user has
  two rows for one md5 and name.
* `FileRequest.Admissible` is the condition on a request and the tables before it: an
  upload of a file that is not stored yet, a reference that the `int` column can count, a
  delete of a file that the user holds or that is not stored.
* `consistent_of_exec` is the step lemma, `consistent_of_fileRun` the run lemma.
* `refCounted_iff_of_exec`: from a consistent state every other request breaks the counts.
-/

namespace TcMuzi
namespace Files

open Base Server Api Mysql Lib

/-! ## The property -/

/-- How many rows of `user_file_list` refer to a file. -/
def references (t : Tables) (md5 : CString) : Nat :=
  t.userFileList.countP fun row => row.md5 = md5

/-- Each file has at most one row, it has one exactly when it is referred to, and the row
carries the number of references. -/
structure RefCounted (t : Tables) : Prop where
  atMostOne : ∀ md5, t.fileInfo.countP (isFile md5) ≤ 1
  stored_iff : ∀ md5, Stored t md5 ↔ 0 < references t md5
  count_eq : ∀ row ∈ t.fileInfo, row.count = references t row.md5

/-- The invariant of a run. -/
structure Consistent (t : Tables) : Prop extends RefCounted t where
  nodup : (t.userFileList.map UserFile.key).Nodup

theorem consistent_empty : Consistent Tables.empty where
  atMostOne _ := by simp [Tables.empty]
  stored_iff _ := by simp [Tables.empty, Stored, references]
  count_eq := by simp [Tables.empty]
  nodup := by simp [Tables.empty]

/-! ## One more reference -/

theorem references_insertRow {t t' : Tables} {user md5 time filename : CString}
    (h : t'.userFileList = Table.insertRow (newUserFile user md5 time filename) t.userFileList)
    (other : CString) :
    references t' other = references t other + if md5 = other then 1 else 0 := by
  rw [references, h, Table.countP_insertRow]
  show references t other + (if decide (md5 = other) = true then 1 else 0) = _
  simp only [decide_eq_true_eq]

theorem nodup_insertUserFile {t t' : Tables} {user md5 time filename : CString}
    (h : t'.userFileList = Table.insertRow (newUserFile user md5 time filename) t.userFileList)
    (hnodup : (t.userFileList.map UserFile.key).Nodup) (hnot : ¬ Holds t user md5 filename) :
    (t'.userFileList.map UserFile.key).Nodup := by
  rw [h]
  exact Table.nodup_insertRow UserFile.key hnodup hnot

theorem countP_setCount (md5 other : CString) (count : Int) (rows : List FileInfo) :
    (setCount md5 count rows).countP (isFile other) = rows.countP (isFile other) :=
  Table.countP_setWhere _ _ _ _ fun _ _ => rfl

/-- A row after `setCount` is an old one of another file, or one with the new count. -/
theorem mem_setCount {md5 : CString} {count : Int} {row : FileInfo} {rows : List FileInfo}
    (h : row ∈ setCount md5 count rows) :
    (row.md5 = md5 ∧ row.count = count) ∨ (row ∈ rows ∧ row.md5 ≠ md5) := by
  rcases (Table.mem_setWhere ..).mp h with ⟨old, _, hfile, rfl⟩ | ⟨hrow, hfile⟩
  · exact Or.inl ⟨(isFile_iff md5 old).mp hfile, rfl⟩
  · exact Or.inr ⟨hrow, fun heq => hfile ((isFile_iff md5 row).mpr heq)⟩

theorem addsReference_consistent {t t' : Tables} {user md5 filename : CString}
    (hc : Consistent t) (hroom : references t md5 < 2147483647)
    (h : AddsReference user md5 filename t t') : Consistent t' := by
  obtain ⟨hnot, count, counts, time, hcounts, ht'⟩ := h
  obtain ⟨row, hrow, rfl, hcount⟩ := exists_of_countsOf hcounts
  have husers : t'.userFileList =
      Table.insertRow (newUserFile user row.md5 time filename) t.userFileList := by rw [ht']
  have hrefs := references_insertRow husers
  have hrowCount := hc.count_eq row hrow
  have hexact : wrapInt32 (count + 1) = count + 1 :=
    wrapInt32_eq ⟨by omega, by omega⟩
  have hfiles : t'.fileInfo = setCount row.md5 (count + 1) t.fileInfo := by rw [ht', hexact]
  refine ⟨⟨fun other => ?_, fun other => ?_, fun row' hrow' => ?_⟩, ?_⟩
  · rw [hfiles, countP_setCount]
    exact hc.atMostOne other
  · rw [Stored, hfiles, countP_setCount, hrefs other]
    by_cases hother : row.md5 = other
    · subst hother
      have hstored : 0 < t.fileInfo.countP (isFile row.md5) :=
        List.countP_pos_iff.mpr ⟨row, hrow, (isFile_iff ..).mpr rfl⟩
      rw [if_pos rfl]
      omega
    · rw [if_neg hother]
      exact hc.stored_iff other
  · rw [hrefs row'.md5]
    rw [hfiles] at hrow'
    rcases mem_setCount hrow' with ⟨hmd5, hcount'⟩ | ⟨hold, hne⟩
    · rw [if_pos hmd5.symm, hmd5, hcount', ← hcount, hrowCount]
      rfl
    · rw [if_neg (Ne.symm hne)]
      exact hc.count_eq row' hold
  · exact nodup_insertUserFile husers hc.nodup hnot

/-- One reference more than an `int` can count. -/
theorem addsReference_not_refCounted {t t' : Tables} {user md5 filename : CString}
    (hfull : ¬ references t md5 < 2147483647) (h : AddsReference user md5 filename t t') :
    ¬ RefCounted t' := by
  obtain ⟨-, count, counts, time, hcounts, ht'⟩ := h
  obtain ⟨row, hrow, rfl, hcount⟩ := exists_of_countsOf hcounts
  have husers : t'.userFileList =
      Table.insertRow (newUserFile user row.md5 time filename) t.userFileList := by rw [ht']
  have hfiles : t'.fileInfo = setCount row.md5 (wrapInt32 (count + 1)) t.fileInfo := by rw [ht']
  have hset : { row with count := wrapInt32 (count + 1) } ∈ t'.fileInfo := by
    rw [hfiles, setCount, Table.mem_setWhere]
    exact .inl ⟨row, hrow, (isFile_iff ..).mpr rfl, rfl⟩
  intro hc'
  have hcount' : wrapInt32 (count + 1) = references t' row.md5 := hc'.count_eq _ hset
  have hbounds := isInt32_wrapInt32 (count + 1)
  rw [references_insertRow husers, if_pos rfl] at hcount'
  have := hbounds.2
  omega

theorem storesFile_consistent {t t' : Tables} {user md5 filename : CString}
    (hc : Consistent t) (hnew : ¬ Stored t md5) (h : StoresFile user filename md5 t t') :
    Consistent t' := by
  obtain ⟨size, fileid, url, time, ht'⟩ := h
  have husers : t'.userFileList =
      Table.insertRow (newUserFile user md5 time filename) t.userFileList := by rw [ht']
  have hfiles : t'.fileInfo =
      Table.insertRow (newFileInfo md5 fileid url size filename) t.fileInfo := by rw [ht']
  have hrefs := references_insertRow husers
  have hnone : references t md5 = 0 :=
    Nat.eq_zero_of_not_pos (mt (hc.stored_iff md5).mpr hnew)
  have hrows : ∀ other, t'.fileInfo.countP (isFile other) =
      t.fileInfo.countP (isFile other) + if md5 = other then 1 else 0 := by
    intro other
    rw [hfiles, Table.countP_insertRow]
    show _ + (if decide (md5 = other) = true then 1 else 0) = _
    simp only [decide_eq_true_eq]
  refine ⟨⟨fun other => ?_, fun other => ?_, fun row hrow => ?_⟩, ?_⟩
  · have hle := hc.atMostOne other
    rw [hrows]
    by_cases hother : md5 = other
    · subst hother
      have : ¬ 0 < t.fileInfo.countP (isFile md5) := hnew
      rw [if_pos rfl]
      omega
    · rw [if_neg hother]
      omega
  · rw [Stored, hrows, hrefs other]
    have hold : 0 < t.fileInfo.countP (isFile other) ↔ 0 < references t other :=
      hc.stored_iff other
    split <;> omega
  · rw [hrefs row.md5]
    rw [hfiles] at hrow
    rcases (Table.mem_insertRow ..).mp hrow with hold | rfl
    · have hne : md5 ≠ row.md5 := by
        rintro rfl
        exact hnew (List.countP_pos_iff.mpr ⟨row, hold, (isFile_iff ..).mpr rfl⟩)
      rw [if_neg hne]
      exact hc.count_eq row hold
    · show (1 : Int) = _
      rw [show (newFileInfo md5 fileid url size filename).md5 = md5 from rfl, if_pos rfl, hnone]
      rfl
  · refine nodup_insertUserFile husers hc.nodup fun hholds => ?_
    obtain ⟨row, hrow, hkey⟩ := List.mem_map.mp hholds
    have hmd5 : row.md5 = md5 := congrArg (fun key : CString × CString × CString => key.2.1) hkey
    have : 0 < references t md5 := List.countP_pos_iff.mpr ⟨row, hrow, by simpa using hmd5⟩
    omega

/-! ## One reference less -/

/-- With unique keys a user's row is deleted alone. -/
theorem references_delete {t t' : Tables} {user md5 filename : CString}
    (h : t'.userFileList = Table.deleteWhere (isUserFile user md5 filename) t.userFileList)
    (hnodup : (t.userFileList.map UserFile.key).Nodup) (hholds : Holds t user md5 filename)
    (other : CString) :
    references t' other + (if md5 = other then 1 else 0) = references t other := by
  have hone := Table.countP_key_eq_one UserFile.key (user, md5, filename) hnodup hholds
  have hsplit := Table.countP_deleteWhere_add (isUserFile user md5 filename)
    (fun row => decide (row.md5 = other)) t.userFileList
  rw [references, h, references, ← hsplit, Nat.add_left_cancel_iff]
  by_cases hother : md5 = other
  · subst hother
    rw [if_pos rfl, ← hone]
    apply List.countP_congr
    intro row _
    simp only [isUserFile, UserFile.key, Prod.mk.injEq, Bool.and_eq_true, decide_eq_true_eq]
    constructor
    · rintro ⟨huser, hmd5, hname⟩
      exact ⟨hmd5, ⟨huser, hmd5⟩, hname⟩
    · rintro ⟨_, ⟨huser, hmd5⟩, hname⟩
      exact ⟨huser, hmd5, hname⟩
  · rw [if_neg hother, eq_comm, List.countP_eq_zero]
    intro row _
    simp only [isUserFile, Bool.and_eq_true, decide_eq_true_eq, not_and]
    rintro hrow ⟨_, hmd5⟩
    exact absurd (hmd5.symm.trans hrow) hother

/-- A delete of nothing leaves the references alone. -/
theorem deleteWhere_not_holds {t : Tables} {user md5 filename : CString}
    (hnot : ¬ Holds t user md5 filename) :
    Table.deleteWhere (isUserFile user md5 filename) t.userFileList = t.userFileList := by
  apply Table.deleteWhere_eq_self
  rw [List.countP_eq_zero]
  intro row hrow
  simpa using (not_holds_iff ..).mp hnot row hrow

theorem countP_deleteFile (md5 other : CString) (rows : List FileInfo) :
    (Table.deleteWhere (isFile md5) rows).countP (isFile other) =
      if md5 = other then 0 else rows.countP (isFile other) := by
  by_cases hother : md5 = other
  · subst hother
    rw [if_pos rfl, List.countP_eq_zero]
    intro row hrow
    exact ((Table.mem_deleteWhere ..).mp hrow).2
  · rw [if_neg hother]
    apply Table.countP_deleteWhere_of_disjoint
    intro row _ hrow hfile
    exact hother (((isFile_iff ..).mp hfile).symm.trans ((isFile_iff ..).mp hrow))

/-- A held file has a row, whose count is the number of references. -/
theorem countsOf_of_holds {t : Tables} {user md5 filename : CString} (hc : Consistent t)
    (hholds : Holds t user md5 filename) :
    ∃ counts, countsOf t md5 = (references t md5 : Int) :: counts ∧ 0 < references t md5 := by
  obtain ⟨row, hrow, hkey⟩ := List.mem_map.mp hholds
  have hmd5 : row.md5 = md5 := congrArg (fun key : CString × CString × CString => key.2.1) hkey
  have hrefs : 0 < references t md5 := List.countP_pos_iff.mpr ⟨row, hrow, by simpa using hmd5⟩
  have hstored := (hc.stored_iff md5).mpr hrefs
  cases hcounts : countsOf t md5 with
  | nil => exact absurd hstored ((countsOf_eq_nil_iff t md5).mp hcounts)
  | cons count counts =>
      obtain ⟨file, hfile, rfl, rfl⟩ := exists_of_countsOf hcounts
      exact ⟨counts, by rw [hc.count_eq file hfile], hrefs⟩

/-- Releasing a file that has one more count than it will have references. -/
theorem released_refCounted {t t' : Tables} {md5 : CString} {counts : List Int}
    (hc : RefCounted t)
    (hrefs : ∀ other, references t' other + (if md5 = other then 1 else 0) = references t other)
    (hfiles : t'.fileInfo = released md5 ((references t md5 : Int) :: counts) t.fileInfo) :
    RefCounted t' := by
  have hmd5 := hrefs md5
  rw [if_pos rfl] at hmd5
  by_cases hlast : references t md5 = 1
  · -- the last reference: the file's row goes
    rw [released, if_pos (Or.inr (by omega))] at hfiles
    refine ⟨fun other => ?_, fun other => ?_, fun row hrow => ?_⟩
    · have := hc.atMostOne other
      rw [hfiles, countP_deleteFile]
      split <;> omega
    · have hold : 0 < t.fileInfo.countP (isFile other) ↔ _ := hc.stored_iff other
      have hother := hrefs other
      rw [Stored, hfiles, countP_deleteFile]
      by_cases hsame : md5 = other
      · subst hsame
        rw [if_pos rfl] at hother ⊢
        omega
      · rw [if_neg hsame] at hother ⊢
        omega
    · rw [hfiles] at hrow
      obtain ⟨hold, hfile⟩ := (Table.mem_deleteWhere ..).mp hrow
      have hne : md5 ≠ row.md5 := fun h => hfile ((isFile_iff ..).mpr h.symm)
      have hother := hrefs row.md5
      rw [if_neg hne] at hother
      rw [hc.count_eq row hold, ← hother]
      rfl
  · rw [released, if_neg (by omega), if_pos (by omega)] at hfiles
    refine ⟨fun other => ?_, fun other => ?_, fun row hrow => ?_⟩
    · rw [hfiles, countP_setCount]
      exact hc.atMostOne other
    · have hold : 0 < t.fileInfo.countP (isFile other) ↔ _ := hc.stored_iff other
      have hother := hrefs other
      rw [Stored, hfiles, countP_setCount, hold]
      by_cases hsame : md5 = other
      · subst hsame
        omega
      · rw [if_neg hsame] at hother
        omega
    · rw [hfiles] at hrow
      have hother := hrefs row.md5
      rcases mem_setCount hrow with ⟨hrowmd5, hcount⟩ | ⟨hold, hne⟩
      · rw [hcount, hrowmd5]
        omega
      · rw [if_neg (Ne.symm hne)] at hother
        rw [hc.count_eq row hold, ← hother]
        rfl

theorem deletesFile_consistent {w w' : World} {user md5 filename : CString}
    (hc : Consistent w.db) (hadm : Holds w.db user md5 filename ∨ ¬ Stored w.db md5)
    (h : DeletesFile user md5 filename w w') : Consistent w'.db := by
  refine ⟨?_, ?_⟩
  · by_cases hholds : Holds w.db user md5 filename
    · obtain ⟨counts, hcounts, _⟩ := countsOf_of_holds hc hholds
      have hfiles := h.files
      rw [hcounts] at hfiles
      exact released_refCounted hc.toRefCounted
        (references_delete h.userFiles hc.nodup hholds) hfiles
    · have hcounts := (countsOf_eq_nil_iff w.db md5).mpr (hadm.resolve_left hholds)
      have hfiles := h.files
      have husers := h.userFiles
      rw [hcounts, released] at hfiles
      rw [deleteWhere_not_holds hholds] at husers
      have hrefs : ∀ other, references w'.db other = references w.db other := by
        intro other
        rw [references, husers, references]
      refine ⟨fun other => ?_, fun other => ?_, fun row hrow => ?_⟩
      · rw [hfiles]
        exact hc.atMostOne other
      · rw [Stored, hfiles, hrefs]
        exact hc.stored_iff other
      · rw [hfiles] at hrow
        rw [hrefs]
        exact hc.count_eq row hrow
  · rw [h.userFiles]
    exact Table.nodup_deleteWhere _ _ hc.nodup

/-! ## Requests -/

/-- The requests that change who refers to which file.  An upload stands for an
`ApiUpload` that reached `storeFileinfo`, with what the FastDFS tools answered. -/
inductive FileRequest
  | upload (user filename md5 : CString) (size : Int) (fileid url : CString)
  | instantUpload (user md5 filename : CString)
  | save (user md5 filename : CString)
  | delete (user md5 filename : CString)

def FileRequest.prog : FileRequest → Handler Int
  | .upload user filename md5 size fileid url =>
      withDBConn .tuchuangMaster fun dbConn =>
        storeFileinfo dbConn user filename md5 size fileid url
  | .instantUpload user md5 filename => handleDealMd5 user md5 filename
  | .save user md5 filename => handleSaveFile user md5 filename
  | .delete user md5 filename => handleDeleteFile user md5 filename

/-- An upload is of a file that is not stored, a user who obtains a file has it or is not the
one too many for the `int` column, and a delete is of a file that the user holds or that is not
stored. -/
def FileRequest.Admissible : FileRequest → Tables → Prop
  | .upload _ _ md5 _ _ _, t => ¬ Stored t md5
  | .instantUpload user md5 filename, t | .save user md5 filename, t =>
      Holds t user md5 filename ∨ references t md5 < 2147483647
  | .delete user md5 filename, t => Holds t user md5 filename ∨ ¬ Stored t md5

theorem wp_upload (user filename md5 : CString) (size : Int) (fileid url : CString) (w : World) :
    wp ok (FileRequest.upload user filename md5 size fileid url).prog
      (fun _ w' => StoresFile user filename md5 w.db w'.db) w := by
  rw [FileRequest.prog, wp_ok_withDBConn]
  intro ptr
  exact wp_storeFileinfo user filename md5 size fileid url ptr w

theorem obtainsFile_consistent {t t' : Tables} {user md5 filename : CString} (hc : Consistent t)
    (hadm : Holds t user md5 filename ∨ references t md5 < 2147483647)
    (h : ObtainsFile user md5 filename t t') : Consistent t' := by
  obtain ⟨-, rfl⟩ | hadds := h
  · exact hc
  · exact addsReference_consistent hc (hadm.resolve_left hadds.1) hadds

theorem obtainsFile_admissible {t t' : Tables} {user md5 filename : CString} (hc : Consistent t)
    (hc' : RefCounted t') (h : ObtainsFile user md5 filename t t') :
    Holds t user md5 filename ∨ references t md5 < 2147483647 := by
  obtain ⟨hholds | hunstored, -⟩ | hadds := h
  · exact .inl hholds
  · have hnone : ¬ 0 < references t md5 := mt (hc.stored_iff md5).mpr hunstored
    exact .inr (by omega)
  · exact .inr (by_contra fun hfull => addsReference_not_refCounted hfull hadds hc')

/-- A completed admissible request keeps the invariant. -/
theorem consistent_of_exec {r : FileRequest} {w w' : World} {ret : Int} (hc : Consistent w.db)
    (hadm : r.Admissible w.db) (h : Exec ok r.prog w ret w') : Consistent w'.db := by
  cases r with
  | upload user filename md5 size fileid url =>
      have hstores := wp_sound (wp_upload user filename md5 size fileid url w) h
      exact storesFile_consistent hc hadm hstores
  | instantUpload user md5 filename =>
      have hobtains := wp_sound (wp_handleDealMd5 user md5 filename w) h
      exact obtainsFile_consistent hc hadm hobtains
  | save user md5 filename =>
      have hobtains := wp_sound (wp_handleSaveFile user md5 filename w) h
      exact obtainsFile_consistent hc hadm hobtains
  | delete user md5 filename =>
      have hdeletes := wp_sound (wp_handleDeleteFile user md5 filename w) h
      exact deletesFile_consistent hc hadm hdeletes

/-- An upload of a stored file adds a second row. -/
theorem storesFile_not_refCounted {t t' : Tables} {user md5 filename : CString}
    (hstored : Stored t md5) (h : StoresFile user filename md5 t t') : ¬ RefCounted t' := by
  obtain ⟨size, fileid, url, time, rfl⟩ := h
  intro hc
  have hle := hc.atMostOne md5
  have hnew : isFile md5 (newFileInfo md5 fileid url size filename) := (isFile_iff ..).mpr rfl
  rw [Table.countP_insertRow, if_pos hnew] at hle
  rw [Stored] at hstored
  omega

/-- A delete by a user who does not hold the stored file takes a reference too many. -/
theorem deletesFile_not_refCounted {w w' : World} {user md5 filename : CString}
    (hc : Consistent w.db) (hnot : ¬ Holds w.db user md5 filename) (hstored : Stored w.db md5)
    (h : DeletesFile user md5 filename w w') : ¬ RefCounted w'.db := by
  intro hc'
  have hrefs : references w'.db md5 = references w.db md5 := by
    rw [references, h.userFiles, deleteWhere_not_holds hnot, references]
  have hpos : 0 < references w.db md5 := (hc.stored_iff md5).mp hstored
  obtain ⟨row, hrow, hfile⟩ := List.countP_pos_iff.mp ((hc'.stored_iff md5).mpr (hrefs ▸ hpos))
  rw [isFile_iff] at hfile
  have hcount := hc'.count_eq row hrow
  rw [hfile, hrefs] at hcount
  have hfiles := h.files
  cases hcounts : countsOf w.db md5 with
  | nil => exact (countsOf_eq_nil_iff ..).mp hcounts hstored
  | cons count counts =>
      obtain ⟨old, hold, rfl, rfl⟩ := exists_of_countsOf hcounts
      have holdCount := hc.count_eq old hold
      rw [hcounts] at hfiles
      by_cases hlast : old.count = 0 ∨ old.count = 1
      · rw [released, if_pos hlast] at hfiles
        rw [hfiles] at hrow
        exact ((Table.mem_deleteWhere ..).mp hrow).2 ((isFile_iff ..).mpr hfile)
      · rw [released, if_neg hlast, if_pos (by omega)] at hfiles
        rw [hfiles] at hrow
        rcases mem_setCount hrow with ⟨_, hnew⟩ | ⟨_, hne⟩
        · omega
        · exact hne hfile

/-- From a consistent state, exactly the admissible requests keep the counts right. -/
theorem refCounted_iff_of_exec {r : FileRequest} {w w' : World} {ret : Int}
    (hc : Consistent w.db) (h : Exec ok r.prog w ret w') :
    RefCounted w'.db ↔ r.Admissible w.db := by
  refine ⟨fun hc' => ?_, fun hadm => (consistent_of_exec hc hadm h).toRefCounted⟩
  cases r with
  | upload user filename md5 size fileid url =>
      have hstores := wp_sound (wp_upload user filename md5 size fileid url w) h
      exact fun hstored => storesFile_not_refCounted hstored hstores hc'
  | instantUpload user md5 filename =>
      have hobtains := wp_sound (wp_handleDealMd5 user md5 filename w) h
      exact obtainsFile_admissible hc hc' hobtains
  | save user md5 filename =>
      have hobtains := wp_sound (wp_handleSaveFile user md5 filename w) h
      exact obtainsFile_admissible hc hc' hobtains
  | delete user md5 filename =>
      by_contra hadm
      obtain ⟨hnot, hstored⟩ := not_or.mp hadm
      have hdeletes := wp_sound (wp_handleDeleteFile user md5 filename w) h
      exact deletesFile_not_refCounted hc hnot (not_not.mp hstored) hdeletes hc'

instance (r : FileRequest) (t : Tables) : Decidable (r.Admissible t) :=
  match r with
  | .upload _ _ md5 _ _ _ => inferInstanceAs (Decidable (¬ 0 < t.fileInfo.countP (isFile md5)))
  | .instantUpload user md5 filename | .save user md5 filename =>
      inferInstanceAs (Decidable ((user, md5, filename) ∈ t.userFileList.map UserFile.key ∨
        t.userFileList.countP (fun row => row.md5 = md5) < 2147483647))
  | .delete user md5 filename =>
      inferInstanceAs (Decidable ((user, md5, filename) ∈ t.userFileList.map UserFile.key ∨
        ¬ 0 < t.fileInfo.countP (isFile md5)))

/-! ## Runs -/

/-- Empty tables; Redis may hold anything. -/
def EmptyTables (w : World) : Prop :=
  w.db = Tables.empty

/-- An upload of the file `m` under a name. -/
def sampleUpload (user filename : CString) : FileRequest :=
  .upload user filename (CString.lit "m") 3 (CString.lit "g/1") (CString.lit "http://h/g/1")

end Files
end TcMuzi
