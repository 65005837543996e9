import TcMuzi.Api.DealSharefile
import TcMuzi.Api.Sequential
import TcMuzi.Api.Upload

/-!
# What the handlers do to a user's files

One lemma per handler: the tables and the Redis records after a sequential run of it in
which every command succeeds.  The invariants over runs are derived from these effects
and never look at a handler again.
-/

namespace TcMuzi
namespace Files

open Base Server Redis Api Mysql Lib

/-! ## Files and their rows -/

/-- The user has a file of that md5 and name. -/
def Holds (t : Tables) (user md5 filename : CString) : Prop :=
  (user, md5, filename) ∈ t.userFileList.map UserFile.key

instance (t : Tables) (user md5 filename : CString) : Decidable (Holds t user md5 filename) := by
  unfold Holds
  infer_instance

/-- The file has a row in `file_info`. -/
def Stored (t : Tables) (md5 : CString) : Prop :=
  0 < t.fileInfo.countP (isFile md5)

theorem isUserFile_iff (user md5 filename : CString) (row : UserFile) :
    isUserFile user md5 filename row ↔ row.key = (user, md5, filename) := by
  simp [isUserFile, UserFile.key, and_assoc]

theorem isFile_iff (md5 : CString) (row : FileInfo) : isFile md5 row ↔ row.md5 = md5 := by
  simp [isFile]

theorem holds_iff (t : Tables) (user md5 filename : CString) :
    Holds t user md5 filename ↔ ∃ row ∈ t.userFileList, isUserFile user md5 filename row := by
  simp [Holds, isUserFile_iff]

theorem not_holds_iff (t : Tables) (user md5 filename : CString) :
    ¬ Holds t user md5 filename ↔
      ∀ row ∈ t.userFileList, isUserFile user md5 filename row = false := by
  rw [holds_iff]
  simp

theorem isEmpty_userFiles_iff {t : Tables} {user md5 filename : CString} :
    (t.userFileList.filter (isUserFile user md5 filename)).isEmpty ↔
      ¬ Holds t user md5 filename := by
  rw [List.isEmpty_iff, List.filter_eq_nil_iff, holds_iff]
  simp

/-- The counts that a query finds are those of rows of the file. -/
theorem exists_of_countsOf {t : Tables} {md5 : CString} {count : Int} {counts : List Int}
    (h : countsOf t md5 = count :: counts) :
    ∃ row ∈ t.fileInfo, row.md5 = md5 ∧ row.count = count := by
  have hmem : count ∈ countsOf t md5 := by simp [h]
  obtain ⟨row, hrow, hcount⟩ := List.mem_map.mp hmem
  obtain ⟨hrow, hfile⟩ := List.mem_filter.mp hrow
  exact ⟨row, hrow, (isFile_iff md5 row).mp hfile, hcount⟩

theorem countsOf_eq_nil_iff (t : Tables) (md5 : CString) :
    countsOf t md5 = [] ↔ ¬ Stored t md5 := by
  simp [countsOf, Stored]

/-! ## What the handlers do -/

/-- `file_info` after its rows of one file got a new count. -/
def setCount (md5 : CString) (count : Int) (rows : List FileInfo) : List FileInfo :=
  Table.setWhere (isFile md5) (fun row => { row with count := count }) rows

/-- The user did not have the file, which is stored: its count goes up, and the user's
row appears. -/
def AddsReference (user md5 filename : CString) (t t' : Tables) : Prop :=
  ¬ Holds t user md5 filename ∧
    ∃ count counts time, countsOf t md5 = count :: counts ∧
      t' = { t with
        fileInfo := setCount md5 (wrapInt32 (count + 1)) t.fileInfo
        userFileList := Table.insertRow (newUserFile user md5 time filename) t.userFileList }

/-- What a user who wants a stored file gets: nothing new when the user has it already or it is
not stored. -/
def ObtainsFile (user md5 filename : CString) (t t' : Tables) : Prop :=
  (Holds t user md5 filename ∨ ¬ Stored t md5) ∧ t' = t ∨ AddsReference user md5 filename t t'

/-- Both inserts of an upload. -/
def StoresFile (user filename md5 : CString) (t t' : Tables) : Prop :=
  ∃ size fileid url time,
    t' = { t with
      fileInfo := Table.insertRow (newFileInfo md5 fileid url size filename) t.fileInfo
      userFileList := Table.insertRow (newUserFile user md5 time filename) t.userFileList }

/-- `file_info` after `releaseFile`: it looks at the count of the first row. -/
def released (md5 : CString) (counts : List Int) (rows : List FileInfo) : List FileInfo :=
  match counts with
  | [] => rows
  | count :: _ =>
      if count = 0 ∨ count = 1 then Table.deleteWhere (isFile md5) rows
      else if 0 < count then setCount md5 (count - 1) rows
      else rows

theorem wp_addReference (user md5 filename : CString) (ptr : Ptr) (w : World)
    (hnot : ¬ Holds w.db user md5 filename) :
    wp ok (addReference ptr user md5 filename)
      (fun succeed w' => w'.snapshot = w.snapshot ∧
        (succeed = true → AddsReference user md5 filename w.db w'.db) ∧
        (succeed = false → ¬ Stored w.db md5)) w := by
  rw [addReference, wp_bind, wp_ok_getResultOneCount]
  intro _
  cases hcounts : countsOf w.db md5 with
  | nil => simpa using (countsOf_eq_nil_iff w.db md5).mp hcounts
  | cons count counts =>
      show wp ok (if (0 : Int) ≠ -1 ∧ (0 : Int) ≠ 1 then _ else _) _ w
      rw [if_pos (by decide), wp_bind, wp_ok_executeUpdate]
      rintro _ n t hupdate
      cases hupdate
      rw [if_pos (by simp), wp_bind, wp_ok_currentTime]
      intro time
      rw [wp_ok_executeCreate]
      rintro _ n t hinsert
      cases hinsert
      exact ⟨rfl, fun _ => ⟨hnot, count, counts, time, hcounts, rfl⟩, fun h => by cases h⟩

/-- An instant upload adds a reference or does nothing. -/
theorem wp_handleDealMd5 (user md5 filename : CString) (w : World) :
    wp ok (handleDealMd5 user md5 filename)
      (fun _ w' => ObtainsFile user md5 filename w.db w'.db) w := by
  rw [handleDealMd5, wp_ok_withDBConn]
  intro ptr
  rw [dealMd5Transaction, wp_bind, wp_ok_startTransaction]
  intro _
  rw [wp_bind, wp_ok_checkwhetherHaveRecord]
  rintro _ rows hrows
  cases hrows
  by_cases hholds : Holds w.db user md5 filename
  · have hfound := mt isEmpty_userFiles_iff.mp (not_not_intro hholds)
    simp [hfound, ObtainsFile, hholds]
  · rw [isEmpty_userFiles_iff.mpr hholds, if_pos rfl, if_neg (by decide), wp_bind]
    refine wp_mono (wp_addReference user md5 filename ptr _ hholds) ?_
    rintro succeed w' ⟨hsnapshot, hadds, hnone⟩
    cases succeed with
    | true =>
        have hobtains : ObtainsFile user md5 filename w.db w'.db := .inr (hadds rfl)
        simpa using fun _ => hobtains
    | false =>
        have hobtains : ObtainsFile user md5 filename w.db w.db := .inl ⟨.inr (hnone rfl), rfl⟩
        simpa [hsnapshot] using fun _ => hobtains

theorem wp_saveReference (user md5 filename : CString) (ptr : Ptr) (w : World)
    (hnot : ¬ Holds w.db user md5 filename) :
    wp ok (saveReference ptr user md5 filename)
      (fun _ w' => ObtainsFile user md5 filename w.db w'.db) w := by
  rw [saveReference, wp_bind, wp_ok_getResultOneCount]
  intro _
  cases hcounts : countsOf w.db md5 with
  | nil => simpa using .inl ⟨.inr ((countsOf_eq_nil_iff w.db md5).mp hcounts), rfl⟩
  | cons count counts =>
      show wp ok (if (0 : Int) ≠ 0 then _ else _) _ w
      rw [if_neg (by decide), wp_bind, wp_ok_executeUpdate]
      rintro _ n t hupdate
      cases hupdate
      -- the update is never without effect: it changes the row that was read
      have haffected : 0 < Table.changed (isFile md5)
          (fun row => { row with count := wrapInt32 (count + 1) }) w.db.fileInfo := by
        obtain ⟨row, hrow, hfile, hcount⟩ := exists_of_countsOf hcounts
        refine Table.changed_pos hrow ((isFile_iff md5 row).mpr hfile) fun hsame => ?_
        have := congrArg FileInfo.count hsame
        simp only [← hcount] at this
        exact wrapInt32_add_one_ne row.count this
      rw [if_pos (by simpa using haffected), wp_bind, wp_ok_currentTime]
      intro time
      rw [wp_bind, wp_ok_executeCreate]
      rintro _ n t hinsert
      cases hinsert
      exact Or.inr ⟨hnot, count, counts, time, hcounts, rfl⟩

/-- A save adds a reference or does nothing. -/
theorem wp_handleSaveFile (user md5 filename : CString) (w : World) :
    wp ok (handleSaveFile user md5 filename)
      (fun _ w' => ObtainsFile user md5 filename w.db w'.db) w := by
  rw [handleSaveFile, wp_ok_withDBConn]
  intro ptr
  rw [wp_ok_withCacheConn]
  intro cacheConn
  rw [wp_bind, wp_ok_checkwhetherHaveRecord]
  rintro _ rows hrows
  cases hrows
  by_cases hholds : Holds w.db user md5 filename
  · have hfound := mt isEmpty_userFiles_iff.mp (not_not_intro hholds)
    simp [hfound, ObtainsFile, hholds]
  · rw [isEmpty_userFiles_iff.mpr hholds, if_pos rfl, if_neg (by decide), if_neg (by decide), wp_bind]
    refine wp_mono (wp_saveReference user md5 filename ptr w hholds) ?_
    intro saved w' hsaved
    rw [wp_ite]
    refine ⟨fun _ => hsaved, fun _ => ?_⟩
    rw [wp_bind]
    exact wp_ok_of_redisOnly (uses_cacheIncrCount fun _ _ => trivial) fun _ _ => hsaved

/-- An upload makes both inserts, with what it was given. -/
theorem wp_storeFileinfo_rows (user filename md5 : CString) (size : Int) (fileid url : CString)
    (ptr : Ptr) (w : World) :
    wp ok (storeFileinfo ptr user filename md5 size fileid url)
      (fun _ w' => ∃ time, w'.db = { w.db with
        fileInfo := Table.insertRow (newFileInfo md5 fileid url size filename) w.db.fileInfo
        userFileList :=
          Table.insertRow (newUserFile user md5 time filename) w.db.userFileList }) w := by
  rw [storeFileinfo, wp_bind, wp_ok_executeCreate]
  rintro _ n t hfile
  cases hfile
  rw [if_pos rfl, wp_bind, wp_ok_currentTime]
  intro time
  rw [wp_bind, wp_ok_executeCreate]
  rintro _ n t huser
  cases huser
  exact ⟨time, rfl⟩

theorem wp_storeFileinfo (user filename md5 : CString) (size : Int) (fileid url : CString)
    (ptr : Ptr) (w : World) :
    wp ok (storeFileinfo ptr user filename md5 size fileid url)
      (fun _ w' => StoresFile user filename md5 w.db w'.db) w := by
  refine wp_mono (wp_storeFileinfo_rows user filename md5 size fileid url ptr w) ?_
  rintro _ w' ⟨time, hrows⟩
  exact ⟨size, fileid, url, time, hrows⟩

/-- Replace the rows of `file_info`. -/
def withFileInfo (w : World) (rows : List FileInfo) : World :=
  { w with db := { w.db with fileInfo := rows } }

theorem wp_removeFile (ptr : Ptr) (md5 : CString) (w : World) :
    wp ok (removeFile ptr md5)
      (fun _ w' => w' = withFileInfo w (Table.deleteWhere (isFile md5) w.db.fileInfo)) w := by
  rw [removeFile, wp_bind, wp_ok_executeQuery]
  rintro _ rows hrows
  show wp ok (executeDrop ptr (.deleteFileInfo md5) >>= _) _ w
  rw [wp_bind, wp_ok_executeDrop]
  rintro _ n t hdrop
  cases hdrop
  rw [wp_bind, removeFileFromFastDfs, wp_ok_system]
  intro ret
  rfl

/-- Deleting the rows whose count was just written deletes the rows. -/
theorem deleteWhere_setCount (md5 : CString) (count : Int) (rows : List FileInfo) :
    Table.deleteWhere (isFile md5) (setCount md5 count rows) =
      Table.deleteWhere (isFile md5) rows := by
  induction rows with
  | nil => rfl
  | cons row rows ih =>
      simp only [setCount, Table.setWhere, Table.deleteWhere, List.map_cons, List.filter_cons]
        at ih ⊢
      by_cases hfile : isFile md5 row
      · have hset : isFile md5 { row with count := count } = true := hfile
        simp [hfile, hset, ih]
      · simp [hfile, ih]

theorem wp_releaseFile (ptr : Ptr) (md5 : CString) (w : World) :
    wp ok (releaseFile ptr md5)
      (fun _ w' => w' = withFileInfo w (released md5 (countsOf w.db md5) w.db.fileInfo)) w := by
  rw [releaseFile, wp_bind, wp_ok_getResultOneCount]
  intro _
  cases hcounts : countsOf w.db md5 with
  | nil => simp [released, withFileInfo]
  | cons count counts =>
      show wp ok (if (0 : Int) ≠ 0 then _ else _) _ w
      rw [if_neg (by decide)]
      by_cases hpos : 0 < count
      · rw [if_pos hpos, wp_bind, wp_ok_executeUpdate]
        rintro _ n t hupdate
        cases hupdate
        have haffected : 0 < Table.changed (isFile md5)
            (fun row => { row with count := count - 1 }) w.db.fileInfo := by
          obtain ⟨row, hrow, hfile, hcount⟩ := exists_of_countsOf hcounts
          refine Table.changed_pos hrow ((isFile_iff md5 row).mpr hfile) fun hsame => ?_
          have := congrArg FileInfo.count hsame
          simp only at this
          omega
        rw [if_pos (by simpa using haffected)]
        by_cases hlast : count - 1 = 0
        · rw [if_pos hlast]
          refine wp_mono (wp_removeFile ptr md5 _) ?_
          intro _ w' hremoved
          rw [hremoved, released, if_pos (by omega)]
          have := deleteWhere_setCount md5 (count - 1) w.db.fileInfo
          rw [← this]
          rfl
        · rw [if_neg hlast]
          show _ = _
          rw [released, if_neg (by omega), if_pos hpos]
          rfl
      · rw [if_neg hpos]
        by_cases hzero : count = 0
        · rw [if_pos hzero]
          refine wp_mono (wp_removeFile ptr md5 w) ?_
          intro _ w' hremoved
          rw [hremoved, released, if_pos (Or.inl hzero)]
        · rw [if_neg hzero]
          show w = _
          rw [released, if_neg (by omega), if_neg hpos]
          rfl


/-! ## The share records of a file -/

/-- `shared_status` as `sharedState` reads it: that of the user's first row, 0 without
one. -/
def sharedFlag (t : Tables) (user md5 filename : CString) : Int :=
  match t.userFileList.filter (isUserFile user md5 filename) with
  | [] => 0
  | row :: _ => row.sharedStatus

/-- The share list and what Redis says about the shares stay as they are. -/
structure SameShares (w w' : World) : Prop where
  shares : w'.db.shareFileList = w.db.shareFileList
  zset : zsetOf w'.redis filePublicZset = zsetOf w.redis filePublicZset
  hash : hashOf w'.redis fileNameHash = hashOf w.redis fileNameHash
  count : counterOf w'.redis filePublicCount = counterOf w.redis filePublicCount

/-- The user's rows leave the share list and the public count goes down by one, but not
below 0. -/
structure DropsShare (user md5 filename : CString) (w w' : World) : Prop where
  shares : w'.db.shareFileList =
    Table.deleteWhere (isShareFileOf user md5 filename) w.db.shareFileList
  count : ∃ n, counterOf w.redis filePublicCount = .ok n ∧
    counterOf w'.redis filePublicCount = .ok (max (n - 1) 0)

/-- The Redis records of a file go. -/
structure DropsRecords (fileid : CString) (w w' : World) : Prop where
  zset : ∃ members, zsetOf w.redis filePublicZset = some members ∧
    zsetOf w'.redis filePublicZset = some (members.erase fileid)
  hash : ∃ fields, hashOf w.redis fileNameHash = some fields ∧
    hashOf w'.redis fileNameHash = some (fields.erase fileid)

/-- The Redis records of all files stay. -/
structure SameRecords (w w' : World) : Prop where
  zset : zsetOf w'.redis filePublicZset = zsetOf w.redis filePublicZset
  hash : hashOf w'.redis fileNameHash = hashOf w.redis fileNameHash

theorem wp_sharedState {dbConn cacheConn : Ptr} {user md5 filename : CString}
    {Q : Option (Int × Bool) → World → Prop} {w : World}
    (h : ∀ members, zsetOf w.redis filePublicZset = some members →
      Q (some (if fileidOf md5 filename ∈ members then (1, true)
        else (sharedFlag w.db user md5 filename, false))) w) :
    wp ok (sharedState dbConn cacheConn user md5 filename) Q w := by
  rw [sharedState, wp_bind, CacheConn.wp_ok_zsetExist]
  intro _ members hmembers
  have hQ := h members hmembers
  by_cases hmem : fileidOf md5 filename ∈ members
  · rw [if_pos hmem] at hQ ⊢
    rw [if_pos rfl]
    exact hQ
  · rw [if_neg hmem] at hQ ⊢
    rw [if_neg (by decide), if_pos rfl, wp_bind, wp_ok_getResultOneStatus]
    intro _
    unfold sharedFlag at hQ
    cases hrows : w.db.userFileList.filter (isUserFile user md5 filename) with
    | nil => simpa [hrows] using hQ
    | cons row rows => simpa [hrows] using hQ

/-- What becomes of the shares when a user's file is deleted. -/
def Unshares (user md5 filename : CString) (w w' : World) : Prop :=
  ∃ members, zsetOf w.redis filePublicZset = some members ∧
    if fileidOf md5 filename ∈ members then
      DropsShare user md5 filename w w' ∧ DropsRecords (fileidOf md5 filename) w w'
    else if sharedFlag w.db user md5 filename = 1 then
      DropsShare user md5 filename w w' ∧ SameRecords w w'
    else
      SameShares w w'

/-- Later steps that leave the shares alone do not change what became of them. -/
theorem Unshares.trans_same {user md5 filename : CString} {w w₁ w₂ : World}
    (h : Unshares user md5 filename w w₁) (hsame : SameShares w₁ w₂) :
    Unshares user md5 filename w w₂ := by
  obtain ⟨members, hmembers, hcase⟩ := h
  refine ⟨members, hmembers, ?_⟩
  have hdrops : DropsShare user md5 filename w w₁ → DropsShare user md5 filename w w₂ := by
    rintro ⟨hshares, n, hn, hcount⟩
    exact ⟨hsame.shares.trans hshares, n, hn, hsame.count.trans hcount⟩
  by_cases hmem : fileidOf md5 filename ∈ members
  · rw [if_pos hmem] at hcase ⊢
    obtain ⟨hdrop, ⟨ms, hms, hms'⟩, fields, hfields, hfields'⟩ := hcase
    exact ⟨hdrops hdrop, ⟨ms, hms, hsame.zset.trans hms'⟩, fields, hfields, hsame.hash.trans hfields'⟩
  · rw [if_neg hmem] at hcase ⊢
    by_cases hflag : sharedFlag w.db user md5 filename = 1
    · rw [if_pos hflag] at hcase ⊢
      obtain ⟨hdrop, hzset, hhash⟩ := hcase
      exact ⟨hdrops hdrop, hsame.zset.trans hzset, hsame.hash.trans hhash⟩
    · rw [if_neg hflag] at hcase ⊢
      obtain ⟨hshares, hzset, hhash, hcount⟩ := hcase
      exact ⟨hsame.shares.trans hshares, hsame.zset.trans hzset, hsame.hash.trans hhash,
        hsame.count.trans hcount⟩

/-- The tables that the reference counts are about. -/
def SameFiles (t t' : Tables) : Prop :=
  t'.userFileList = t.userFileList ∧ t'.fileInfo = t.fileInfo

theorem wp_removeShare_records (dbConn cacheConn : Ptr) (user md5 filename : CString) (w : World) :
    wp ok (removeShare dbConn cacheConn user md5 filename true)
      (fun ret w' => ret = 0 ∧ SameFiles w.db w'.db ∧ DropsShare user md5 filename w w' ∧
        DropsRecords (fileidOf md5 filename) w w') w := by
  rw [removeShare, wp_bind, wp_ok_executeDrop]
  rintro _ n t hdrop
  cases hdrop
  rw [if_pos rfl, wp_bind]
  refine wp_ok_cacheDecrCount fun n ks hn hks hframe => ?_
  rw [if_neg (by decide), if_pos rfl, wp_bind, CacheConn.wp_ok_zsetZrem]
  intro _ members hmembers
  rw [wp_bind, CacheConn.wp_ok_hdel]
  intro _ fields hfields
  have hframe' := sameBut_storeZset ks filePublicZset (members.erase (fileidOf md5 filename))
  have hframe'' := sameBut_storeHash
    (storeZset ks filePublicZset (members.erase (fileidOf md5 filename))) fileNameHash
    (fields.erase (fileidOf md5 filename))
  refine ⟨rfl, ⟨rfl, rfl⟩, ⟨rfl, n, hn, ?_⟩, ⟨members, ?_, ?_⟩, fields, ?_, ?_⟩
  · exact (hframe''.counterOf (by decide)).trans ((hframe'.counterOf (by decide)).trans hks)
  · exact (hframe.zsetOf (by decide)).symm.trans hmembers
  · exact (hframe''.zsetOf (by decide)).trans (zsetOf_storeZset ..)
  · exact ((hframe'.hashOf (by decide)).trans (hframe.hashOf (by decide))).symm.trans hfields
  · exact hashOf_storeHash ..

theorem wp_removeShare_flag (dbConn cacheConn : Ptr) (user md5 filename : CString) (w : World) :
    wp ok (removeShare dbConn cacheConn user md5 filename false)
      (fun ret w' => ret = 0 ∧ SameFiles w.db w'.db ∧ DropsShare user md5 filename w w' ∧
        SameRecords w w') w := by
  rw [removeShare, wp_bind, wp_ok_executeDrop]
  rintro _ n t hdrop
  cases hdrop
  rw [if_pos rfl, wp_bind]
  refine wp_ok_cacheDecrCount fun n ks hn hks hframe => ?_
  rw [if_neg (by decide), if_neg (by decide)]
  exact ⟨rfl, ⟨rfl, rfl⟩, ⟨rfl, n, hn, hks⟩, hframe.zsetOf (by decide), hframe.hashOf (by decide)⟩

/-- Deciding whether the file is shared and dropping the share. -/
theorem wp_unshare {α : Type} {dbConn cacheConn : Ptr} {user md5 filename : CString}
    {k : Option (Int × Bool) → Handler α} {Q : α → World → Prop} {w : World}
    (h : ∀ isShared redisHasRecord,
      wp ok (removeIfShared dbConn cacheConn user md5 filename isShared redisHasRecord)
        (fun ret w' => ret = 0 ∧ SameFiles w.db w'.db ∧ Unshares user md5 filename w w') w →
      wp ok (k (some (isShared, redisHasRecord))) Q w) :
    wp ok (sharedState dbConn cacheConn user md5 filename >>= k) Q w := by
  rw [wp_bind]
  refine wp_sharedState fun members hmembers => ?_
  by_cases hmem : fileidOf md5 filename ∈ members
  · rw [if_pos hmem]
    refine h 1 true ?_
    rw [removeIfShared, if_pos rfl]
    refine wp_mono (wp_removeShare_records ..) ?_
    rintro ret w' ⟨hret, hfiles, hdrops⟩
    exact ⟨hret, hfiles, members, hmembers, by rwa [if_pos hmem]⟩
  · rw [if_neg hmem]
    refine h (sharedFlag w.db user md5 filename) false ?_
    rw [removeIfShared]
    by_cases hflag : sharedFlag w.db user md5 filename = 1
    · rw [if_pos hflag]
      refine wp_mono (wp_removeShare_flag ..) ?_
      rintro ret w' ⟨hret, hfiles, hdrops⟩
      exact ⟨hret, hfiles, members, hmembers, by rwa [if_neg hmem, if_pos hflag]⟩
    · rw [if_neg hflag]
      refine ⟨rfl, ⟨rfl, rfl⟩, members, hmembers, ?_⟩
      rw [if_neg hmem, if_neg hflag]
      exact ⟨rfl, rfl, rfl, rfl⟩

/-- The counter of a user's files is none of the keys that all users share. -/
theorem fileUserCount_ne (user : CString) :
    filePublicZset ≠ fileUserCount ++ user ∧ fileNameHash ≠ fileUserCount ++ user ∧
      filePublicCount ≠ fileUserCount ++ user := by
  have hbyte : (fileUserCount ++ user).bytes[5]? = some 85 := by
    rw [CString.bytes_append, List.getElem?_append_left (by decide)]
    decide
  refine ⟨fun h => ?_, fun h => ?_, fun h => ?_⟩ <;> rw [← h] at hbyte <;> revert hbyte <;> decide

/-- The user's rows of that md5 and name go, and a counter of the user's own moves. -/
theorem wp_removeUserFile (dbConn cacheConn : Ptr) (user md5 filename : CString) (w : World) :
    wp ok (removeUserFile dbConn cacheConn user md5 filename)
      (fun ret w' => ret = 0 ∧
        w'.db = { w.db with
          userFileList := Table.deleteWhere (isUserFile user md5 filename) w.db.userFileList } ∧
        SameBut (fileUserCount ++ user) w.redis w'.redis) w := by
  rw [removeUserFile, wp_bind]
  refine wp_ok_cacheDecrCount fun n ks hn hks hframe => ?_
  rw [if_neg (by decide), wp_bind, wp_ok_executeDrop]
  rintro _ n t hdrop
  cases hdrop
  exact ⟨rfl, rfl, hframe⟩

/-- What a delete does. -/
structure DeletesFile (user md5 filename : CString) (w w' : World) : Prop where
  unshares : Unshares user md5 filename w w'
  userFiles : w'.db.userFileList =
    Table.deleteWhere (isUserFile user md5 filename) w.db.userFileList
  files : w'.db.fileInfo = released md5 (countsOf w.db md5) w.db.fileInfo

theorem wp_handleDeleteFile (user md5 filename : CString) (w : World) :
    wp ok (handleDeleteFile user md5 filename) (fun _ w' => DeletesFile user md5 filename w w') w := by
  rw [handleDeleteFile, wp_ok_withDBConn]
  intro ptr
  rw [wp_ok_withCacheConn]
  intro cacheConn
  refine wp_unshare fun isShared redisHasRecord hremove => ?_
  show wp ok (removeIfShared .. >>= _) _ w
  rw [wp_bind]
  refine wp_mono hremove ?_
  rintro removed w₁ ⟨rfl, hfiles, hunshares⟩
  rw [if_neg (by decide), wp_bind]
  refine wp_mono (wp_removeUserFile ptr cacheConn user md5 filename w₁) ?_
  rintro dropped w₂ ⟨rfl, hdb, hframe⟩
  rw [if_neg (by decide), wp_bind]
  refine wp_mono (wp_releaseFile ptr md5 _) ?_
  rintro ret w' rfl
  obtain ⟨hzset, hhash, hcount⟩ := fileUserCount_ne user
  refine ⟨hunshares.trans_same ⟨?_, ?_, ?_, ?_⟩, ?_, ?_⟩
  · show w₂.db.shareFileList = _
    rw [hdb]
  · exact hframe.zsetOf hzset
  · exact hframe.hashOf hhash
  · exact hframe.counterOf hcount
  · show w₂.db.userFileList = _
    rw [hdb, hfiles.1]
  · show released md5 ((w₂.db.fileInfo.filter (isFile md5)).map (·.count)) w₂.db.fileInfo = _
    rw [hdb, hfiles.2]
    rfl

/-! ## Cancelling, sharing and counting downloads -/

/-- What a cancellation does. -/
structure CancelsShare (user md5 filename : CString) (w w' : World) : Prop where
  drops : DropsShare user md5 filename w w'
  records : DropsRecords (fileidOf md5 filename) w w'

theorem wp_handleCancelShareFile (user md5 filename : CString) (w : World) :
    wp ok (handleCancelShareFile user md5 filename)
      (fun _ w' => CancelsShare user md5 filename w w') w := by
  rw [handleCancelShareFile, wp_ok_withDBConn]
  intro ptr
  rw [wp_ok_withCacheConn]
  intro cacheConn
  rw [wp_bind, wp_ok_executeUpdate]
  rintro _ n t hupdate
  cases hupdate
  rw [if_pos (by simp), wp_bind]
  refine wp_ok_cacheDecrCount fun n ks hn hks hframe => ?_
  rw [if_neg (by decide), wp_bind, wp_ok_executeDrop]
  rintro _ m t hdrop
  cases hdrop
  rw [if_pos rfl, wp_bind, removeShareRecords, wp_bind, CacheConn.wp_ok_zsetZrem]
  intro _ members hmembers
  rw [if_neg (by decide), CacheConn.wp_ok_hdel]
  intro _ fields hfields
  have hframe' := sameBut_storeZset ks filePublicZset (members.erase (fileidOf md5 filename))
  have hframe'' := sameBut_storeHash
    (storeZset ks filePublicZset (members.erase (fileidOf md5 filename))) fileNameHash
    (fields.erase (fileidOf md5 filename))
  refine ⟨⟨rfl, n, hn, ?_⟩, ⟨members, ?_, ?_⟩, fields, ?_, ?_⟩
  · exact (hframe''.counterOf (by decide)).trans ((hframe'.counterOf (by decide)).trans hks)
  · exact (hframe.zsetOf (by decide)).symm.trans hmembers
  · exact (hframe''.zsetOf (by decide)).trans (zsetOf_storeZset ..)
  · exact ((hframe'.hashOf (by decide)).trans (hframe.hashOf (by decide))).symm.trans hfields
  · exact hashOf_storeHash ..

/-- A file is put into the Redis records. -/
structure AddsRecords (fileid filename : CString) (score : Int) (w w' : World) : Prop where
  zset : ∃ members, zsetOf w.redis filePublicZset = some members ∧
    zsetOf w'.redis filePublicZset = some (members.insert fileid score)
  hash : ∃ fields, hashOf w.redis fileNameHash = some fields ∧
    hashOf w'.redis fileNameHash = some (fields.insert fileid filename)

/-- The share list has a row for that md5 and name. -/
def Shared (t : Tables) (md5 filename : CString) : Prop :=
  (md5, filename) ∈ t.shareFileList.map ShareFile.key

instance (t : Tables) (md5 filename : CString) : Decidable (Shared t md5 filename) :=
  inferInstanceAs (Decidable (_ ∈ _))

theorem isShareFile_iff (md5 filename : CString) (row : ShareFile) :
    isShareFile md5 filename row ↔ row.key = (md5, filename) := by
  simp [isShareFile, ShareFile.key]

theorem shared_iff (t : Tables) (md5 filename : CString) :
    Shared t md5 filename ↔ ∃ row ∈ t.shareFileList, isShareFile md5 filename row := by
  simp [Shared, isShareFile_iff]

/-- What sharing a file does: nothing when Redis knows it, the Redis records when only the
share list has it, and otherwise a new row and its records. -/
def SharesFile (user md5 filename : CString) (w w' : World) : Prop :=
  ∃ members, zsetOf w.redis filePublicZset = some members ∧
    if fileidOf md5 filename ∈ members then
      w' = w
    else if Shared w.db md5 filename then
      w'.db = w.db ∧ AddsRecords (fileidOf md5 filename) filename 0 w w'
    else
      (∃ time, w'.db.shareFileList =
        Table.insertRow ⟨user, md5, time, filename, 0⟩ w.db.shareFileList) ∧
      AddsRecords (fileidOf md5 filename) filename 0 w w'

/-- What sharing a file does to the public count: a new row counts one more. -/
def CountsShare (md5 filename : CString) (w w' : World) : Prop :=
  ∃ members, zsetOf w.redis filePublicZset = some members ∧
    if fileidOf md5 filename ∈ members ∨ Shared w.db md5 filename then
      w'.db.shareFileList.length = w.db.shareFileList.length ∧
        counterOf w'.redis filePublicCount = counterOf w.redis filePublicCount
    else
      w'.db.shareFileList.length = w.db.shareFileList.length + 1 ∧
        ∃ n, counterOf w.redis filePublicCount = .ok n ∧
          counterOf w'.redis filePublicCount = .ok (n + 1)

/-- The two records of a file, whatever happened to the tables and the counters. -/
theorem wp_addRecords {α : Type} {cacheConn : Ptr} {fileid filename : CString} {score : Int}
    {k : Int → Handler α} {Q : α → World → Prop} {w : World}
    (h : ∀ ret w', w'.db = w.db →
      counterOf w'.redis filePublicCount = counterOf w.redis filePublicCount →
      AddsRecords fileid filename score w w' → wp ok (k ret) Q w') :
    wp ok (CacheConn.zsetAdd cacheConn filePublicZset score fileid >>= fun _ =>
      CacheConn.hset cacheConn fileNameHash fileid filename >>= k) Q w := by
  rw [wp_bind, CacheConn.wp_ok_zsetAdd]
  intro _ members hmembers
  rw [wp_bind, CacheConn.wp_ok_hset]
  intro _ fields hfields
  have hframe := sameBut_storeZset w.redis filePublicZset (members.insert fileid score)
  have hframe' := sameBut_storeHash
    (storeZset w.redis filePublicZset (members.insert fileid score)) fileNameHash
    (fields.insert fileid filename)
  refine h _ _ rfl ?_ ⟨⟨members, hmembers, ?_⟩, fields, ?_, ?_⟩
  · exact (hframe'.counterOf (by decide)).trans (hframe.counterOf (by decide))
  · exact (hframe'.zsetOf (by decide)).trans (zsetOf_storeZset ..)
  · exact (hframe.hashOf (by decide)).symm.trans hfields
  · rw [withRedis_redis, hashOf_storeHash]

/-- Without a connection to Redis a share never completes. -/
theorem wp_shareIfNew_null (ptr : Ptr) (user md5 filename : CString) (Q : Int → World → Prop)
    (w : World) : wp ok (shareIfNew ptr .null user md5 filename) Q w := by
  rw [shareIfNew, wp_bind, wp_ok_checkwhetherHaveRecord]
  intro _ rows _
  rw [wp_ite]
  refine ⟨fun _ => trivial, fun _ => ?_⟩
  rw [storeShare, wp_bind, wp_ok_executeUpdate]
  intro _ n t _
  rw [wp_ite]
  refine ⟨fun _ => ?_, fun hfailed => absurd (by simp) hfailed⟩
  rw [wp_bind, wp_ok_currentTime]
  intro time
  rw [wp_bind, wp_ok_executeCreate]
  intro _ m t' _
  rw [if_pos rfl]
  trivial

theorem wp_storeShare (ptr cacheConn : Ptr) (user md5 filename : CString) (w : World) :
    wp ok (storeShare ptr cacheConn user md5 filename)
      (fun _ w' => (∃ time, w'.db.shareFileList =
        Table.insertRow ⟨user, md5, time, filename, 0⟩ w.db.shareFileList) ∧
        AddsRecords (fileidOf md5 filename) filename 0 w w' ∧
        ∃ n, counterOf w.redis filePublicCount = .ok n ∧
          counterOf w'.redis filePublicCount = .ok (n + 1)) w := by
  rw [storeShare, wp_bind, wp_ok_executeUpdate]
  rintro _ n t hupdate
  cases hupdate
  rw [if_pos (by simp), wp_bind, wp_ok_currentTime]
  intro time
  rw [wp_bind, wp_ok_executeCreate]
  rintro _ m t hinsert
  cases hinsert
  rw [if_pos rfl, wp_bind]
  refine wp_ok_cacheIncrCount fun n ks hn hks hframe => ?_
  rw [if_neg (by decide)]
  refine wp_addRecords fun _ w' hdb hcount hadds => ?_
  obtain ⟨⟨members, hmembers, hzset⟩, fields, hfields, hhash⟩ := hadds
  refine ⟨⟨time, by rw [hdb]; rfl⟩, ⟨⟨members, ?_, hzset⟩, fields, ?_, hhash⟩, n, hn, ?_⟩
  · exact (hframe.zsetOf (by decide)).symm.trans hmembers
  · exact (hframe.hashOf (by decide)).symm.trans hfields
  · exact hcount.trans hks

theorem wp_handleShareFile (user md5 filename : CString) (w : World) :
    wp ok (handleShareFile user md5 filename)
      (fun _ w' => SharesFile user md5 filename w w' ∧ CountsShare md5 filename w w') w := by
  rw [handleShareFile, wp_ok_withDBConn]
  intro ptr
  rw [wp_ok_withCacheConn]
  intro cacheConn
  cases cacheConn with
  | null => exact wp_shareIfNew_null ptr user md5 filename _ w
  | conn =>
      rw [wp_bind, shareExist, CacheConn.wp_ok_zsetExist]
      intro _ members hmembers
      by_cases hmem : fileidOf md5 filename ∈ members
      · rw [if_pos hmem, if_pos rfl]
        refine ⟨⟨members, hmembers, by rw [if_pos hmem]⟩, members, hmembers, ?_⟩
        rw [if_pos (Or.inl hmem)]
        exact ⟨rfl, rfl⟩
      · rw [if_neg hmem, if_neg (by decide), if_pos rfl, shareIfNew, wp_bind,
          wp_ok_checkwhetherHaveRecord]
        rintro _ rows hrows
        cases hrows
        by_cases hshared : Shared w.db md5 filename
        · have hfound : (w.db.shareFileList.filter (isShareFile md5 filename)).isEmpty = false := by
            simpa using (shared_iff ..).mp hshared
          rw [hfound, if_pos (by decide)]
          refine wp_addRecords fun _ w' hdb hcount hadds =>
            ⟨⟨members, hmembers, ?_⟩, members, hmembers, ?_⟩
          · rw [if_neg hmem, if_pos hshared]
            exact ⟨hdb, hadds⟩
          · rw [if_pos (Or.inr hshared), hdb]
            exact ⟨rfl, hcount⟩
        · have hempty : (w.db.shareFileList.filter (isShareFile md5 filename)).isEmpty = true := by
            simpa using (not_congr (shared_iff ..)).mp hshared
          rw [hempty, if_neg (by decide)]
          refine wp_mono (wp_storeShare ptr .conn user md5 filename w) ?_
          rintro _ w' ⟨⟨time, hrows⟩, hadds, hcount⟩
          refine ⟨⟨members, hmembers, ?_⟩, members, hmembers, ?_⟩
          · rw [if_neg hmem, if_neg hshared]
            exact ⟨⟨time, hrows⟩, hadds⟩
          · rw [if_neg (not_or.mpr ⟨hmem, hshared⟩), hrows]
            exact ⟨by simp [Table.insertRow], hcount⟩

/-- The download count that the transaction reads: that of the first row. -/
def sharePvs (t : Tables) (md5 filename : CString) : List Int :=
  (t.shareFileList.filter (isShareFile md5 filename)).map (·.pv)

/-- What counting a download of a shared file does. -/
def CountsDownload (md5 filename : CString) (w w' : World) : Prop :=
  match sharePvs w.db md5 filename with
  | [] => w'.db = w.db ∧ w'.redis = w.redis
  | pv :: _ =>
      w'.db.shareFileList = Table.setWhere (isShareFile md5 filename)
        (fun row => { row with pv := wrapInt32 (pv + 1) }) w.db.shareFileList ∧
      ∃ members, zsetOf w.redis filePublicZset = some members ∧
        if fileidOf md5 filename ∈ members then
          zsetOf w'.redis filePublicZset = some (members.insert (fileidOf md5 filename)
            ((members.lookup (fileidOf md5 filename)).getD 0 + 1)) ∧
          hashOf w'.redis fileNameHash = hashOf w.redis fileNameHash
        else
          AddsRecords (fileidOf md5 filename) filename (wrapInt32 (pv + 1)) w w'

theorem wp_handlePvFile (md5 filename : CString) (w : World) :
    wp ok (handlePvFile md5 filename) (fun _ w' => CountsDownload md5 filename w w') w := by
  rw [handlePvFile, wp_ok_withDBConn]
  intro ptr
  rw [wp_ok_withCacheConn]
  intro cacheConn
  rw [wp_bind, incrSharePv, wp_bind, wp_ok_startTransaction]
  intro _
  rw [wp_bind, wp_ok_executeQuery]
  rintro _ rows hrows
  obtain rfl : sharePvs w.db md5 filename = rows := Option.some.inj hrows
  unfold CountsDownload
  cases hpvs : sharePvs w.db md5 filename with
  | nil =>
      show wp ok (rollback ptr >>= _) _ _
      rw [wp_bind, wp_ok_rollback]
      intro _
      exact ⟨rfl, rfl⟩
  | cons pv pvs =>
      show wp ok (executeUpdate ptr (.setShareFilePv md5 filename (wrapInt32 (pv + 1))) false >>= _)
        _ _
      rw [wp_bind, wp_ok_executeUpdate]
      rintro _ n t hupdate
      cases hupdate
      rw [if_pos (by simp), wp_bind, wp_ok_commit]
      intro _
      show wp ok (incrShareScore cacheConn md5 filename pv >>= _) _ _
      rw [wp_bind, incrShareScore, wp_bind, CacheConn.wp_ok_zsetExist]
      intro _ members hmembers
      by_cases hmem : fileidOf md5 filename ∈ members
      · rw [if_pos hmem, if_pos rfl, CacheConn.wp_ok_zsetIncr]
        intro _ members' hmembers'
        obtain rfl : members = members' := Option.some.inj (hmembers.symm.trans hmembers')
        refine ⟨rfl, members, hmembers, ?_⟩
        rw [if_pos hmem]
        have hframe := sameBut_storeZset w.redis filePublicZset
          (members.insert (fileidOf md5 filename)
            ((members.lookup (fileidOf md5 filename)).getD 0 + 1))
        exact ⟨by rw [withRedis_redis, zsetOf_storeZset], hframe.hashOf (by decide)⟩
      · rw [if_neg hmem, if_neg (by decide), if_pos rfl]
        refine wp_addRecords fun _ w' hdb _ hadds => ?_
        refine ⟨by rw [hdb], members, hmembers, ?_⟩
        rw [if_neg hmem]
        obtain ⟨hzset, hhash⟩ := hadds
        exact ⟨hzset, hhash⟩

end Files
end TcMuzi
