import TcMuzi.Api.Sharefiles
import TcMuzi.Files.ShareFrame
import TcMuzi.Lib.Index
import TcMuzi.Redis.Answers

/-!
# The paths that put a shared file back into Redis

Three pieces of code insert a member that `FILE_PUBLIC_ZSET` has lost: sharing a file that
MySQL knows already, counting a download of it, and the rebuild at the start of the server.
`PutsBack` asks that the member then has the row's `pv` and the row's name;
`putsBack_iff` says exactly when each path does that.
-/

namespace TcMuzi
namespace Files

open Base Server Redis Api Mysql Lib

variable (sys : (c : SysCall) → c.Ret) {w : World} {members : ZSet} {fields : Hash}

/-! ## The property -/

/-- The member of the row has the row's `pv` as its score, and the row's name. -/
structure Recorded (w : World) (row : ShareFile) : Prop where
  score : scoreOf w (shareFileid row) = some row.pv
  name : nameOf w (shareFileid row) = some row.fileName

inductive RepairPath
  -- `handleShareFile` for a user
  | share (user : CString)
  -- `handlePvFile` of a shared file
  | countDownload
  -- `InitializePvCache`
  | rebuild

def RepairPath.prog (row : ShareFile) : RepairPath → Handler Int
  | .share user => handleShareFile user row.md5 row.fileName
  | .countDownload => handlePvFile row.md5 row.fileName
  | .rebuild => initializePvCache

/-- The path ends with a record of the row at place `i` of the share list, as that row is
at the end. -/
def PutsBack (path : RepairPath) (i : Nat) (row : ShareFile) (w : World) : Prop :=
  ∃ code w' row', run (okReply sys) (path.prog row) w = some (code, w') ∧
    w'.db.shareFileList[i]? = some row' ∧ row'.key = row.key ∧ Recorded w' row'

/-- A run has one end. -/
theorem putsBack_iff_recorded {path : RepairPath} {i : Nat} {row row' : ShareFile} {code : Int}
    {w' : World} (hrun : run (okReply sys) (path.prog row) w = some (code, w'))
    (hrow' : w'.db.shareFileList[i]? = some row') (hkey : row'.key = row.key) :
    PutsBack sys path i row w ↔ Recorded w' row' := by
  constructor
  · rintro ⟨code₁, w₁, row₁, hrun₁, hrow₁, _, hrecorded⟩
    have hend : (code₁, w₁) = (code, w') := Option.some.inj (hrun₁.symm.trans hrun)
    obtain ⟨rfl, rfl⟩ := Prod.mk.inj hend
    obtain rfl : row₁ = row' := Option.some.inj (hrow₁.symm.trans hrow')
    exact hrecorded
  · intro hrecorded
    exact ⟨code, w', row', hrun, hrow', hkey, hrecorded⟩

theorem recorded_iff {row : ShareFile} (hzset : zsetOf w.redis filePublicZset = some members)
    (hhash : hashOf w.redis fileNameHash = some fields) :
    Recorded w row ↔ members.lookup (shareFileid row) = some row.pv ∧
      fields.lookup (shareFileid row) = some row.fileName := by
  have hscore : scoreOf w (shareFileid row) = members.lookup (shareFileid row) := by
    rw [scoreOf, hzset]
    rfl
  have hname : nameOf w (shareFileid row) = fields.lookup (shareFileid row) := by
    rw [nameOf, hhash]
    rfl
  rw [← hscore, ← hname]
  exact ⟨fun h => ⟨h.score, h.name⟩, fun h => ⟨h.1, h.2⟩⟩

/-! ## Adding a record -/

/-- The member and its name. -/
theorem exists_run_addRecord (hzset : zsetOf w.redis filePublicZset = some members)
    (hhash : hashOf w.redis fileNameHash = some fields) (score : Int) (fileid filename : CString) :
    ∃ ks, (∀ {α : Type} (k : Handler α),
        run (okReply sys) (do
          let _ ← CacheConn.zsetAdd .conn filePublicZset score fileid
          let _ ← CacheConn.hset .conn fileNameHash fileid filename
          k) w = run (okReply sys) k (withRedis w ks)) ∧
      zsetOf ks filePublicZset = some (members.insert fileid score) ∧
      hashOf ks fileNameHash = some (fields.insert fileid filename) := by
  let added := storeZset w.redis filePublicZset (members.insert fileid score)
  have hhash' : hashOf added fileNameHash = some fields :=
    (SameBut.hashOf (sameBut_storeZset _ _ _) (by decide)).trans hhash
  refine ⟨storeHash added fileNameHash (fields.insert fileid filename), ?_, ?_, ?_⟩
  · intro α k
    rw [run_bind_of_eq (run_zsetAdd sys hzset score fileid),
      run_bind_of_eq (run_hset sys (w := withRedis w added) hhash' fileid filename)]
    rfl
  · rw [SameBut.zsetOf (sameBut_storeHash _ _ _) (by decide)]
    exact zsetOf_storeZset ..
  · exact hashOf_storeHash ..

/-! ## The rebuild -/

/-- The rows in the order in which the rebuild reads them. -/
def sharesByPv (t : Tables) : List ShareFile :=
  t.shareFileList.insertionSort fun a b => b.pv ≤ a.pv

theorem exists_run_loadShares (rows : List ShareFile)
    (hzset : zsetOf w.redis filePublicZset = some members)
    (hhash : hashOf w.redis fileNameHash = some fields) :
    ∃ ks, run (okReply sys) (loadShares .conn rows) w = some ((), withRedis w ks) ∧
      zsetOf ks filePublicZset = some (insertAll shareFileid ShareFile.pv members rows) ∧
      hashOf ks fileNameHash = some (insertAll shareFileid ShareFile.fileName fields rows) := by
  induction rows generalizing w members fields with
  | nil => exact ⟨w.redis, rfl, hzset, hhash⟩
  | cons row rows ih =>
      obtain ⟨ks, hrun, hzset', hhash'⟩ :=
        exists_run_addRecord sys hzset hhash row.pv (shareFileid row) row.fileName
      obtain ⟨ks', hrest, hmembers, hfields⟩ := ih (w := withRedis w ks) hzset' hhash'
      exact ⟨ks', (hrun _).trans hrest, hmembers, hfields⟩

/-- Whatever Redis held before, the rebuild leaves the records of the share list. -/
theorem exists_run_initializePvCache (w : World) :
    ∃ ks, run (okReply sys) initializePvCache w = some (0, withRedis w ks) ∧
      zsetOf ks filePublicZset = some (insertAll shareFileid ShareFile.pv ∅ (sharesByPv w.db)) ∧
      hashOf ks fileNameHash =
        some (insertAll shareFileid ShareFile.fileName ∅ (sharesByPv w.db)) := by
  let cleared := withRedis w ((w.redis.erase filePublicZset).erase fileNameHash)
  have hnozset : cleared.redis.lookup filePublicZset = none := by
    have hother : filePublicZset ≠ fileNameHash := by decide
    exact (AList.lookup_erase_ne hother).trans (AList.lookup_erase _ _)
  have hnohash : cleared.redis.lookup fileNameHash = none := AList.lookup_erase _ _
  have hzset : zsetOf cleared.redis filePublicZset = some ∅ := by
    simp [zsetOf, valueAt, hnozset]
  have hhash : hashOf cleared.redis fileNameHash = some ∅ := by
    simp [hashOf, valueAt, hnohash]
  obtain ⟨ks, hload, hmembers, hfields⟩ :=
    exists_run_loadShares sys (sharesByPv w.db) hzset hhash
  refine ⟨ks, ?_, hmembers, hfields⟩
  have hquery : Query.shareFilesByPv.exec w.db = some (sharesByPv w.db) := rfl
  rw [initializePvCache, run_withDBConn, run_withCacheConn, run_bind_of_eq (run_del ..),
    run_bind_of_eq (run_del ..)]
  refine (run_bind_of_eq (run_executeQuery sys (w := cleared) hquery) _).trans ?_
  exact run_bind_of_eq hload _

/-! ## The other two paths -/

/-- A file that MySQL knows and Redis does not is put back with the score 0. -/
theorem exists_run_handleShareFile {row : ShareFile} (user : CString)
    (hrow : row ∈ w.db.shareFileList) (hzset : zsetOf w.redis filePublicZset = some members)
    (hlost : shareFileid row ∉ members) (hhash : hashOf w.redis fileNameHash = some fields) :
    ∃ ks, run (okReply sys) (handleShareFile user row.md5 row.fileName) w =
        some (shareHad, withRedis w ks) ∧
      zsetOf ks filePublicZset = some (members.insert (shareFileid row) 0) ∧
      hashOf ks fileNameHash = some (fields.insert (shareFileid row) row.fileName) := by
  obtain ⟨ks, hadd, hmembers, hfields⟩ :=
    exists_run_addRecord sys hzset hhash 0 (shareFileid row) row.fileName
  refine ⟨ks, ?_, hmembers, hfields⟩
  have hexist : run (okReply sys) (shareExist .conn row.md5 row.fileName) w = some (0, w) := by
    have hexist := run_zsetExist sys hzset (shareFileid row)
    rw [if_neg hlost] at hexist
    exact hexist
  have hrecord : run (okReply sys)
      (checkwhetherHaveRecord .conn (.shareFile row.md5 row.fileName)) w = some (1, w) := by
    have hquery : (Query.shareFile row.md5 row.fileName).exec w.db =
        some (w.db.shareFileList.filter (isShareFile row.md5 row.fileName)) := rfl
    have hfound : row ∈ w.db.shareFileList.filter (isShareFile row.md5 row.fileName) := by
      simp [hrow, isShareFile]
    rw [checkwhetherHaveRecord, run_bind_of_eq (run_executeQuery sys hquery)]
    cases hrows : w.db.shareFileList.filter (isShareFile row.md5 row.fileName) with
    | nil => simp [hrows] at hfound
    | cons first rest => rfl
  rw [handleShareFile, run_withDBConn, run_withCacheConn, run_bind_of_eq hexist]
  show run (okReply sys) (shareIfNew .conn .conn user row.md5 row.fileName) w = _
  rw [shareIfNew, run_bind_of_eq hrecord]
  exact hadd (.ret shareHad)

/-- The tables after a counted download. -/
def countedTables (row : ShareFile) (pv : Int) (t : Tables) : Tables :=
  { t with
    shareFileList := Table.setWhere (isShareFile row.md5 row.fileName)
      (fun r => { r with pv := wrapInt32 (pv + 1) }) t.shareFileList }

/-- A counted download writes to Redis what it wrote to every row of the file. -/
theorem exists_run_handlePvFile {row : ShareFile} (hrow : row ∈ w.db.shareFileList)
    (hzset : zsetOf w.redis filePublicZset = some members) (hlost : shareFileid row ∉ members)
    (hhash : hashOf w.redis fileNameHash = some fields) :
    ∃ pv ks, run (okReply sys) (handlePvFile row.md5 row.fileName) w =
        some (httpRespOk, ⟨countedTables row pv w.db, none, ks⟩) ∧
      zsetOf ks filePublicZset = some (members.insert (shareFileid row) (wrapInt32 (pv + 1))) ∧
      hashOf ks fileNameHash = some (fields.insert (shareFileid row) row.fileName) := by
  have hfound : row.pv ∈ (w.db.shareFileList.filter (isShareFile row.md5 row.fileName)).map
      (·.pv) := List.mem_map_of_mem (by simp [hrow, isShareFile])
  cases hpvs : (w.db.shareFileList.filter (isShareFile row.md5 row.fileName)).map (·.pv) with
  | nil => simp [hpvs] at hfound
  | cons pv pvs =>
      let begun : World := { w with snapshot := some w.db }
      have hincr : run (okReply sys) (incrSharePv .conn row.md5 row.fileName) w =
          some (some pv, ⟨countedTables row pv w.db, none, w.redis⟩) := by
        have hquery : (Query.shareFilePvForUpdate row.md5 row.fileName).exec begun.db =
            some (pv :: pvs) := congrArg some hpvs
        have hupdate :
            (Update.setShareFilePv row.md5 row.fileName (wrapInt32 (pv + 1))).exec begun.db =
              some (_, countedTables row pv w.db) := rfl
        rw [incrSharePv, run_bind_of_eq (run_startTransaction sys w),
          run_bind_of_eq (run_executeQuery sys hquery)]
        dsimp only
        rw [run_bind_of_eq (run_executeUpdate sys hupdate false), Bool.not_false, Bool.or_true,
          if_pos rfl, run_bind_of_eq (run_commit sys _)]
        rfl
      let committed : World := ⟨countedTables row pv w.db, none, w.redis⟩
      obtain ⟨ks, hadd, hmembers, hfields⟩ := exists_run_addRecord sys (w := committed) hzset hhash
        (wrapInt32 (pv + 1)) (shareFileid row) row.fileName
      refine ⟨pv, ks, ?_, hmembers, hfields⟩
      have hscore : run (okReply sys) (incrShareScore .conn row.md5 row.fileName pv) committed =
          some (0, withRedis committed ks) := by
        have hexist := run_zsetExist sys (w := committed) hzset (shareFileid row)
        rw [if_neg hlost] at hexist
        exact (run_bind_of_eq hexist _).trans (hadd (.ret 0))
      rw [handlePvFile, run_withDBConn, run_withCacheConn, run_bind_of_eq hincr]
      exact run_bind_of_eq hscore _

/-! ## When the paths agree -/

/-- The last row of a member that the rebuild reads. -/
def lastRead (t : Tables) (fileid : CString) : Option ShareFile :=
  (sharesByPv t).reverse.find? fun row => shareFileid row = fileid

/-- Sharing needs the `pv` of an unused file; the rebuild lets the last row of a member
decide. -/
def RepairPath.Agrees (w : World) (row : ShareFile) : RepairPath → Prop
  | .share _ => row.pv = 0
  | .countDownload => True
  | .rebuild => ∃ last, lastRead w.db (shareFileid row) = some last ∧
      last.pv = row.pv ∧ last.fileName = row.fileName

section Paths

variable {i : Nat} {row : ShareFile}

theorem putsBack_share_iff (user : CString) (hrow : w.db.shareFileList[i]? = some row)
    (hzset : zsetOf w.redis filePublicZset = some members) (hlost : shareFileid row ∉ members)
    (hhash : hashOf w.redis fileNameHash = some fields) :
    PutsBack sys (.share user) i row w ↔ row.pv = 0 := by
  obtain ⟨ks, hrun, hmembers, hfields⟩ :=
    exists_run_handleShareFile sys user (List.mem_of_getElem? hrow) hzset hlost hhash
  have hends : run (okReply sys) (RepairPath.prog row (.share user)) w =
      some (shareHad, withRedis w ks) := hrun
  rw [putsBack_iff_recorded sys hends hrow rfl, recorded_iff (w := withRedis w ks) hmembers hfields,
    AList.lookup_insert, AList.lookup_insert]
  constructor
  · rintro ⟨hscore, _⟩
    exact (Option.some.inj hscore).symm
  · intro hpv
    exact ⟨congrArg some hpv.symm, rfl⟩

theorem putsBack_countDownload (hrow : w.db.shareFileList[i]? = some row)
    (hzset : zsetOf w.redis filePublicZset = some members) (hlost : shareFileid row ∉ members)
    (hhash : hashOf w.redis fileNameHash = some fields) :
    PutsBack sys .countDownload i row w := by
  obtain ⟨pv, ks, hrun, hmembers, hfields⟩ :=
    exists_run_handlePvFile sys (List.mem_of_getElem? hrow) hzset hlost hhash
  have hfile : isShareFile row.md5 row.fileName row = true := by
    simp [isShareFile]
  have hrow' : (countedTables row pv w.db).shareFileList[i]? =
      some { row with pv := wrapInt32 (pv + 1) } := by
    simp [countedTables, Table.setWhere, hrow, hfile]
  have hends : run (okReply sys) (RepairPath.prog row .countDownload) w =
      some (httpRespOk, ⟨countedTables row pv w.db, none, ks⟩) := hrun
  rw [putsBack_iff_recorded sys hends hrow' rfl, recorded_iff hmembers hfields]
  exact ⟨AList.lookup_insert _, AList.lookup_insert _⟩

theorem putsBack_rebuild_iff (hrow : w.db.shareFileList[i]? = some row) :
    PutsBack sys .rebuild i row w ↔ RepairPath.Agrees w row .rebuild := by
  obtain ⟨ks, hrun, hmembers, hfields⟩ := exists_run_initializePvCache sys w
  have hends : run (okReply sys) (RepairPath.prog row .rebuild) w = some (0, withRedis w ks) := hrun
  rw [putsBack_iff_recorded sys hends hrow rfl, recorded_iff (w := withRedis w ks) hmembers hfields,
    lookup_insertAll, lookup_insertAll]
  show (Option.map ShareFile.pv (lastRead w.db (shareFileid row))).or none = _ ∧
    (Option.map ShareFile.fileName (lastRead w.db (shareFileid row))).or none = _ ↔ _
  simp only [RepairPath.Agrees]
  cases lastRead w.db (shareFileid row) with
  | none => simp
  | some last => simp

/-- A shared file that Redis has lost comes back with its `pv` and its name exactly when
the condition of the path holds. -/
theorem putsBack_iff (path : RepairPath) (hrow : w.db.shareFileList[i]? = some row)
    (hzset : zsetOf w.redis filePublicZset = some members) (hlost : shareFileid row ∉ members)
    (hhash : hashOf w.redis fileNameHash = some fields) :
    PutsBack sys path i row w ↔ path.Agrees w row := by
  cases path with
  | share user => exact putsBack_share_iff sys user hrow hzset hlost hhash
  | countDownload =>
      exact iff_of_true (putsBack_countDownload sys hrow hzset hlost hhash) trivial
  | rebuild => exact putsBack_rebuild_iff sys hrow

end Paths

/-- A file of its own member is restored by the rebuild. -/
theorem agrees_rebuild_of_nodup (hfileids : (w.db.shareFileList.map shareFileid).Nodup)
    {row : ShareFile} (hrow : row ∈ w.db.shareFileList) : RepairPath.rebuild.Agrees w row := by
  have hmem : row ∈ (sharesByPv w.db).reverse := by
    simpa [sharesByPv] using hrow
  have hsome : (lastRead w.db (shareFileid row)).isSome :=
    List.find?_isSome.mpr ⟨row, hmem, decide_eq_true rfl⟩
  obtain ⟨last, hlast⟩ := Option.isSome_iff_exists.mp hsome
  have hread : last ∈ w.db.shareFileList := by
    simpa [sharesByPv] using List.mem_of_find?_eq_some hlast
  have hfileid : shareFileid last = shareFileid row := by
    simpa using List.find?_some hlast
  obtain rfl := Table.eq_of_key_eq shareFileid hfileids hread hrow hfileid
  exact ⟨last, hlast, rfl, rfl⟩

/-! ## A file with seven downloads -/

def sevenDownloads : ShareFile :=
  ⟨CString.lit "u", CString.lit "m", CString.lit "2024-05-01 12:00:00", CString.lit "a.png", 7⟩

/-- Redis has lost everything. -/
def redisLost : World :=
  { World.empty with db := { Tables.empty with shareFileList := [sevenDownloads] } }

theorem putsBack_iff_sevenDownloads :
    PutsBack sampleSys .countDownload 0 sevenDownloads redisLost := by
  have hzset : zsetOf redisLost.redis filePublicZset = some ∅ := rfl
  have hhash : hashOf redisLost.redis fileNameHash = some ∅ := rfl
  exact (putsBack_iff sampleSys .countDownload rfl hzset (AList.notMem_empty _) hhash).mpr trivial

/-- The share by another user puts the member back with the score 0. -/
theorem not_putsBack_sevenDownloads :
    ¬ PutsBack sampleSys (.share (CString.lit "v")) 0 sevenDownloads redisLost := by
  have hzset : zsetOf redisLost.redis filePublicZset = some ∅ := rfl
  have hhash : hashOf redisLost.redis fileNameHash = some ∅ := rfl
  rw [putsBack_share_iff sampleSys (CString.lit "v") rfl hzset (AList.notMem_empty _) hhash]
  decide

end Files
end TcMuzi
