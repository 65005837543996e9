import TcMuzi.Api.Request
import TcMuzi.Files.RefCount

/-!
# The blobs behind the files

FastDFS stores a blob for every upload, and `RemoveFileFromFastDfs` is meant to remove it
with the last reference.  The command it runs names a client configuration that nobody
assigns: the one of `ApiUploadInit` is a variable of `api_upload.cc` alone.

* `BlobsExact` is the property: the blobs are those that `file_info` names.
* `RightStep` says what a request should do to the blobs.
* `blobs_of_blobRun`: until a delete takes the last reference everything is right, and that
  delete never is.
-/

namespace TcMuzi
namespace Files

open Base Server Api Mysql Lib

/-! ## FastDFS -/

/-- What the requests share, and the blobs that FastDFS stores, by their file ids. -/
structure FileStore where
  world : World
  blobs : List CString

def FileStore.empty : FileStore := ⟨World.empty, []⟩

/-- The words of a shell command in which nothing is quoted. -/
def shellWords (cmd : CString) : List (List UInt8) :=
  (cmd.bytes.splitOnP Decimal.isSpace).filter (· ≠ [])

/-- The blob that a shell command removes: `fdfs_delete_file` wants the client
configuration and then the file id. -/
def removedBlob (conf cmd : CString) : Option CString :=
  match shellWords cmd with
  | [tool, path, fileid] =>
      if tool = (CString.lit "fdfs_delete_file").bytes ∧ path = conf.bytes then
        some (CString.cStr fileid)
      else
        none
  | _ => none

/-- Every command does what `okStep` says, and a shell command that removes a blob exits
with 0. -/
def blobStep (conf : CString) : (c : Command) → FileStore → c.Reply → FileStore → Prop
  | .sys (.system cmd), s, r, s' =>
      s'.world = s.world ∧
        match removedBlob conf cmd with
        | some fileid => r = 0 ∧ s'.blobs = s.blobs.filter (· ≠ fileid)
        | none => r ≠ 0 ∧ s'.blobs = s.blobs
  | c, s, r, s' => okStep c s.world r s'.world ∧ s'.blobs = s.blobs

def blobSem (conf : CString) : Sem Command Command.Reply FileStore where
  step := blobStep conf

/-- The bytes of a file id: a group, a path and a name. -/
def isFileIdByte (b : UInt8) : Bool :=
  (48 ≤ b && b ≤ 57) || (65 ≤ b && b ≤ 90) || (97 ≤ b && b ≤ 122) || b == 45 || b == 46 ||
    b == 47 || b == 95

/-- What FastDFS answers to an upload. -/
def IsFileId (fileid : CString) : Prop :=
  fileid ≠ CString.empty ∧ ∀ b ∈ fileid.bytes, isFileIdByte b = true

instance (fileid : CString) : Decidable (IsFileId fileid) :=
  inferInstanceAs (Decidable (_ ∧ _))

/-! ## Requests -/

/-- When an upload comes to its inserts, FastDFS has stored the blob. -/
def FileRequest.putBlob : FileRequest → FileStore → FileStore
  | .upload _ _ _ _ fileid _, s => { s with blobs := fileid :: s.blobs }
  | _, s => s

def BlobStep (conf : CString) (r : FileRequest) (s : FileStore) (ret : Int) (s' : FileStore) :
    Prop :=
  Exec (blobSem conf) r.prog (r.putBlob s) ret s'

/-- An upload is of a file that is not stored and gets a file id that is not in use, and a
delete is of a file that the user holds. -/
def FileRequest.Proper : FileRequest → FileStore → Prop
  | .upload _ _ md5 _ fileid _, s =>
      ¬ Stored s.world.db md5 ∧ IsFileId fileid ∧ fileid ∉ s.blobs
  | .delete user md5 filename, s => Holds s.world.db user md5 filename
  | r, s => r.Admissible s.world.db

instance (r : FileRequest) (s : FileStore) : Decidable (r.Proper s) :=
  match r with
  | .upload _ _ md5 _ fileid _ =>
      inferInstanceAs (Decidable (¬ 0 < s.world.db.fileInfo.countP (isFile md5) ∧ IsFileId fileid ∧
        fileid ∉ s.blobs))
  | .instantUpload user md5 filename =>
      inferInstanceAs (Decidable
        ((FileRequest.instantUpload user md5 filename).Admissible s.world.db))
  | .save user md5 filename =>
      inferInstanceAs (Decidable ((FileRequest.save user md5 filename).Admissible s.world.db))
  | .delete user md5 filename => inferInstanceAs (Decidable (Holds s.world.db user md5 filename))

/-- A delete of the last row that refers to its file. -/
def FileRequest.TakesLast : FileRequest → Tables → Prop
  | .delete _ md5 _, t => references t md5 = 1
  | _, _ => False

instance (r : FileRequest) (t : Tables) : Decidable (r.TakesLast t) :=
  match r with
  | .upload _ _ _ _ _ _ => isFalse id
  | .instantUpload _ _ _ => isFalse id
  | .save _ _ _ => isFalse id
  | .delete _ md5 _ => inferInstanceAs (Decidable (references t md5 = 1))

/-- The blob of the file that loses its last reference. -/
def FileRequest.LastBlob : FileRequest → Tables → CString → Prop
  | .delete _ md5 _, t, fileid =>
      references t md5 = 1 ∧ ∃ row ∈ t.fileInfo, row.md5 = md5 ∧ row.fileId = fileid
  | _, _, _ => False

/-! ## The property -/

/-- The blobs are exactly those that `file_info` names. -/
def BlobsExact (s : FileStore) : Prop :=
  ∀ fileid, fileid ∈ s.blobs ↔ fileid ∈ s.world.db.fileInfo.map (·.fileId)

instance (s : FileStore) : Decidable (BlobsExact s) :=
  decidable_of_iff ((∀ fileid ∈ s.blobs, fileid ∈ s.world.db.fileInfo.map FileInfo.fileId) ∧
      ∀ fileid ∈ s.world.db.fileInfo.map FileInfo.fileId, fileid ∈ s.blobs)
    ⟨fun h fileid => ⟨h.1 fileid, h.2 fileid⟩,
      fun h => ⟨fun fileid => (h fileid).mp, fun fileid => (h fileid).mpr⟩⟩

/-- The blobs stay exact, one is removed exactly with its last reference, and the delete
that does so answers success. -/
structure RightStep (r : FileRequest) (s : FileStore) (ret : Int) (s' : FileStore) : Prop where
  exact_blobs : BlobsExact s'
  removed : ∀ fileid ∈ s.blobs, fileid ∉ s'.blobs ↔ r.LastBlob s.world.db fileid
  answer : r.TakesLast s.world.db → ret = httpRespOk

/-- The stores reached from empty ones by completed requests that meet `cond` where they are
made. -/
def BlobRun (conf : CString) (cond : FileRequest → FileStore → Prop) : FileStore → Prop :=
  Run (fun r s s' => ∃ ret, BlobStep conf r s ret s')
    (fun s => EmptyTables s.world ∧ s.blobs = []) cond

/-! ## What becomes of the blobs -/

/-- The command line of `RemoveFileFromFastDfs` lacks its second word. -/
theorem removedBlob_eq_none (conf : CString) {fileid : CString}
    (hid : ∀ b ∈ fileid.bytes, isFileIdByte b = true) :
    removedBlob conf (CString.lit "fdfs_delete_file " ++ CString.empty ++ CString.lit " " ++ fileid)
      = none := by
  have hspace : ∀ b ∈ fileid.bytes, Decimal.isSpace b = false := by
    intro b hb
    have hbyte := hid b hb
    simp only [isFileIdByte, Decimal.isSpace, Bool.or_eq_true, Bool.and_eq_true, beq_iff_eq,
      decide_eq_true_eq, Bool.or_eq_false_iff, beq_eq_false_iff_ne, Bool.and_eq_false_imp,
      decide_eq_false_iff_not, UInt8.le_iff_toNat_le, ← UInt8.toNat_inj, ne_eq] at hbyte ⊢
    have hlits : (32 : UInt8).toNat = 32 ∧ (9 : UInt8).toNat = 9 ∧ (13 : UInt8).toNat = 13 ∧
      (48 : UInt8).toNat = 48 ∧ (65 : UInt8).toNat = 65 ∧ (97 : UInt8).toNat = 97 ∧
      (45 : UInt8).toNat = 45 ∧ (46 : UInt8).toNat = 46 ∧ (47 : UInt8).toNat = 47 ∧
      (95 : UInt8).toNat = 95 := by decide
    omega
  have htool : ∀ b ∈ (CString.lit "fdfs_delete_file").bytes, Decimal.isSpace b = false := by
    decide +kernel
  have hcmd : (CString.lit "fdfs_delete_file " ++ CString.empty ++ CString.lit " " ++
      fileid).bytes = (CString.lit "fdfs_delete_file").bytes ++ 32 :: ([] ++ 32 :: fileid.bytes) := by
    have hlit : (CString.lit "fdfs_delete_file ").bytes ++ [] ++ (CString.lit " ").bytes =
      (CString.lit "fdfs_delete_file").bytes ++ [32, 32] := by decide
    show (CString.lit "fdfs_delete_file ").bytes ++ [] ++ (CString.lit " ").bytes ++ _ = _
    rw [hlit]
    simp
  have hsplit : shellWords (CString.lit "fdfs_delete_file " ++ CString.empty ++ CString.lit " " ++
      fileid) = ([(CString.lit "fdfs_delete_file").bytes, [], fileid.bytes]).filter (· ≠ []) := by
    rw [shellWords, hcmd, List.splitOnP_append_cons_of_forall_mem htool 32 (by decide),
      List.splitOnP_append_cons_of_forall_mem (by simp) 32 (by decide),
      List.splitOnP_eq_singleton hspace]
  have hne : (CString.lit "fdfs_delete_file").bytes ≠ [] := by decide
  rw [removedBlob, hsplit]
  by_cases hempty : fileid.bytes = []
  · simp [hne, hempty]
  · simp [hne, hempty]

/-- Without the blobs this is an ordinary run of the commands. -/
theorem okStep_of_blobStep {conf : CString} {c : Command} {s : FileStore} {r : c.Reply}
    {s' : FileStore} (h : blobStep conf c s r s') : okStep c s.world r s'.world := by
  cases c with
  | sys c =>
      cases c with
      | system cmd => exact h.1
      | _ => exact h.1
  | _ => exact h.1

theorem exec_world {α : Type} {conf : CString} {p : Handler α} {s s' : FileStore} {a : α}
    (h : Exec (blobSem conf) p s a s') : Exec ok p s.world a s'.world :=
  exec_map FileStore.world (fun _ _ _ _ => okStep_of_blobStep) h

/-- Every command but a shell command leaves the blobs alone. -/
def NoShell : Command → Prop
  | .sys (.system _) => False
  | _ => True

theorem noShell_of_isStatement (c : Command) (h : IsStatement c) : NoShell c := by
  cases c with
  | sys c =>
      cases c with
      | system cmd => exact h
      | _ => trivial
  | _ => trivial

theorem blobs_of_blobStep {conf : CString} {c : Command} {s : FileStore} {r : c.Reply}
    {s' : FileStore} (hc : NoShell c) (h : blobStep conf c s r s') : s'.blobs = s.blobs := by
  cases c with
  | sys c =>
      cases c with
      | system cmd => exact absurd hc id
      | _ => exact h.2
  | _ => exact h.2

/-- What a part without shell commands does to the world, it does beside the blobs. -/
theorem wp_blob_of_ok {α : Type} {conf : CString} {p : Handler α} (hp : Uses NoShell p)
    {Q : α → World → Prop} {s : FileStore} (h : wp ok p Q s.world) :
    wp (blobSem conf) p (fun a s' => Q a s'.world ∧ s'.blobs = s.blobs) s := by
  have hkeep : wp (blobSem conf) p (fun _ (m : FileStore) => m.blobs = s.blobs) s := by
    refine wp_of_uses (fun _ _ _ _ => trivial) ?_ (fun _ _ => trivial) hp rfl
    intro c m r m' hc hm hstep
    exact (blobs_of_blobStep hc hstep).trans hm
  rw [wp_iff_exec (fun _ _ => trivial) fun _ => trivial]
  intro a s' hexec
  have hblobs := wp_sound hkeep hexec
  exact ⟨wp_sound h (exec_world hexec), hblobs⟩

theorem idle_blobSem {conf : CString} {c : Command} (hc : NoShell c)
    (hidle : ∀ w r w', okStep c w r w' → w' = w) : (blobSem conf).Idle c := by
  refine fun s => ⟨trivial, fun r s' hstep => ?_⟩
  have hworld := hidle _ _ _ (okStep_of_blobStep hstep)
  have hblobs := blobs_of_blobStep hc hstep
  cases s
  cases s'
  simp_all

theorem uses_noShell {r : FileRequest} (hr : ∀ user md5 filename, r ≠ .delete user md5 filename) :
    Uses NoShell r.prog := by
  cases r with
  | upload user filename md5 size fileid url =>
      refine uses_withDBConn trivial trivial fun ptr => ?_
      exact uses_storeFileinfo noShell_of_isStatement ..
  | instantUpload user md5 filename =>
      have hprog := onDB_handleDealMd5 noShell_of_isStatement ⟨trivial, trivial, trivial⟩ user md5
        filename
      exact uses_of_onDB (fun _ => ⟨trivial, trivial⟩) hprog
  | save user md5 filename =>
      have hprog := @onSlaveAndCache_handleSaveFile NoShell user noShell_of_isStatement
        (fun _ _ => trivial) md5 filename
      exact uses_of_onSlaveAndCache (fun _ => ⟨trivial, trivial⟩) ⟨trivial, trivial⟩ hprog
  | delete user md5 filename => exact absurd rfl (hr user md5 filename)

/-- Removing a file leaves its blob and fails. -/
theorem wp_blob_removeFile {conf : CString} (ptr : Ptr) (md5 : CString) {s : FileStore}
    (hids : ∀ row ∈ s.world.db.fileInfo, IsFileId row.fileId) :
    wp (blobSem conf) (removeFile ptr md5) (fun ret s' => ret ≠ 0 ∧ s'.blobs = s.blobs) s := by
  rw [removeFile, wp_bind]
  refine wp_mono (wp_blob_of_ok (uses_executeQuery noShell_of_isStatement ptr _)
    ((wp_ok_executeQuery ptr (.fileId md5) (fun resultSet _ =>
      resultSet = some ((s.world.db.fileInfo.filter (isFile md5)).map (·.fileId))) s.world).mpr
        fun _ rows hrows => hrows.symm)) ?_
  rintro _ m ⟨rfl, hblobs⟩
  show wp _ (executeDrop ptr (.deleteFileInfo md5) >>= _) _ _
  rw [wp_bind]
  refine wp_mono (wp_blob_of_ok (Q := fun _ _ => True)
    (uses_executeDrop noShell_of_isStatement ptr _) ((wp_ok_executeDrop ..).mpr ?_)) ?_
  · exact fun _ _ _ _ => trivial
  rintro _ m' ⟨_, hblobs'⟩
  rw [wp_bind]
  refine ⟨trivial, fun ret s' hstep => ?_⟩
  have hid : ∀ b ∈ (((s.world.db.fileInfo.filter (isFile md5)).map (·.fileId)).headD
      CString.empty).bytes, isFileIdByte b = true := by
    cases hrows : s.world.db.fileInfo.filter (isFile md5) with
    | nil => simp [CString.empty]
    | cons row rows =>
        have hrow : row ∈ s.world.db.fileInfo.filter (isFile md5) := by simp [hrows]
        exact (hids row (List.mem_filter.mp hrow).1).2
  obtain ⟨_, hremoved⟩ := hstep
  rw [removedBlob_eq_none conf hid] at hremoved
  obtain ⟨hret, hblobs''⟩ := hremoved
  refine ⟨?_, by rw [hblobs'', hblobs', hblobs]⟩
  rw [if_neg hret]
  decide

theorem wp_blob_releaseFile {conf : CString} (ptr : Ptr) (md5 : CString) {s : FileStore}
    {count : Int} {counts : List Int} (hids : ∀ row ∈ s.world.db.fileInfo, IsFileId row.fileId)
    (hcounts : countsOf s.world.db md5 = count :: counts) :
    wp (blobSem conf) (releaseFile ptr md5)
      (fun ret s' => s'.blobs = s.blobs ∧ (count = 1 → ret ≠ 0)) s := by
  rw [releaseFile, wp_bind]
  refine wp_mono (wp_blob_of_ok (Q := fun r w => r = (0, count) ∧ w = s.world)
    (uses_getResultOneCount noShell_of_isStatement ptr md5 false 0)
    ((wp_ok_getResultOneCount ..).mpr fun _ => by rw [hcounts]; exact ⟨rfl, rfl⟩)) ?_
  rintro _ m ⟨⟨rfl, hworld⟩, hblobs⟩
  have hremove : ∀ m' : FileStore, m'.blobs = s.blobs →
      (∀ row ∈ m'.world.db.fileInfo, IsFileId row.fileId) →
      wp (blobSem conf) (removeFile ptr md5)
        (fun ret s' => s'.blobs = s.blobs ∧ (count = 1 → ret ≠ 0)) m' := by
    intro m' hblobs' hids'
    refine wp_mono (wp_blob_removeFile ptr md5 hids') ?_
    rintro ret s' ⟨hret, hkept⟩
    exact ⟨hkept.trans hblobs', fun _ => hret⟩
  show wp _ (if (0 : Int) ≠ 0 then _ else _) _ _
  rw [if_neg (by decide)]
  by_cases hpos : 0 < count
  · rw [if_pos hpos, wp_bind]
    refine wp_mono (wp_blob_of_ok (Q := fun _ w => w.db.fileInfo =
        setCount md5 (count - 1) s.world.db.fileInfo)
      (uses_executeUpdate noShell_of_isStatement ptr _ _) ((wp_ok_executeUpdate ..).mpr ?_)) ?_
    · rintro _ n t hupdate
      cases hupdate
      rw [hworld]
      rfl
    rintro updated m' ⟨hfiles, hblobs'⟩
    rw [wp_ite]
    refine ⟨fun _ => ?_, fun hfailed => ?_⟩
    · by_cases hlast : count - 1 = 0
      · rw [if_pos hlast]
        refine hremove m' (hblobs'.trans hblobs) fun row hrow => ?_
        rw [hfiles] at hrow
        rcases (Table.mem_setWhere ..).mp hrow with ⟨old, hold, _, rfl⟩ | ⟨hold, _⟩
        · exact hids old hold
        · exact hids row hold
      · rw [if_neg hlast]
        exact ⟨hblobs'.trans hblobs, fun hone => absurd hone (by omega)⟩
    · exact ⟨hblobs'.trans hblobs, fun _ => by decide⟩
  · rw [if_neg hpos]
    by_cases hzero : count = 0
    · rw [if_pos hzero]
      refine hremove m hblobs ?_
      rw [hworld]
      exact hids
    · rw [if_neg hzero]
      exact ⟨hblobs, fun hone => absurd hone (by omega)⟩

/-- What deciding about the share answers and leaves for the next step. -/
theorem wp_sharedState_files (ptr cacheConn : Ptr) (user md5 filename : CString) (w : World) :
    wp ok (sharedState ptr cacheConn user md5 filename)
      (fun shared w' => w' = w ∧ ∃ isShared redisHasRecord, shared = some (isShared, redisHasRecord) ∧
        wp ok (removeIfShared ptr cacheConn user md5 filename isShared redisHasRecord)
          (fun _ m => SameFiles w.db m.db) w) w := by
  rw [← Prog.bind_ret (sharedState ..)]
  refine wp_unshare fun isShared redisHasRecord hremove => ?_
  refine ⟨rfl, isShared, redisHasRecord, rfl, ?_⟩
  exact wp_mono hremove fun _ _ h => h.2.1

/-- A delete leaves the blobs alone, and one that takes the last reference fails. -/
theorem wp_blob_delete {conf user md5 filename : CString} {s : FileStore}
    (hc : Consistent s.world.db) (hids : ∀ row ∈ s.world.db.fileInfo, IsFileId row.fileId)
    (hholds : Holds s.world.db user md5 filename) :
    wp (blobSem conf) (handleDeleteFile user md5 filename)
      (fun ret s' => s'.blobs = s.blobs ∧
        (references s.world.db md5 = 1 → ret ≠ httpRespOk)) s := by
  have hidle : ∀ {c : Command}, NoShell c → (∀ w r w', okStep c w r w' → w' = w) →
      (blobSem conf).Idle c := idle_blobSem
  have hredis : ∀ c, FileCommand user c → NoShell (.redis c) := fun _ _ => trivial
  refine wp_withDBConn_of_idle (hidle trivial fun _ _ _ h => h) (hidle trivial fun _ _ _ h => h) ?_
  refine fun ptr => wp_withCacheConn_of_idle (hidle trivial fun _ _ _ h => h)
    (hidle trivial fun _ _ _ h => h) fun cacheConn => ?_
  rw [wp_bind]
  refine wp_mono (wp_blob_of_ok (uses_sharedState hredis noShell_of_isStatement ..)
    (wp_sharedState_files ptr cacheConn user md5 filename s.world)) ?_
  rintro _ m ⟨⟨hworld, isShared, redisHasRecord, rfl, hremove⟩, hblobs⟩
  rw [← hworld] at hremove
  show wp _ (removeIfShared .. >>= _) _ _
  rw [wp_bind]
  refine wp_mono (wp_blob_of_ok (uses_removeIfShared hredis noShell_of_isStatement ..)
    hremove) ?_
  rintro removed m₁ ⟨hsame, hblobs₁⟩
  have hblobs₁ := hblobs₁.trans hblobs
  rw [wp_ite]
  refine ⟨fun _ => ⟨hblobs₁, fun _ => by decide⟩, fun _ => ?_⟩
  rw [wp_bind]
  refine wp_mono (wp_blob_of_ok (uses_removeUserFile hredis noShell_of_isStatement ..)
    (wp_removeUserFile ptr cacheConn user md5 filename m₁.world)) ?_
  rintro dropped m₂ ⟨⟨_, hdb, _⟩, hblobs₂⟩
  have hblobs₂ := hblobs₂.trans hblobs₁
  rw [wp_ite]
  refine ⟨fun _ => ⟨hblobs₂, fun _ => by decide⟩, fun _ => ?_⟩
  have hfiles : m₂.world.db.fileInfo = s.world.db.fileInfo := by
    rw [hdb, ← hworld]
    exact hsame.2
  obtain ⟨counts, hcounts, _⟩ := countsOf_of_holds hc hholds
  rw [countsOf, ← hfiles] at hcounts
  rw [← hfiles] at hids
  rw [wp_bind]
  refine wp_mono (wp_blob_releaseFile ptr md5 hids hcounts) ?_
  rintro released s' ⟨hkept, hfailed⟩
  refine ⟨hkept.trans hblobs₂, fun hlast => ?_⟩
  rw [if_neg (hfailed (by omega))]
  decide

/-! ## Steps -/

/-- The reference counts are right and the blobs are exact, under proper file ids. -/
structure BlobInv (s : FileStore) : Prop where
  consistent : Consistent s.world.db
  exact_blobs : BlobsExact s
  fileIds : ∀ row ∈ s.world.db.fileInfo, IsFileId row.fileId

theorem map_fileId_setCount (md5 : CString) (count : Int) (rows : List FileInfo) :
    (setCount md5 count rows).map FileInfo.fileId = rows.map FileInfo.fileId := by
  rw [setCount, Table.setWhere, List.map_map]
  apply List.map_congr_left
  intro row _
  simp only [Function.comp]
  split <;> rfl

/-- The blobs of a request that is no upload. -/
theorem blobs_of_blobStep_of_not_upload {conf : CString} {r : FileRequest} {s s' : FileStore}
    {ret : Int} (hi : BlobInv s) (hproper : r.Proper s)
    (hr : ∀ user filename md5 size fileid url, r ≠ .upload user filename md5 size fileid url)
    (h : BlobStep conf r s ret s') : s'.blobs = s.blobs := by
  cases r with
  | upload user filename md5 size fileid url => exact absurd rfl (hr user filename md5 size fileid url)
  | delete user md5 filename =>
      exact (wp_sound (wp_blob_delete hi.consistent hi.fileIds hproper) h).1
  | instantUpload user md5 filename =>
      have hwp : wp (blobSem conf) _ (fun _ s' => True ∧ s'.blobs = s.blobs) s := wp_blob_of_ok
        (uses_noShell (r := .instantUpload user md5 filename) (by simp))
        (wp_mono (wp_handleDealMd5 user md5 filename s.world) fun _ _ _ => trivial)
      exact (wp_sound hwp h).2
  | save user md5 filename =>
      have hwp : wp (blobSem conf) _ (fun _ s' => True ∧ s'.blobs = s.blobs) s := wp_blob_of_ok
        (uses_noShell (r := .save user md5 filename) (by simp))
        (wp_mono (wp_handleSaveFile user md5 filename s.world) fun _ _ _ => trivial)
      exact (wp_sound hwp h).2

theorem blobInv_of_sameIds {s s' : FileStore} (hi : BlobInv s) (hc : Consistent s'.world.db)
    (hids : s'.world.db.fileInfo.map FileInfo.fileId = s.world.db.fileInfo.map FileInfo.fileId)
    (hblobs : s'.blobs = s.blobs) : BlobInv s' := by
  refine ⟨hc, fun fileid => ?_, fun row hrow => ?_⟩
  · rw [hblobs, hids]
    exact hi.exact_blobs fileid
  · have hmem : row.fileId ∈ s.world.db.fileInfo.map FileInfo.fileId := by
      rw [← hids]
      exact List.mem_map_of_mem hrow
    obtain ⟨old, hold, hsame⟩ := List.mem_map.mp hmem
    rw [← hsame]
    exact hi.fileIds old hold

theorem fileIds_of_addsReference {t t' : Tables} {user md5 filename : CString}
    (h : ObtainsFile user md5 filename t t') :
    t'.fileInfo.map FileInfo.fileId = t.fileInfo.map FileInfo.fileId := by
  rcases h with ⟨_, rfl⟩ | ⟨_, count, counts, time, _, rfl⟩
  · rfl
  · exact map_fileId_setCount md5 (wrapInt32 (count + 1)) t.fileInfo

/-- An upload adds its blob and the row that names it. -/
theorem blobInv_upload {conf : CString} {user filename md5 fileid url : CString} {size ret : Int}
    {s s' : FileStore} (hi : BlobInv s) (hid : IsFileId fileid) (hc : Consistent s'.world.db)
    (h : BlobStep conf (.upload user filename md5 size fileid url) s ret s') :
    BlobInv s' ∧ s'.blobs = fileid :: s.blobs := by
  have hrows : wp ok (FileRequest.upload user filename md5 size fileid url).prog
      (fun _ w' => w'.db.fileInfo =
        Table.insertRow (newFileInfo md5 fileid url size filename) s.world.db.fileInfo) s.world := by
    rw [FileRequest.prog, wp_ok_withDBConn]
    intro ptr
    refine wp_mono (wp_storeFileinfo_rows user filename md5 size fileid url ptr s.world) ?_
    rintro _ w' ⟨time, hdb⟩
    rw [hdb]
  have hwp : wp (blobSem conf) _ _ ((FileRequest.upload user filename md5 size fileid url).putBlob s) :=
    wp_blob_of_ok
    (uses_noShell (r := .upload user filename md5 size fileid url) (by simp)) hrows
  obtain ⟨hfiles, hblobs⟩ := wp_sound hwp h
  refine ⟨⟨hc, fun other => ?_, fun row hrow => ?_⟩, hblobs⟩
  · rw [hblobs, hfiles, Table.insertRow, List.map_append, List.mem_append, ← hi.exact_blobs other]
    show other ∈ fileid :: s.blobs ↔ other ∈ s.blobs ∨ other ∈ [fileid]
    rw [List.mem_cons, List.mem_singleton, or_comm]
  · rw [hfiles] at hrow
    rcases (Table.mem_insertRow ..).mp hrow with hold | rfl
    · exact hi.fileIds row hold
    · exact hid

theorem FileRequest.Proper.admissible {r : FileRequest} {s : FileStore} (h : r.Proper s) :
    r.Admissible s.world.db := by
  cases r with
  | upload user filename md5 size fileid url => exact h.1
  | instantUpload user md5 filename | save user md5 filename => exact h
  | delete user md5 filename => exact Or.inl h

theorem blobInv_of_blobStep {conf : CString} {r : FileRequest} {s s' : FileStore} {ret : Int}
    (hi : BlobInv s) (hproper : r.Proper s) (hlast : ¬ r.TakesLast s.world.db)
    (h : BlobStep conf r s ret s') : BlobInv s' ∧ ∀ fileid ∈ s.blobs, fileid ∈ s'.blobs := by
  have hputBlob : (r.putBlob s).world = s.world := by
    cases r <;> rfl
  have hexec : Exec ok r.prog s.world ret s'.world := hputBlob ▸ exec_world h
  have hc := consistent_of_exec hi.consistent hproper.admissible hexec
  have hkept : (∀ user filename md5 size fileid url, r ≠ .upload user filename md5 size fileid url) →
      BlobStep conf r s ret s' → s'.blobs = s.blobs :=
    blobs_of_blobStep_of_not_upload hi hproper
  cases r with
  | upload user filename md5 size fileid url =>
      obtain ⟨hi', hblobs⟩ := blobInv_upload hi hproper.2.1 hc h
      exact ⟨hi', fun other hother => by simp [hblobs, hother]⟩
  | instantUpload user md5 filename =>
      have hblobs := hkept (by simp) h
      have hadds := wp_sound (wp_handleDealMd5 user md5 filename s.world) hexec
      have hids := fileIds_of_addsReference hadds
      exact ⟨blobInv_of_sameIds hi hc hids hblobs, by simp [hblobs]⟩
  | save user md5 filename =>
      have hblobs := hkept (by simp) h
      have hadds := wp_sound (wp_handleSaveFile user md5 filename s.world) hexec
      have hids := fileIds_of_addsReference hadds
      exact ⟨blobInv_of_sameIds hi hc hids hblobs, by simp [hblobs]⟩
  | delete user md5 filename =>
      have hblobs := hkept (by simp) h
      have hdeletes := wp_sound (wp_handleDeleteFile user md5 filename _) hexec
      obtain ⟨counts, hcounts, hpos⟩ := countsOf_of_holds hi.consistent hproper
      have hone : references s.world.db md5 ≠ 1 := hlast
      have hids : s'.world.db.fileInfo.map FileInfo.fileId =
          s.world.db.fileInfo.map FileInfo.fileId := by
        rw [hdeletes.files, hcounts, released, if_neg (by omega), if_pos (by omega),
          map_fileId_setCount]
      exact ⟨blobInv_of_sameIds hi hc hids hblobs, by simp [hblobs]⟩

theorem FileRequest.LastBlob.takesLast {r : FileRequest} {t : Tables} {fileid : CString}
    (h : r.LastBlob t fileid) : r.TakesLast t := by
  cases r with
  | delete user md5 filename => exact h.1
  | _ => exact h

/-- Exactly the deletes of a last reference go wrong. -/
theorem rightStep_iff {conf : CString} {r : FileRequest} {s s' : FileStore} {ret : Int}
    (hi : BlobInv s) (hproper : r.Proper s) (h : BlobStep conf r s ret s') :
    RightStep r s ret s' ↔ ¬ r.TakesLast s.world.db := by
  constructor
  · intro hright hlast
    cases r with
    | delete user md5 filename =>
        have hdelete := wp_sound (wp_blob_delete hi.consistent hi.fileIds hproper) h
        exact hdelete.2 hlast (hright.answer hlast)
    | _ => exact hlast
  · intro hlast
    obtain ⟨hi', hkept⟩ := blobInv_of_blobStep hi hproper hlast h
    refine ⟨hi'.exact_blobs, fun fileid hid => ?_, fun hlast' => absurd hlast' hlast⟩
    exact ⟨fun hgone => absurd (hkept fileid hid) hgone, fun hblob => absurd hblob.takesLast hlast⟩

/-! ## Runs -/

theorem blobInv_of_blobRun {conf : CString} {s : FileStore}
    (h : BlobRun conf (fun r s => r.Proper s ∧ ¬ r.TakesLast s.world.db) s) : BlobInv s := by
  refine Run.invariant (I := BlobInv) ?_ ?_ h
  · rintro s ⟨hempty, hblobs⟩
    rw [EmptyTables] at hempty
    refine ⟨hempty ▸ consistent_empty, fun fileid => ?_, fun row hrow => ?_⟩
    · simp [hblobs, hempty, Tables.empty]
    · simp [hempty, Tables.empty] at hrow
  · rintro r s s' hi ⟨hproper, hlast⟩ ⟨ret, hstep⟩
    exact (blobInv_of_blobStep hi hproper hlast hstep).1

/-- As long as no delete takes the last reference the blobs are exact, and of the next
requests those that do not take it are right. -/
theorem blobs_of_blobRun (conf : CString) (s : FileStore)
    (h : BlobRun conf (fun r s => r.Proper s ∧ ¬ r.TakesLast s.world.db) s) :
    BlobsExact s ∧ ∀ r ret s', r.Proper s → BlobStep conf r s ret s' →
      (RightStep r s ret s' ↔ ¬ r.TakesLast s.world.db) := by
  have hi := blobInv_of_blobRun h
  exact ⟨hi.exact_blobs, fun r ret s' hproper hstep => rightStep_iff hi hproper hstep⟩

/-- The sample machine with FastDFS. -/
def blobReply (conf : CString) : (c : Command) → FileStore → Option (c.Reply × FileStore)
  | .sys (.system cmd), s =>
      match removedBlob conf cmd with
      | some fileid => some ((0 : Int), { s with blobs := s.blobs.filter (· ≠ fileid) })
      | none => some ((1 : Int), s)
  | c, s => (okReply sampleSys c s.world).map fun (r, w) => (r, { s with world := w })

theorem blobStep_of_blobReply (conf : CString) (c : Command) (s : FileStore) (r : c.Reply)
    (s' : FileStore) (h : blobReply conf c s = some (r, s')) : blobStep conf c s r s' := by
  have hother : (okReply sampleSys c s.world).map (fun (r, w) => (r, { s with world := w })) =
      some (r, s') → okStep c s.world r s'.world ∧ s'.blobs = s.blobs := by
    intro hmap
    obtain ⟨⟨r', w⟩, hreply, heq⟩ := Option.map_eq_some_iff.mp hmap
    cases heq
    exact ⟨okStep_of_okReply sampleSys c s.world r w hreply, rfl⟩
  cases c with
  | sys c =>
      cases c with
      | system cmd =>
          simp only [blobReply] at h
          simp only [blobStep]
          cases hremoved : removedBlob conf cmd with
          | some fileid =>
              rw [hremoved] at h
              cases h
              exact ⟨rfl, rfl, rfl⟩
          | none =>
              rw [hremoved] at h
              cases h
              exact ⟨rfl, (by decide : (1 : Int) ≠ 0), rfl⟩
      | _ => exact hother h
  | _ => exact hother h

/-- The store after a request on the sample machine. -/
def blobsAfter (conf : CString) (r : FileRequest) (s : FileStore) : FileStore :=
  ((run (blobReply conf) r.prog (r.putBlob s)).getD (0, s)).2

theorem blobRun_blobsAfter {conf : CString} {cond : FileRequest → FileStore → Prop}
    {r : FileRequest} {s : FileStore} (h : BlobRun conf cond s) (hcond : cond r s)
    (hsome : (run (blobReply conf) r.prog (r.putBlob s)).isSome) :
    BlobRun conf cond (blobsAfter conf r s) := by
  obtain ⟨⟨ret, s'⟩, hrun⟩ := Option.isSome_iff_exists.mp hsome
  have hafter : blobsAfter conf r s = s' := by rw [blobsAfter, hrun]; rfl
  rw [hafter]
  exact .step h hcond ⟨ret, exec_of_run (blobStep_of_blobReply conf) hrun⟩

/-- The configuration of the sample machine. -/
def sampleConf : CString := CString.lit "/etc/fdfs/client.conf"

/-- The store in which one user has uploaded the file `m`. -/
def oneUpload : FileStore :=
  blobsAfter sampleConf (sampleUpload (CString.lit "u") (CString.lit "a")) FileStore.empty

theorem blobRun_oneUpload {cond : FileRequest → FileStore → Prop}
    (hcond : cond (sampleUpload (CString.lit "u") (CString.lit "a")) FileStore.empty) :
    BlobRun sampleConf cond oneUpload :=
  blobRun_blobsAfter (.start ⟨rfl, rfl⟩) hcond (by decide)

/-- A second user obtains the file and gives it up again. -/
theorem blobs_of_blobRun_two :
    ∃ s, s.blobs ≠ [] ∧ BlobRun sampleConf (fun r s => r.Proper s ∧ ¬ r.TakesLast s.world.db) s ∧
      BlobsExact s ∧ ∀ r ret s', r.Proper s → BlobStep sampleConf r s ret s' →
        (RightStep r s ret s' ↔ ¬ r.TakesLast s.world.db) := by
  have hrun : BlobRun sampleConf (fun r s => r.Proper s ∧ ¬ r.TakesLast s.world.db)
      (blobsAfter sampleConf (.delete (CString.lit "v") (CString.lit "m") (CString.lit "b"))
        (blobsAfter sampleConf (.instantUpload (CString.lit "v") (CString.lit "m")
          (CString.lit "b")) oneUpload)) := by
    have hfirst : BlobRun sampleConf (fun r s => r.Proper s ∧ ¬ r.TakesLast s.world.db) oneUpload :=
      blobRun_oneUpload (by decide +kernel)
    exact blobRun_blobsAfter (blobRun_blobsAfter hfirst (by decide) (by decide)) (by decide)
      (by decide)
  exact ⟨_, by decide, hrun, blobs_of_blobRun _ _ hrun⟩

/-- The only holder deletes the file: its row goes and its blob stays. -/
theorem not_blobsExact_delete :
    ¬ ∀ conf s, BlobRun conf (fun r s => r.Proper s) s → BlobsExact s := by
  intro hall
  have hrun : BlobRun sampleConf (fun r s => r.Proper s)
      (blobsAfter sampleConf (.delete (CString.lit "u") (CString.lit "m") (CString.lit "a"))
        oneUpload) :=
    blobRun_blobsAfter (blobRun_oneUpload (by decide +kernel)) (by decide) (by decide)
  have hexact := hall sampleConf _ hrun
  revert hexact
  decide

end Files
end TcMuzi
