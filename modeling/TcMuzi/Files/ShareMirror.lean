import TcMuzi.Files.ShareFrame
import TcMuzi.Lib.Index

/-!
# Redis as a mirror of the share list

`FILE_PUBLIC_ZSET` and `FILE_NAME_HASH` are indexes of `share_file_list` under the
concatenation of md5 and file name.  With md5 strings of one length the concatenation
tells files apart, and every request about shares keeps the two indexes and the table in
step, as long as a share is only taken back by its owner and no download count overflows:
the `int` of the table wraps where the score in Redis goes on.
-/

namespace TcMuzi
namespace Files

open Base Server Redis Api Mysql Lib

/-! ## The property -/

/-- `(md5, file_name)` is unique in the share list. -/
def UniqueShares (t : Tables) : Prop :=
  (t.shareFileList.map ShareFile.key).Nodup

/-- Redis has exactly the shared files, with their download counts and names. -/
structure Mirrors (w : World) : Prop where
  zset : ∃ members, zsetOf w.redis filePublicZset = some members ∧
    Indexes shareFileid ShareFile.pv members w.db.shareFileList
  hash : ∃ fields, hashOf w.redis fileNameHash = some fields ∧
    Indexes shareFileid ShareFile.fileName fields w.db.shareFileList

/-- Every shared file has an md5 of that length. -/
def Md5Length (len : Nat) (t : Tables) : Prop :=
  ∀ row ∈ t.shareFileList, row.md5.length = len

/-- The invariant of a run. -/
structure Mirrored (len : Nat) (w : World) : Prop extends Mirrors w where
  unique : UniqueShares w.db
  md5Length : Md5Length len w.db

/-- A share is taken back by its owner, a file is deleted while nobody else shares it. -/
def ShareRequest.ByOwner : ShareRequest → World → Prop
  | .share _ _ _, _ => True
  | .cancel user md5 filename, w =>
      ∃ row ∈ w.db.shareFileList, row.user = user ∧ row.key = (md5, filename)
  | .delete user md5 filename, w =>
      ∀ row ∈ w.db.shareFileList, row.key = (md5, filename) → row.user = user
  | .countDownload _ _, _ => True

/-- A download is of a file whose count has a successor in an `int`. -/
def ShareRequest.CountsUp : ShareRequest → World → Prop
  | .share _ _ _, _ => True
  | .cancel _ _ _, _ => True
  | .delete _ _ _, _ => True
  | .countDownload md5 filename, w =>
      ∀ row ∈ w.db.shareFileList, row.key = (md5, filename) → IsInt32 (row.pv + 1)

def ShareRequest.md5 : ShareRequest → CString
  | .share _ md5 _ => md5
  | .cancel _ md5 _ => md5
  | .delete _ md5 _ => md5
  | .countDownload md5 _ => md5

/-! ## Files and their members -/

variable {len : Nat} {w w' : World} {user md5 filename : CString}

/-- Md5 strings of one length make the member of a file its own. -/
theorem shareFileid_eq_iff (hlen : Md5Length len w.db) (hmd5 : md5.length = len) {row : ShareFile}
    (hrow : row ∈ w.db.shareFileList) :
    shareFileid row = fileidOf md5 filename ↔ row.key = (md5, filename) := by
  constructor
  · intro h
    obtain ⟨hmd5', hname⟩ := CString.append_inj h ((hlen row hrow).trans hmd5.symm)
    exact Prod.ext hmd5' hname
  · intro h
    obtain ⟨hmd5', hname⟩ := Prod.mk.inj h
    rw [shareFileid, hmd5', hname]

/-- A member of either index is a shared file. -/
theorem mem_iff_shared (filename : CString) {β : Type} {val : ShareFile → β}
    {index : AList fun _ : CString => β} (hindex : Indexes shareFileid val index w.db.shareFileList)
    (hlen : Md5Length len w.db) (hmd5 : md5.length = len) :
    fileidOf md5 filename ∈ index ↔ Shared w.db md5 filename := by
  rw [hindex.mem_iff, Shared, List.mem_map]
  constructor
  · rintro ⟨row, hrow, hfileid⟩
    exact ⟨row, hrow, (shareFileid_eq_iff hlen hmd5 hrow).mp hfileid⟩
  · rintro ⟨row, hrow, hkey⟩
    exact ⟨row, hrow, (shareFileid_eq_iff hlen hmd5 hrow).mpr hkey⟩

theorem isShareFileOf_iff (user md5 filename : CString) (row : ShareFile) :
    isShareFileOf user md5 filename row ↔ row.user = user ∧ row.key = (md5, filename) := by
  simp [isShareFileOf, ShareFile.key, and_assoc]

/-! ## What the effects keep -/

/-- A new share and its records. -/
theorem mirrored_of_newShare (h : Mirrored len w) (hmd5 : md5.length = len)
    (hnew : ¬ Shared w.db md5 filename) {time : CString} {pv : Int}
    (hrows : w'.db.shareFileList =
      Table.insertRow ⟨user, md5, time, filename, pv⟩ w.db.shareFileList)
    (hadds : AddsRecords (fileidOf md5 filename) filename pv w w') : Mirrored len w' := by
  obtain ⟨members, hmembers, hscores⟩ := h.zset
  obtain ⟨fields, hfields, hname⟩ := h.hash
  obtain ⟨⟨members', hold, hzset⟩, fields', hold', hhash⟩ := hadds
  obtain rfl : members = members' := Option.some.inj (hmembers.symm.trans hold)
  obtain rfl : fields = fields' := Option.some.inj (hfields.symm.trans hold')
  have hfresh : ∀ row ∈ w.db.shareFileList,
      shareFileid row ≠ shareFileid ⟨user, md5, time, filename, pv⟩ := by
    intro row hrow hfileid
    have hkey := (shareFileid_eq_iff h.md5Length hmd5 hrow).mp hfileid
    exact hnew (List.mem_map.mpr ⟨row, hrow, hkey⟩)
  refine ⟨⟨⟨_, hzset, ?_⟩, _, hhash, ?_⟩, ?_, ?_⟩
  · rw [hrows]
    exact hscores.insertRow hfresh
  · rw [hrows]
    exact hname.insertRow hfresh
  · rw [UniqueShares, hrows]
    exact Table.nodup_insertRow ShareFile.key h.unique hnew
  · rw [Md5Length, hrows]
    intro row hrow
    rcases (Table.mem_insertRow ..).mp hrow with hold | rfl
    · exact h.md5Length row hold
    · exact hmd5

/-- The owner's share and its records go. -/
theorem mirrored_of_drops (h : Mirrored len w) (hmd5 : md5.length = len)
    (howner : ∀ row ∈ w.db.shareFileList, row.key = (md5, filename) → row.user = user)
    (hdrops : DropsShare user md5 filename w w')
    (hrecords : DropsRecords (fileidOf md5 filename) w w') : Mirrored len w' := by
  obtain ⟨members, hmembers, hpv⟩ := h.zset
  obtain ⟨fields, hfields, hname⟩ := h.hash
  obtain ⟨⟨members', hold, hzset⟩, fields', hold', hhash⟩ := hrecords
  obtain rfl : members = members' := Option.some.inj (hmembers.symm.trans hold)
  obtain rfl : fields = fields' := Option.some.inj (hfields.symm.trans hold')
  have hgone : ∀ row ∈ w.db.shareFileList,
      isShareFileOf user md5 filename row ↔ shareFileid row = fileidOf md5 filename := by
    intro row hrow
    rw [isShareFileOf_iff, shareFileid_eq_iff h.md5Length hmd5 hrow]
    exact ⟨fun hof => hof.2, fun hkey => ⟨howner row hrow hkey, hkey⟩⟩
  refine ⟨⟨⟨_, hzset, ?_⟩, _, hhash, ?_⟩, ?_, ?_⟩
  · rw [hdrops.shares]
    exact hpv.deleteWhere hgone
  · rw [hdrops.shares]
    exact hname.deleteWhere hgone
  · rw [UniqueShares, hdrops.shares]
    exact Table.nodup_deleteWhere _ ShareFile.key h.unique
  · rw [Md5Length, hdrops.shares]
    intro row hrow
    exact h.md5Length row ((Table.mem_deleteWhere ..).mp hrow).1

/-- Nothing that the mirror is about changed. -/
theorem mirrored_of_same (h : Mirrored len w) (hrows : w'.db.shareFileList = w.db.shareFileList)
    (hrecords : SameRecords w w') : Mirrored len w' := by
  refine ⟨⟨?_, ?_⟩, ?_, ?_⟩
  · rw [hrecords.zset, hrows]
    exact h.zset
  · rw [hrecords.hash, hrows]
    exact h.hash
  · rw [UniqueShares, hrows]
    exact h.unique
  · rw [Md5Length, hrows]
    exact h.md5Length

/-- A download counts in the table and in Redis. -/
theorem mirrored_of_countsDownload (h : Mirrored len w) (hmd5 : md5.length = len)
    (hup : ∀ row ∈ w.db.shareFileList, row.key = (md5, filename) → IsInt32 (row.pv + 1))
    (hcounts : CountsDownload md5 filename w w') : Mirrored len w' := by
  unfold CountsDownload at hcounts
  cases hpvs : sharePvs w.db md5 filename with
  | nil =>
      rw [hpvs] at hcounts
      obtain ⟨hdb, hredis⟩ := hcounts
      exact mirrored_of_same h (by rw [hdb]) ⟨by rw [hredis], by rw [hredis]⟩
  | cons pv pvs =>
      rw [hpvs] at hcounts
      obtain ⟨hrows, members', hmembers', hcase⟩ := hcounts
      -- the row whose count was read
      have hmem : pv ∈ sharePvs w.db md5 filename := by simp [hpvs]
      obtain ⟨row, hrow, rfl⟩ := List.mem_map.mp hmem
      obtain ⟨hrow, hfile⟩ := List.mem_filter.mp hrow
      have hkey := (isShareFile_iff ..).mp hfile
      rw [wrapInt32_eq (hup row hrow hkey)] at hrows
      have hfileid := (shareFileid_eq_iff h.md5Length hmd5 hrow).mpr hkey
      obtain ⟨members, hmembers, hpv⟩ := h.zset
      obtain ⟨fields, hfields, hname⟩ := h.hash
      obtain rfl : members = members' := Option.some.inj (hmembers.symm.trans hmembers')
      rw [← hfileid, if_pos ((hpv.mem_iff _).mpr ⟨row, hrow, rfl⟩)] at hcase
      obtain ⟨hzset, hhash⟩ := hcase
      have hscore : members.lookup (shareFileid row) = some row.pv :=
        (hpv _ _).mpr ⟨row, hrow, rfl, rfl⟩
      rw [hscore] at hzset
      have hmatch : ∀ r ∈ w.db.shareFileList,
          isShareFile md5 filename r ↔ shareFileid r = shareFileid row := by
        intro r hr
        rw [isShareFile_iff, hfileid, shareFileid_eq_iff h.md5Length hmd5 hr]
      have honly : ∀ r ∈ w.db.shareFileList, shareFileid r = shareFileid row → r = row := by
        intro r hr heq
        have hkey' := (shareFileid_eq_iff h.md5Length hmd5 hr).mp (heq.trans hfileid)
        exact Table.eq_of_key_eq ShareFile.key h.unique hr hrow (hkey'.trans hkey.symm)
      refine ⟨⟨⟨_, hzset, ?_⟩, fields, hhash.trans hfields, ?_⟩, ?_, ?_⟩
      · rw [hrows]
        exact hpv.setWhere (f := fun r => { r with pv := row.pv + 1 }) hrow rfl hmatch honly
      · rw [hrows]
        exact hname.setWhere_same (fun _ => rfl) fun _ => rfl
      · rw [UniqueShares, hrows]
        have hkeys := Table.map_setWhere (isShareFile md5 filename)
          (fun r => { r with pv := row.pv + 1 }) ShareFile.key w.db.shareFileList fun _ _ => rfl
        rw [hkeys]
        exact h.unique
      · rw [Md5Length, hrows]
        intro r hr
        rcases (Table.mem_setWhere ..).mp hr with ⟨old, hold, _, rfl⟩ | ⟨hold, _⟩
        · exact h.md5Length old hold
        · exact h.md5Length r hold

/-! ## One request -/

theorem mirrored_of_sharesFile (h : Mirrored len w) (hmd5 : md5.length = len)
    (hshares : SharesFile user md5 filename w w') : Mirrored len w' := by
  obtain ⟨members', hmembers', hcase⟩ := hshares
  obtain ⟨members, hmembers, hpv⟩ := h.zset
  obtain rfl : members = members' := Option.some.inj (hmembers.symm.trans hmembers')
  have hmem := mem_iff_shared filename hpv h.md5Length hmd5
  by_cases hshared : Shared w.db md5 filename
  · rw [if_pos (hmem.mpr hshared)] at hcase
    rw [hcase]
    exact h
  · rw [if_neg (mt hmem.mp hshared), if_neg hshared] at hcase
    obtain ⟨⟨time, hrows⟩, hadds⟩ := hcase
    exact mirrored_of_newShare h hmd5 hshared hrows hadds

theorem mirrored_of_unshares (h : Mirrored len w) (hmd5 : md5.length = len)
    (howner : ∀ row ∈ w.db.shareFileList, row.key = (md5, filename) → row.user = user)
    (hunshares : Unshares user md5 filename w w') : Mirrored len w' := by
  obtain ⟨members', hmembers', hcase⟩ := hunshares
  obtain ⟨members, hmembers, hpv⟩ := h.zset
  obtain rfl : members = members' := Option.some.inj (hmembers.symm.trans hmembers')
  have hmem := mem_iff_shared filename hpv h.md5Length hmd5
  by_cases hshared : Shared w.db md5 filename
  · rw [if_pos (hmem.mpr hshared)] at hcase
    exact mirrored_of_drops h hmd5 howner hcase.1 hcase.2
  · rw [if_neg (mt hmem.mp hshared)] at hcase
    by_cases hflag : sharedFlag w.db user md5 filename = 1
    · rw [if_pos hflag] at hcase
      refine mirrored_of_same h ?_ hcase.2
      -- the flag says shared, but there is no row to delete
      rw [hcase.1.shares]
      apply Table.deleteWhere_eq_self
      rw [List.countP_eq_zero]
      intro row hrow hof
      exact hshared (List.mem_map.mpr ⟨row, hrow, ((isShareFileOf_iff ..).mp hof).2⟩)
    · rw [if_neg hflag] at hcase
      exact mirrored_of_same h hcase.shares ⟨hcase.zset, hcase.hash⟩

/-- A completed request keeps the invariant. -/
theorem mirrored_of_exec {r : ShareRequest} {ret : Int} (h : Mirrored len w)
    (howner : r.ByOwner w) (hup : r.CountsUp w) (hmd5 : r.md5.length = len)
    (hexec : Exec ok r.prog w ret w') : Mirrored len w' := by
  cases r with
  | share user md5 filename =>
      have hshares := (wp_sound (wp_handleShareFile user md5 filename w) hexec).1
      exact mirrored_of_sharesFile h hmd5 hshares
  | cancel user md5 filename =>
      have hcancels := wp_sound (wp_handleCancelShareFile user md5 filename w) hexec
      refine mirrored_of_drops h hmd5 ?_ hcancels.drops hcancels.records
      obtain ⟨row, hrow, huser, hkey⟩ := howner
      intro other hother hkey'
      rw [Table.eq_of_key_eq ShareFile.key h.unique hother hrow (hkey'.trans hkey.symm)]
      exact huser
  | delete user md5 filename =>
      have hdeletes := wp_sound (wp_handleDeleteFile user md5 filename w) hexec
      exact mirrored_of_unshares h hmd5 howner hdeletes.unshares
  | countDownload md5 filename =>
      have hcounts := wp_sound (wp_handlePvFile md5 filename w) hexec
      exact mirrored_of_countsDownload h hmd5 hup hcounts

/-! ## Runs -/

/-- The worlds reached from a mirrored one by completed requests of owners, with no count
overflowing. -/
def MirrorRun (len : Nat) : World → Prop :=
  Run (Completes ok ShareRequest.prog) (Mirrored len) fun r w =>
    r.ByOwner w ∧ r.CountsUp w ∧ r.md5.length = len

theorem mirrored_empty (len : Nat) : Mirrored len World.empty where
  zset := ⟨∅, rfl, fun _ _ => by simp [World.empty, Tables.empty]⟩
  hash := ⟨∅, rfl, fun _ _ => by simp [World.empty, Tables.empty]⟩
  unique := List.nodup_nil
  md5Length := by simp [Md5Length, World.empty, Tables.empty]

/-- Every run keeps the share list unique and Redis its mirror. -/
theorem mirrorRun_mirrors (len : Nat) (w : World) (h : MirrorRun len w) :
    UniqueShares w.db ∧ Mirrors w := by
  have hinv : Mirrored len w := by
    refine Run.invariant (fun _ hinit => hinit) ?_ h
    rintro r w w' hinv hcond ⟨ret, hexec⟩
    exact mirrored_of_exec hinv hcond.1 hcond.2.1 hcond.2.2 hexec
  exact ⟨hinv.unique, hinv.toMirrors⟩

instance (r : ShareRequest) (w : World) : Decidable (r.ByOwner w) :=
  match r with
  | .share _ _ _ => isTrue trivial
  | .cancel user md5 filename =>
      inferInstanceAs (Decidable (∃ row ∈ w.db.shareFileList,
        row.user = user ∧ row.key = (md5, filename)))
  | .delete user md5 filename =>
      inferInstanceAs (Decidable (∀ row ∈ w.db.shareFileList,
        row.key = (md5, filename) → row.user = user))
  | .countDownload _ _ => isTrue trivial

instance (r : ShareRequest) (w : World) : Decidable (r.CountsUp w) :=
  match r with
  | .share _ _ _ => isTrue trivial
  | .cancel _ _ _ => isTrue trivial
  | .delete _ _ _ => isTrue trivial
  | .countDownload md5 filename =>
      inferInstanceAs (Decidable (∀ row ∈ w.db.shareFileList,
        row.key = (md5, filename) → IsInt32 (row.pv + 1)))

/-- Two users share files and one of them deletes hers after a download. -/
def sampleMirror : Option World :=
  sampleRun (okReply sampleSys) ShareRequest.prog
    (fun r w => r.ByOwner w ∧ r.CountsUp w ∧ r.md5.length = 1)
    [.share (CString.lit "v") (CString.lit "m") (CString.lit "a"),
      .share (CString.lit "u") (CString.lit "n") (CString.lit "b"),
      .countDownload (CString.lit "m") (CString.lit "a"),
      .delete (CString.lit "u") (CString.lit "n") (CString.lit "b"),
      .share (CString.lit "u") (CString.lit "m") (CString.lit "b"),
      .cancel (CString.lit "u") (CString.lit "m") (CString.lit "b")] World.empty

theorem mirrorRun_mirrors_sample :
    ∃ w, MirrorRun 1 w ∧ Shared w.db (CString.lit "m") (CString.lit "a") ∧
      UniqueShares w.db ∧ Mirrors w := by
  have hrun : MirrorRun 1 (sampleMirror.getD World.empty) :=
    run_sampleRun_getD (okStep_of_okReply sampleSys) (mirrored_empty 1) (by decide)
  exact ⟨_, hrun, by decide, mirrorRun_mirrors 1 _ hrun⟩

/-! ## A count that wraps -/

/-- The user `v` shares the file `a`, which has been downloaded as often as an `int` can
tell. -/
def fullShare : World where
  db := { Tables.empty with
    shareFileList :=
      [⟨CString.lit "v", CString.lit "m", CString.lit "t", CString.lit "a", 2147483647⟩] }
  snapshot := none
  redis := ((∅ : Keyspace).insert filePublicZset
    ⟨.zset ((∅ : ZSet).insert (CString.lit "ma") 2147483647), none⟩).insert fileNameHash
    ⟨.hash ((∅ : Hash).insert (CString.lit "ma") (CString.lit "a")), none⟩

theorem mirrored_fullShare : Mirrored 1 fullShare := by
  have hrows : fullShare.db.shareFileList =
      Table.insertRow
        ⟨CString.lit "v", CString.lit "m", CString.lit "t", CString.lit "a", 2147483647⟩
        World.empty.db.shareFileList := rfl
  have hadds : AddsRecords (fileidOf (CString.lit "m") (CString.lit "a")) (CString.lit "a")
      2147483647 World.empty fullShare := ⟨⟨∅, rfl, rfl⟩, ∅, rfl, rfl⟩
  exact mirrored_of_newShare (mirrored_empty 1) rfl (by simp [Shared, World.empty, Tables.empty])
    hrows hadds

/-- One more download of it. -/
def wrappedShare : Option World :=
  sampleRun (okReply sampleSys) ShareRequest.prog (fun r w => r.ByOwner w ∧ r.md5.length = 1)
    [.countDownload (CString.lit "m") (CString.lit "a")] fullShare

theorem mirrorRun_wraps :
    ¬ ∀ len w, Run (Completes ok ShareRequest.prog) (Mirrored len)
      (fun r w => r.ByOwner w ∧ r.md5.length = len) w → UniqueShares w.db ∧ Mirrors w := by
  intro hclaim
  have hrun : Run (Completes ok ShareRequest.prog) (Mirrored 1)
      (fun r w => r.ByOwner w ∧ r.md5.length = 1) (wrappedShare.getD fullShare) :=
    run_sampleRun_getD (okStep_of_okReply sampleSys) mirrored_fullShare (by decide)
  obtain ⟨members, hmembers, hpv⟩ := (hclaim 1 _ hrun).2.zset
  have hscore : members.lookup (CString.lit "ma") = some 2147483648 := by
    have hbind : ((zsetOf (wrappedShare.getD fullShare).redis filePublicZset).bind
        fun members => members.lookup (CString.lit "ma")) = some 2147483648 := by decide
    rwa [hmembers] at hbind
  obtain ⟨row, hrow, _, hrowpv⟩ := (hpv _ _).mp hscore
  have hpvs : ∀ row ∈ (wrappedShare.getD fullShare).db.shareFileList, row.pv = -2147483648 := by
    decide
  rw [hpvs row hrow] at hrowpv
  cases hrowpv

end Files
end TcMuzi
