import TcMuzi.Files.ShareMirror
import TcMuzi.Files.SharePv
import TcMuzi.Server.Interleaved

/-!
# Downloads and cancellations of shared files at the same time

Any number of `handlePvFile` and `handleCancelShareFile` calls of `api_deal_sharefile.cc`
interleave their commands, all of which succeed.  A download commits in MySQL before it
looks at Redis, a cancellation deletes the row before it removes the records of Redis.

* `MirrorPhase` is how far a call has got.
* `Records` says what Redis owes the share list to the calls that are between the two.
* `StillThere` is the condition under which a download finds its member, and a count that an
  `int` can go on from.
-/

namespace TcMuzi
namespace Files

open Base Server Redis Api Mysql Lib

/-! ## One call -/

inductive MirrorCall
  | download (md5 fileName : CString)
  | cancel (user md5 fileName : CString)
deriving DecidableEq

def MirrorCall.prog : MirrorCall → Handler Int
  | .download md5 fileName => handlePvFile md5 fileName
  | .cancel user md5 fileName => handleCancelShareFile user md5 fileName

def MirrorCall.file : MirrorCall → PvCall
  | .download md5 fileName => ⟨md5, fileName⟩
  | .cancel _ md5 fileName => ⟨md5, fileName⟩

def MirrorCall.fileid (call : MirrorCall) : CString := fileidOf call.file.md5 call.file.fileName

inductive MirrorPhase
  -- the transaction of a download; a cancellation has not deleted its row
  | sql (p : PvPhase)
  -- the row has been deleted, then the member of the sorted set
  | dropped
  | erased
  | done

def mirrorStep : (c : Server.Command) → MirrorPhase → c.Reply → MirrorPhase → Prop
  | .startTransaction, _, _, q' => q' = .sql .begun
  | .query (.shareFilePvForUpdate _ _), _, r, q' =>
      (r = some [] ∧ q' = .sql .missing) ∨ ∃ pv pvs, r = some (pv :: pvs) ∧ q' = .sql (.read pv)
  | .update (.setShareFilePv _ _ _), q, r, q' =>
      (∃ n, r = some n) ∧ ∃ pv, q = .sql (.read pv) ∧ q' = .sql (.wrote pv)
  | .update (.deleteShareFile _ _ _), _, r, q' => (∃ n, r = some n) ∧ q' = .dropped
  | .update _, q, r, q' => (∃ n, r = some n) ∧ q' = q
  | .commit, _, _, q' => q' = .sql .committed
  | .rollback, _, _, q' => q' = .sql .closed
  | .redis (.zscore _ _), q, r, q' => (∃ s, r = .reply (.string s)) ∧ q' = q
  | .redis (.zincrby _ _), _, r, q' => (∃ s, r = .reply (.string s)) ∧ q' = .done
  | .redis (.zrem _ _), _, r, q' => (∃ n, r = .reply (.integer n)) ∧ q' = .erased
  | .redis (.hdel _ _), _, _, q' => q' = .done
  | .redis (.decr _), q, r, q' => (∃ n, r = .reply (.integer n)) ∧ q' = q
  | .redis (.set _ _), q, r, q' => r = .reply statusOk ∧ q' = q
  | _, q, _, q' => q' = q

def mirrorMay (call : MirrorCall) : MirrorPhase → Server.Command → Prop
  | q, .startTransaction => q = .sql .idle
  | q, .query (.shareFilePvForUpdate md5 fileName) =>
      q = .sql .begun ∧ (md5, fileName) = call.file.key
  | q, .update (.setShareFilePv md5 fileName n) =>
      ∃ pv, q = .sql (.read pv) ∧ (md5, fileName) = call.file.key ∧ n = wrapInt32 (pv + 1)
  | q, .update (.setSharedStatus ..) => q = .sql .idle
  | q, .update (.deleteShareFile user md5 fileName) =>
      q = .sql .idle ∧ call = .cancel user md5 fileName
  | q, .commit => ∃ pv, q = .sql (.wrote pv)
  | q, .rollback => q = .sql .missing
  | q, .redis (.zscore key member) =>
      q = .sql .committed ∧ key = filePublicZset ∧ member = call.fileid
  | q, .redis (.zincrby key member) =>
      q = .sql .committed ∧ key = filePublicZset ∧ member = call.fileid
  | q, .redis (.zrem key member) => q = .dropped ∧ key = filePublicZset ∧ member = call.fileid
  | q, .redis (.hdel key field) => q = .erased ∧ key = fileNameHash ∧ field = call.fileid
  | _, .redis (.decr key) => key = filePublicCount
  | _, .redis (.set key _) => key = filePublicCount
  | _, .getDBConn _ => True
  | _, .relDBConn _ => True
  | _, .getCacheConn => True
  | _, .relCacheConn => True
  | _, _ => False

def mirrorPhases (call : MirrorCall) : Sem Server.Command Command.Reply MirrorPhase where
  step := mirrorStep
  safe := mirrorMay call

/-- Nothing of the call is left to do. -/
def MirrorPhase.Finished (q : MirrorPhase) : Prop := q = .done ∨ q = .sql .closed

section Call

variable {call : MirrorCall}

theorem wp_mirror_connections {body : Ptr → Ptr → Handler Int}
    {Q : Int → MirrorPhase → Prop} {q : MirrorPhase}
    (h : ∀ dbConn cacheConn, wp (mirrorPhases call) (body dbConn cacheConn) Q q) :
    wp (mirrorPhases call) (withDBConn .tuchuangSlave fun dbConn =>
      withCacheConn fun cacheConn => body dbConn cacheConn) Q q := by
  have hidle : ∀ c, (∀ q, mirrorMay call q c) → (∀ q r q', mirrorStep c q r q' → q' = q) →
      (mirrorPhases call).Idle c := fun c hmay hstep q => ⟨hmay q, hstep q⟩
  refine wp_withDBConn_of_idle (hidle _ (fun _ => trivial) fun _ _ _ h => h)
    (hidle _ (fun _ => trivial) fun _ _ _ h => h) fun dbConn => ?_
  exact wp_withCacheConn_of_idle (hidle _ (fun _ => trivial) fun _ _ _ h => h)
    (hidle _ (fun _ => trivial) fun _ _ _ h => h) fun cacheConn => h dbConn cacheConn

theorem wp_mirror_download (md5 fileName : CString) :
    wp (mirrorPhases (.download md5 fileName)) (handlePvFile md5 fileName)
      (fun _ q => q.Finished) (.sql .idle) := by
  refine wp_mirror_connections fun dbConn cacheConn => ?_
  cases dbConn with
  | null => trivial
  | conn =>
      refine ⟨rfl, ?_⟩
      rintro started _ rfl
      refine ⟨⟨rfl, rfl⟩, ?_⟩
      rintro result _ (⟨rfl, rfl⟩ | ⟨pv, pvs, rfl, rfl⟩)
      · refine ⟨rfl, ?_⟩
        rintro r _ rfl
        exact Or.inr rfl
      · refine ⟨⟨pv, rfl, rfl, rfl⟩, ?_⟩
        rintro updated _ ⟨⟨n, rfl⟩, pv', hread, rfl⟩
        show wp _ ((if (decide (0 < n) || !false) = true then _ else _) >>= _) _ _
        rw [Bool.not_false, Bool.or_true, if_pos rfl]
        refine ⟨⟨pv', rfl⟩, ?_⟩
        rintro r _ rfl
        cases cacheConn with
        | null => trivial
        | conn =>
            refine ⟨⟨rfl, rfl, rfl⟩, ?_⟩
            rintro score _ ⟨⟨s, rfl⟩, rfl⟩
            refine ⟨⟨rfl, rfl, rfl⟩, ?_⟩
            rintro next _ ⟨⟨s', rfl⟩, rfl⟩
            exact Or.inl rfl

theorem wp_mirror_decr {cacheConn : Ptr} {Q : Int → MirrorPhase → Prop} {q : MirrorPhase}
    (h : Q 0 q) : wp (mirrorPhases call) (cacheDecrCount cacheConn filePublicCount) Q q := by
  cases cacheConn with
  | null => trivial
  | conn =>
      refine ⟨rfl, ?_⟩
      rintro r q ⟨⟨n, rfl⟩, rfl⟩
      show wp _ (if n < 0 then _ else _) _ _
      by_cases hneg : n < 0
      · rw [if_pos hneg]
        refine ⟨rfl, ?_⟩
        rintro r q ⟨rfl, rfl⟩
        exact h
      · rw [if_neg hneg]
        exact h

theorem wp_mirror_cancel (user md5 fileName : CString) :
    wp (mirrorPhases (.cancel user md5 fileName)) (handleCancelShareFile user md5 fileName)
      (fun _ q => q.Finished) (.sql .idle) := by
  refine wp_mirror_connections fun dbConn cacheConn => ?_
  cases dbConn with
  | null => trivial
  | conn =>
      refine ⟨rfl, ?_⟩
      rintro updated _ ⟨⟨n, rfl⟩, rfl⟩
      show wp _ (if (decide (0 < n) || !false) = true then _ else _) _ _
      rw [Bool.not_false, Bool.or_true, if_pos rfl, wp_bind]
      refine wp_mirror_decr ?_
      refine ⟨⟨rfl, rfl⟩, ?_⟩
      rintro dropped _ ⟨⟨m, rfl⟩, rfl⟩
      cases cacheConn with
      | null => trivial
      | conn =>
          refine ⟨⟨rfl, rfl, rfl⟩, ?_⟩
          rintro r _ ⟨⟨k, rfl⟩, rfl⟩
          refine ⟨⟨rfl, rfl, rfl⟩, ?_⟩
          rintro r _ rfl
          cases r with
          | initFailed => exact Or.inl rfl
          | noReply => exact Or.inl rfl
          | reply reply => exact Or.inl rfl

theorem wp_mirror_prog : wp (mirrorPhases call) call.prog (fun _ q => q.Finished) (.sql .idle) := by
  cases call with
  | download md5 fileName => exact wp_mirror_download md5 fileName
  | cancel user md5 fileName => exact wp_mirror_cancel user md5 fileName

end Call

/-! ## What Redis owes the share list -/

/-- The download has been committed and not been counted in Redis yet. -/
def MirrorPhase.Pending : MirrorPhase → Bool
  | .sql .committed => true
  | _ => false

/-- The downloads of a file that Redis does not know of. -/
def pending {ι : Type} [Fintype ι] (calls : ι → MirrorCall) (q : ι → MirrorPhase)
    (fileid : CString) : Nat :=
  threadsIn (fun i => ((calls i).fileid, (q i).Pending)) (fileid, true)

/-- A shared file is short of the pending downloads; the records of a file that is no longer
shared are about to be removed by a cancellation, if there are any. -/
structure Records {ι : Type} [Fintype ι] (calls : ι → MirrorCall) (w : World)
    (q : ι → MirrorPhase) : Prop where
  zset : ∃ members, zsetOf w.redis filePublicZset = some members
  hash : ∃ fields, hashOf w.redis fileNameHash = some fields
  score : ∀ row ∈ w.db.shareFileList,
    scoreOf w (shareFileid row) = some (row.pv - pending calls q (shareFileid row))
  name : ∀ row ∈ w.db.shareFileList, nameOf w (shareFileid row) = some row.fileName
  dropped : ∀ i, q i = .dropped ∨ q i = .erased →
    (calls i).fileid ∉ w.db.shareFileList.map shareFileid
  noScore : ∀ fileid, fileid ∉ w.db.shareFileList.map shareFileid →
    scoreOf w fileid = none ∨ ∃ i, (calls i).fileid = fileid ∧ q i = .dropped
  noName : ∀ fileid, fileid ∉ w.db.shareFileList.map shareFileid →
    nameOf w fileid = none ∨
      ∃ i, (calls i).fileid = fileid ∧ (q i = .dropped ∨ q i = .erased)

section Pending

variable {ι : Type} [Fintype ι] [DecidableEq ι] {calls : ι → MirrorCall} {q : ι → MirrorPhase}
  {i : ι} {p : MirrorPhase}

theorem pending_update (calls : ι → MirrorCall) (q : ι → MirrorPhase) (i : ι) (p : MirrorPhase)
    (fileid : CString) :
    pending calls (Function.update q i p) fileid +
        (if (calls i).fileid = fileid ∧ (q i).Pending = true then 1 else 0) =
      pending calls q fileid + if (calls i).fileid = fileid ∧ p.Pending = true then 1 else 0 := by
  have h := threadsIn_update (fun j => ((calls j).fileid, (q j).Pending)) i
    ((calls i).fileid, p.Pending) (fileid, true)
  have hfun : Function.update (fun j => ((calls j).fileid, (q j).Pending)) i
      ((calls i).fileid, p.Pending) =
      fun j => ((calls j).fileid, (Function.update q i p j).Pending) := by
    funext j
    by_cases hj : j = i
    · subst hj
      rw [Function.update_self, Function.update_self]
    · rw [Function.update_of_ne hj, Function.update_of_ne hj]
  rw [hfun] at h
  simp only [Prod.mk.injEq] at h
  exact h

theorem pending_same (h : p.Pending = (q i).Pending) (fileid : CString) :
    pending calls (Function.update q i p) fileid = pending calls q fileid := by
  have hupdate := pending_update calls q i p fileid
  rw [h] at hupdate
  omega

theorem pending_other {fileid : CString} (h : fileid ≠ (calls i).fileid) :
    pending calls (Function.update q i p) fileid = pending calls q fileid := by
  have hupdate := pending_update calls q i p fileid
  rw [if_neg fun hpending => h hpending.1.symm, if_neg fun hpending => h hpending.1.symm]
    at hupdate
  omega

/-- A download is committed. -/
theorem pending_begins (calls : ι → MirrorCall) (hq : (q i).Pending = false)
    (hp : p.Pending = true) :
    pending calls (Function.update q i p) (calls i).fileid =
      pending calls q (calls i).fileid + 1 := by
  have hupdate := pending_update calls q i p (calls i).fileid
  rw [if_neg (by simp [hq]), if_pos ⟨rfl, hp⟩] at hupdate
  exact hupdate

/-- It is counted in Redis. -/
theorem pending_ends (calls : ι → MirrorCall) (hq : (q i).Pending = true)
    (hp : p.Pending = false) :
    pending calls (Function.update q i p) (calls i).fileid + 1 =
      pending calls q (calls i).fileid := by
  have hupdate := pending_update calls q i p (calls i).fileid
  rw [if_pos ⟨rfl, hq⟩, if_neg (by simp [hp])] at hupdate
  exact hupdate

end Pending

section Records

variable {ι : Type} [Fintype ι] [DecidableEq ι] {calls : ι → MirrorCall} {w w' : World}
  {q : ι → MirrorPhase} {i : ι} {p : MirrorPhase}

/-- A step to which the records do not matter. -/
theorem Records.of_same (h : Records calls w q)
    (hrows : w'.db.shareFileList = w.db.shareFileList)
    (hzset : zsetOf w'.redis filePublicZset = zsetOf w.redis filePublicZset)
    (hhash : hashOf w'.redis fileNameHash = hashOf w.redis fileNameHash)
    (hpending : p.Pending = (q i).Pending) (hdropped : p = .dropped ↔ q i = .dropped)
    (herased : p = .erased ↔ q i = .erased) : Records calls w' (Function.update q i p) := by
  have hscore : ∀ fileid, scoreOf w' fileid = scoreOf w fileid := fun fileid => by
    rw [scoreOf, scoreOf, hzset]
  have hname : ∀ fileid, nameOf w' fileid = nameOf w fileid := fun fileid => by
    rw [nameOf, nameOf, hhash]
  have hd := update_eq_iff hdropped
  have he := update_eq_iff herased
  refine ⟨?_, ?_, ?_, ?_, ?_, ?_, ?_⟩
  · rw [hzset]
    exact h.zset
  · rw [hhash]
    exact h.hash
  · rw [hrows]
    intro row hrow
    rw [hscore, pending_same hpending]
    exact h.score row hrow
  · rw [hrows]
    intro row hrow
    rw [hname]
    exact h.name row hrow
  · simp only [hd, he, hrows]
    exact h.dropped
  · simp only [hd, hrows, hscore]
    exact h.noScore
  · simp only [hd, he, hrows, hname]
    exact h.noName

/-- A download is committed: its row and the pending downloads go up by one. -/
theorem Records.commit (h : Records calls w q) {pv : Int} (hq : q i = .sql (.wrote pv))
    (hup : IsInt32 (pv + 1))
    (hpv : ∀ row ∈ w.db.shareFileList, row.key = (calls i).file.key → row.pv = pv)
    (hmatch : ∀ row ∈ w.db.shareFileList, shareFileid row = (calls i).fileid →
      row.key = (calls i).file.key)
    (hrows : w'.db.shareFileList = w.db.shareFileList.map fun row =>
      if row.key = (calls i).file.key then { row with pv := wrapInt32 (pv + 1) } else row)
    (hredis : w'.redis = w.redis) :
    Records calls w' (Function.update q i (.sql .committed)) := by
  rw [wrapInt32_eq hup] at hrows
  have hscore : ∀ fileid, scoreOf w' fileid = scoreOf w fileid := fun fileid => by
    rw [scoreOf, scoreOf, hredis]
  have hname : ∀ fileid, nameOf w' fileid = nameOf w fileid := fun fileid => by
    rw [nameOf, nameOf, hredis]
  have hfileids : w'.db.shareFileList.map shareFileid = w.db.shareFileList.map shareFileid := by
    rw [hrows, List.map_map]
    refine List.map_congr_left fun row _ => ?_
    rw [Function.comp_apply]
    split <;> rfl
  have hd : ∀ j, Function.update q i (.sql .committed) j = .dropped ↔ q j = .dropped :=
    update_eq_iff (by simp [hq])
  have he : ∀ j, Function.update q i (.sql .committed) j = .erased ↔ q j = .erased :=
    update_eq_iff (by simp [hq])
  refine ⟨?_, ?_, ?_, ?_, ?_, ?_, ?_⟩
  · rw [hredis]
    exact h.zset
  · rw [hredis]
    exact h.hash
  · rw [hrows]
    intro row' hrow'
    obtain ⟨row, hrow, rfl⟩ := List.mem_map.mp hrow'
    rw [hscore]
    by_cases hkey : row.key = (calls i).file.key
    · rw [if_pos hkey]
      have hfileid : shareFileid row = (calls i).fileid := by
        obtain ⟨hmd5, hname⟩ := Prod.mk.inj hkey
        rw [shareFileid, hmd5, hname]
        rfl
      -- the row and the pending downloads go up together, the score does not
      have hphase : (q i).Pending = false := by rw [hq]; rfl
      have hnext := pending_begins (p := .sql .committed) calls hphase rfl
      have hold := h.score row hrow
      rw [hpv row hrow hkey, hfileid] at hold
      show scoreOf w (shareFileid row) = some (pv + 1 - pending calls _ (shareFileid row))
      rw [hfileid, hold, hnext]
      congr 1
      omega
    · rw [if_neg hkey, pending_other fun hfileid => hkey (hmatch row hrow hfileid)]
      exact h.score row hrow
  · rw [hrows]
    intro row' hrow'
    obtain ⟨row, hrow, rfl⟩ := List.mem_map.mp hrow'
    rw [hname]
    split
    · exact h.name row hrow
    · exact h.name row hrow
  · simp only [hd, he, hfileids]
    exact h.dropped
  · simp only [hd, hfileids, hscore]
    exact h.noScore
  · simp only [hd, he, hfileids, hname]
    exact h.noName

/-- A pending download is counted in Redis, where the member is still there. -/
theorem Records.count (h : Records calls w q) (hq : q i = .sql .committed)
    (hfound : (scoreOf w (calls i).fileid).isSome) {members : ZSet}
    (hmembers : zsetOf w.redis filePublicZset = some members) :
    Records calls (withRedis w (storeZset w.redis filePublicZset
      (members.insert (calls i).fileid ((members.lookup (calls i).fileid).getD 0 + 1))))
      (Function.update q i .done) := by
  have hd : ∀ j, Function.update q i .done j = .dropped ↔ q j = .dropped :=
    update_eq_iff (by simp [hq])
  have he : ∀ j, Function.update q i .done j = .erased ↔ q j = .erased :=
    update_eq_iff (by simp [hq])
  have hlookup : ∀ fileid, members.lookup fileid = scoreOf w fileid := fun fileid => by
    rw [scoreOf, hmembers]
    rfl
  refine ⟨?_, ?_, fun row hrow => ?_, fun row hrow => ?_, ?_, fun fileid hgone => ?_,
    fun fileid hgone => ?_⟩
  · rw [withRedis_redis]
    exact ⟨_, zsetOf_storeZset ..⟩
  · rw [withRedis_redis, SameBut.hashOf (sameBut_storeZset _ _ _) (by decide)]
    exact h.hash
  · rw [scoreOf_storeZset]
    by_cases hfileid : shareFileid row = (calls i).fileid
    · have hold := h.score row hrow
      have hphase : (q i).Pending = true := by rw [hq]; rfl
      have hnext := pending_ends (p := .done) calls hphase rfl
      rw [hfileid] at hold ⊢
      rw [AList.lookup_insert, hlookup, hold, ← hnext, Option.getD_some]
      congr 1
      push_cast
      omega
    · rw [AList.lookup_insert_ne hfileid, hlookup, pending_other hfileid]
      exact h.score row hrow
  · rw [nameOf_storeZset]
    exact h.name row hrow
  · simp only [hd, he]
    exact h.dropped
  · simp only [hd]
    rw [scoreOf_storeZset]
    by_cases hfileid : fileid = (calls i).fileid
    · right
      rcases h.noScore fileid hgone with hnone | hcancel
      · rw [← hfileid, hnone] at hfound
        cases hfound
      · exact hcancel
    · rw [AList.lookup_insert_ne hfileid, hlookup]
      exact h.noScore fileid hgone
  · simp only [hd, he]
    rw [nameOf_storeZset]
    exact h.noName fileid hgone

/-- What a cancellation leaves are the members of the other files. -/
theorem mem_fileids_deleteWhere {rows : List ShareFile} {gone : ShareFile → Bool}
    {removed : CString} (hgone : ∀ row ∈ rows, gone row ↔ shareFileid row = removed)
    (fileid : CString) : fileid ∈ (Table.deleteWhere gone rows).map shareFileid ↔
      fileid ∈ rows.map shareFileid ∧ fileid ≠ removed := by
  constructor
  · intro hfileid
    obtain ⟨row, hrow, rfl⟩ := List.mem_map.mp hfileid
    obtain ⟨hrow, hnot⟩ := (Table.mem_deleteWhere ..).mp hrow
    exact ⟨List.mem_map.mpr ⟨row, hrow, rfl⟩, fun heq => hnot ((hgone row hrow).mpr heq)⟩
  · rintro ⟨hfileid, hne⟩
    obtain ⟨row, hrow, rfl⟩ := List.mem_map.mp hfileid
    refine List.mem_map.mpr ⟨row, (Table.mem_deleteWhere ..).mpr ⟨hrow, fun hdel => ?_⟩, rfl⟩
    exact hne ((hgone row hrow).mp hdel)

/-- A cancellation deletes its row. -/
theorem Records.drop (h : Records calls w q) (hq : q i = .sql .idle) (gone : ShareFile → Bool)
    (hgone : ∀ row ∈ w.db.shareFileList, gone row ↔ shareFileid row = (calls i).fileid)
    (hrows : w'.db.shareFileList = Table.deleteWhere gone w.db.shareFileList)
    (hredis : w'.redis = w.redis) : Records calls w' (Function.update q i .dropped) := by
  have hscore : ∀ fileid, scoreOf w' fileid = scoreOf w fileid := fun fileid => by
    rw [scoreOf, scoreOf, hredis]
  have hname : ∀ fileid, nameOf w' fileid = nameOf w fileid := fun fileid => by
    rw [nameOf, nameOf, hredis]
  have hmem : ∀ row, row ∈ w'.db.shareFileList → row ∈ w.db.shareFileList := by
    intro row hrow
    rw [hrows] at hrow
    exact ((Table.mem_deleteWhere ..).mp hrow).1
  have hfileids : ∀ fileid, fileid ∈ w'.db.shareFileList.map shareFileid ↔
      fileid ∈ w.db.shareFileList.map shareFileid ∧ fileid ≠ (calls i).fileid := by
    intro fileid
    rw [hrows]
    exact mem_fileids_deleteWhere hgone fileid
  -- the calls that were dropped or erased before are another's
  have hstays : ∀ j a, a ≠ .sql .idle → q j = a → Function.update q i .dropped j = a := by
    intro j a ha hj
    rw [Function.update_of_ne, hj]
    rintro rfl
    exact ha (hj.symm.trans hq)
  refine ⟨?_, ?_, fun row hrow => ?_, fun row hrow => ?_, fun j hj => ?_, fun fileid hnot => ?_,
    fun fileid hnot => ?_⟩
  · rw [hredis]
    exact h.zset
  · rw [hredis]
    exact h.hash
  · rw [hscore, pending_same (by rw [hq]; rfl)]
    exact h.score row (hmem row hrow)
  · rw [hname]
    exact h.name row (hmem row hrow)
  · by_cases hji : j = i
    · rw [hji]
      exact fun hmem => ((hfileids _).mp hmem).2 rfl
    · rw [Function.update_of_ne hji] at hj
      exact fun hmem => h.dropped j hj ((hfileids _).mp hmem).1
  · rw [hscore]
    by_cases hfileid : fileid = (calls i).fileid
    · exact Or.inr ⟨i, hfileid.symm, Function.update_self ..⟩
    · have hold : fileid ∉ w.db.shareFileList.map shareFileid :=
        fun hmem => hnot ((hfileids fileid).mpr ⟨hmem, hfileid⟩)
      rcases h.noScore fileid hold with hnone | ⟨j, hj, hcancel⟩
      · exact Or.inl hnone
      · exact Or.inr ⟨j, hj, hstays j _ (by simp) hcancel⟩
  · rw [hname]
    by_cases hfileid : fileid = (calls i).fileid
    · exact Or.inr ⟨i, hfileid.symm, Or.inl (Function.update_self ..)⟩
    · have hold : fileid ∉ w.db.shareFileList.map shareFileid :=
        fun hmem => hnot ((hfileids fileid).mpr ⟨hmem, hfileid⟩)
      rcases h.noName fileid hold with hnone | ⟨j, hj, hcancel⟩
      · exact Or.inl hnone
      · exact Or.inr ⟨j, hj, hcancel.imp (hstays j _ (by simp)) (hstays j _ (by simp))⟩

/-- It removes the member of the sorted set. -/
theorem Records.erase (h : Records calls w q) (hq : q i = .dropped) {members : ZSet}
    (hmembers : zsetOf w.redis filePublicZset = some members) :
    Records calls (withRedis w (storeZset w.redis filePublicZset
      (members.erase (calls i).fileid))) (Function.update q i .erased) := by
  have hlookup : ∀ fileid, members.lookup fileid = scoreOf w fileid := fun fileid => by
    rw [scoreOf, hmembers]
    rfl
  have hgone := h.dropped i (Or.inl hq)
  have hrow_ne : ∀ row ∈ w.db.shareFileList, shareFileid row ≠ (calls i).fileid :=
    fun row hrow hfileid => hgone (List.mem_map.mpr ⟨row, hrow, hfileid⟩)
  have hremoves : ∀ j, Function.update q i .erased j = .dropped ∨
      Function.update q i .erased j = .erased ↔ q j = .dropped ∨ q j = .erased := by
    intro j
    by_cases hj : j = i
    · subst hj
      simp [hq]
    · rw [Function.update_of_ne hj]
  refine ⟨?_, ?_, fun row hrow => ?_, fun row hrow => ?_, ?_, fun fileid hnot => ?_,
    fun fileid hnot => ?_⟩
  · rw [withRedis_redis]
    exact ⟨_, zsetOf_storeZset ..⟩
  · rw [withRedis_redis, SameBut.hashOf (sameBut_storeZset _ _ _) (by decide)]
    exact h.hash
  · rw [scoreOf_storeZset, AList.lookup_erase_ne (hrow_ne row hrow), hlookup,
      pending_same (by rw [hq]; rfl)]
    exact h.score row hrow
  · rw [nameOf_storeZset]
    exact h.name row hrow
  · simp only [hremoves]
    exact h.dropped
  · rw [scoreOf_storeZset]
    by_cases hfileid : fileid = (calls i).fileid
    · rw [hfileid]
      exact Or.inl (AList.lookup_erase ..)
    · rw [AList.lookup_erase_ne hfileid, hlookup]
      obtain hnone | ⟨j, hj, hcancel⟩ := h.noScore fileid hnot
      · exact Or.inl hnone
      · refine Or.inr ⟨j, hj, ?_⟩
        rw [Function.update_of_ne, hcancel]
        rintro rfl
        exact hfileid hj.symm
  · simp only [hremoves]
    rw [nameOf_storeZset]
    exact h.noName fileid hnot

/-- It removes the field of the hash. -/
theorem Records.forget (h : Records calls w q) (hq : q i = .erased) {fields : Hash}
    (hfields : hashOf w.redis fileNameHash = some fields) :
    Records calls (withRedis w (storeHash w.redis fileNameHash
      (fields.erase (calls i).fileid))) (Function.update q i .done) := by
  have hlookup : ∀ fileid, fields.lookup fileid = nameOf w fileid := fun fileid => by
    rw [nameOf, hfields]
    rfl
  have hgone := h.dropped i (Or.inr hq)
  have hrow_ne : ∀ row ∈ w.db.shareFileList, shareFileid row ≠ (calls i).fileid :=
    fun row hrow hfileid => hgone (List.mem_map.mpr ⟨row, hrow, hfileid⟩)
  have hd : ∀ j, Function.update q i .done j = .dropped ↔ q j = .dropped :=
    update_eq_iff (by simp [hq])
  refine ⟨?_, ?_, fun row hrow => ?_, fun row hrow => ?_, fun j hj => ?_,
    fun fileid hnot => ?_, fun fileid hnot => ?_⟩
  · rw [withRedis_redis, SameBut.zsetOf (sameBut_storeHash _ _ _) (by decide)]
    exact h.zset
  · rw [withRedis_redis]
    exact ⟨_, hashOf_storeHash ..⟩
  · rw [scoreOf_storeHash, pending_same (by rw [hq]; rfl)]
    exact h.score row hrow
  · rw [nameOf_storeHash, AList.lookup_erase_ne (hrow_ne row hrow), hlookup]
    exact h.name row hrow
  · by_cases hji : j = i
    · rw [hji]
      exact hgone
    · rw [Function.update_of_ne hji] at hj
      exact h.dropped j hj
  · simp only [hd]
    rw [scoreOf_storeHash]
    exact h.noScore fileid hnot
  · rw [nameOf_storeHash]
    by_cases hfileid : fileid = (calls i).fileid
    · rw [hfileid]
      exact Or.inl (AList.lookup_erase ..)
    · rw [AList.lookup_erase_ne hfileid, hlookup]
      obtain hnone | ⟨j, hj, hcancel⟩ := h.noName fileid hnot
      · exact Or.inl hnone
      · refine Or.inr ⟨j, hj, ?_⟩
        rw [Function.update_of_ne]
        · exact hcancel
        · rintro rfl
          exact hfileid hj.symm

omit [DecidableEq ι] in
/-- Redis has exactly the shared files once nothing is left to do. -/
theorem Records.mirrors (h : Records calls w q) (hdone : ∀ i, (q i).Finished) : Mirrors w := by
  have hpending : ∀ fileid, pending calls q fileid = 0 := by
    refine fun fileid => threadsIn_eq_zero fun i hi => ?_
    have hi : (q i).Pending = true := (Prod.mk.inj hi).2
    rcases hdone i with hq | hq <;> rw [hq] at hi <;> cases hi
  have hquiet : ∀ i, q i ≠ .dropped ∧ q i ≠ .erased := by
    intro i
    rcases hdone i with hq | hq <;> rw [hq] <;> simp
  obtain ⟨members, hmembers⟩ := h.zset
  obtain ⟨fields, hfields⟩ := h.hash
  refine ⟨⟨members, hmembers, fun fileid n => ?_⟩, fields, hfields, fun fileid name => ?_⟩
  · have hlookup : members.lookup fileid = scoreOf w fileid := by
      rw [scoreOf, hmembers]
      rfl
    rw [hlookup]
    constructor
    · intro hscore
      by_cases hshared : fileid ∈ w.db.shareFileList.map shareFileid
      · obtain ⟨row, hrow, rfl⟩ := List.mem_map.mp hshared
        rw [h.score row hrow, hpending] at hscore
        refine ⟨row, hrow, rfl, ?_⟩
        have := Option.some.inj hscore
        omega
      · rcases h.noScore fileid hshared with hnone | ⟨i, _, hi⟩
        · rw [hnone] at hscore
          cases hscore
        · exact absurd hi (hquiet i).1
    · rintro ⟨row, hrow, rfl, rfl⟩
      rw [h.score row hrow, hpending]
      simp
  · have hlookup : fields.lookup fileid = nameOf w fileid := by
      rw [nameOf, hfields]
      rfl
    rw [hlookup]
    constructor
    · intro hname
      by_cases hshared : fileid ∈ w.db.shareFileList.map shareFileid
      · obtain ⟨row, hrow, rfl⟩ := List.mem_map.mp hshared
        rw [h.name row hrow] at hname
        exact ⟨row, hrow, rfl, Option.some.inj hname⟩
      · rcases h.noName fileid hshared with hnone | ⟨i, _, hi | hi⟩
        · rw [hnone] at hname
          cases hname
        · exact absurd hi (hquiet i).1
        · exact absurd hi (hquiet i).2
    · rintro ⟨row, hrow, rfl, rfl⟩
      exact h.name row hrow

end Records

/-! ## The invariant -/

/-- Who shares what. -/
def owned (row : ShareFile) : CString × CString × CString := (row.user, row.key)

/-- At the start every file has a member of its own, and a cancellation is by the user who
shares the file. -/
structure Separate {ι : Type} (calls : ι → MirrorCall) (t₀ : Tables) : Prop where
  fileids : (t₀.shareFileList.map shareFileid).Nodup
  owner : ∀ i user md5 fileName, calls i = .cancel user md5 fileName →
    (user, md5, fileName) ∈ t₀.shareFileList.map owned

/-- The transaction of a call and the committed tables, by the call's phase. -/
def MirrorAgrees (call : MirrorCall) (t : Tables) (txn : Option (Txn Update Lock)) :
    MirrorPhase → Prop
  | .sql p => PvAgrees call.file t txn p
  | _ => txn = none

/-- A download has found its file, with that `pv`. -/
def MirrorPhase.Found (pv : Int) : MirrorPhase → Prop
  | .sql (.read n) => n = pv
  | .sql (.wrote n) => n = pv
  | _ => False

/-- A download reads a `pv` that has a successor in an `int`, and looks at or counts up a
member that is still there. -/
def StillThere : Server.Command → World → Prop
  | .query (.shareFilePvForUpdate md5 fileName), w =>
      ∀ row ∈ w.db.shareFileList, row.key = (md5, fileName) → IsInt32 (row.pv + 1)
  | .redis (.zscore _ member), w => (scoreOf w member).isSome
  | .redis (.zincrby _ member), w => (scoreOf w member).isSome
  | _, _ => True

structure MirrorInv {ι : Type} [Fintype ι] [DecidableEq ι] (calls : ι → MirrorCall) (t₀ : Tables)
    (s : Servers ι) (q : ι → MirrorPhase) : Prop where
  compatible : s.store.Compatible conflict
  agrees : s.store.Each (fun i => MirrorAgrees (calls i)) q
  rows : (s.store.committed.shareFileList.map owned).Sublist (t₀.shareFileList.map owned)
  found : ∀ i pv, (q i).Found pv →
    (calls i).file.key ∈ t₀.shareFileList.map ShareFile.key ∧ IsInt32 (pv + 1)
  records : Records calls s.world q

theorem MirrorAgrees.transfer {call : MirrorCall} {t t' : Tables} {txn : Option (Txn Update Lock)}
    {p : MirrorPhase} (h : MirrorAgrees call t txn p)
    (hpv : ∀ writes locks pv, txn = some ⟨writes, locks⟩ → KeepsPv call.file t locks pv →
      KeepsPv call.file t' locks pv) : MirrorAgrees call t' txn p := by
  cases p with
  | sql p => exact PvAgrees.transfer h hpv
  | dropped => exact h
  | erased => exact h
  | done => exact h

section Invariant

variable {ι : Type} [Fintype ι] [DecidableEq ι] {calls : ι → MirrorCall} {t₀ : Tables}
  {s s' : Servers ι} {q : ι → MirrorPhase} {i : ι} {p : MirrorPhase}

/-- The rows of the beginning tell the members apart. -/
theorem MirrorInv.owned_eq (h : MirrorInv calls t₀ s q) (hsep : Separate calls t₀)
    {row start : ShareFile} (hrow : row ∈ s.store.committed.shareFileList)
    (hstart : start ∈ t₀.shareFileList) (hfileid : shareFileid row = shareFileid start) :
    owned row = owned start := by
  obtain ⟨first, hfirst, hsame⟩ := List.mem_map.mp (h.rows.subset (List.mem_map.mpr ⟨row, hrow, rfl⟩))
  have hkey : first.key = row.key := (Prod.mk.inj hsame).2
  have hid : shareFileid first = shareFileid row := by
    obtain ⟨hmd5, hname⟩ := Prod.mk.inj hkey
    rw [shareFileid, shareFileid, hmd5, hname]
  rw [← hsame, Table.eq_of_key_eq shareFileid hsep.fileids hfirst hstart (hid.trans hfileid)]

theorem MirrorInv.keys_nodup (h : MirrorInv calls t₀ s q) (hsep : Separate calls t₀) :
    (s.store.committed.shareFileList.map ShareFile.key).Nodup := by
  have hstart : (t₀.shareFileList.map ShareFile.key).Nodup := by
    refine List.Nodup.of_map (fun key => fileidOf key.1 key.2) ?_
    rw [List.map_map]
    exact hsep.fileids
  have hsub := h.rows.map Prod.snd
  rw [List.map_map, List.map_map] at hsub
  exact hsub.nodup hstart

theorem MirrorInv.key_of_fileid (h : MirrorInv calls t₀ s q) (hsep : Separate calls t₀)
    (hfound : (calls i).file.key ∈ t₀.shareFileList.map ShareFile.key) {row : ShareFile}
    (hrow : row ∈ s.store.committed.shareFileList) (hfileid : shareFileid row = (calls i).fileid) :
    row.key = (calls i).file.key := by
  obtain ⟨start, hstart, hkey⟩ := List.mem_map.mp hfound
  have hid : shareFileid start = (calls i).fileid := by
    obtain ⟨hmd5, hname⟩ := Prod.mk.inj hkey
    rw [shareFileid, hmd5, hname]
    rfl
  have hsame := h.owned_eq hsep hrow hstart (hfileid.trans hid.symm)
  exact (Prod.mk.inj hsame).2.trans hkey

/-- A command that commits nothing and leaves the records of Redis alone. -/
theorem MirrorInv.update_local (h : MirrorInv calls t₀ s q)
    (hcompatible : s'.store.Compatible conflict)
    (hcommitted : s'.store.committed = s.store.committed)
    (hself : MirrorAgrees (calls i) s.store.committed (s'.store.txns i) p)
    (hother : ∀ j, j ≠ i → s'.store.txns j = s.store.txns j)
    (hfound : ∀ pv, p.Found pv →
      (calls i).file.key ∈ t₀.shareFileList.map ShareFile.key ∧ IsInt32 (pv + 1))
    (hrecords : Records calls s'.world (Function.update q i p)) :
    MirrorInv calls t₀ s' (Function.update q i p) where
  compatible := hcompatible
  agrees := h.agrees.update_local hcommitted hself hother
  rows := by
    rw [hcommitted]
    exact h.rows
  found j pv hj := by
    by_cases hji : j = i
    · subst hji
      rw [Function.update_self] at hj
      exact hfound pv hj
    · rw [Function.update_of_ne hji] at hj
      exact h.found j pv hj
  records := hrecords

/-- A statement of the transaction of a download, before its commit. -/
theorem MirrorInv.sql (h : MirrorInv calls t₀ s q) {pv pv' : PvPhase} {store : DbStore ι}
    (hq : q i = .sql pv) (hpv : pv ≠ .committed) (hpv' : pv' ≠ .committed)
    (hcompatible : store.Compatible conflict) (hcommitted : store.committed = s.store.committed)
    (hself : PvAgrees (calls i).file s.store.committed (store.txns i) pv')
    (hother : ∀ j, j ≠ i → store.txns j = s.store.txns j)
    (hfound : ∀ n, (MirrorPhase.sql pv').Found n →
      (calls i).file.key ∈ t₀.shareFileList.map ShareFile.key ∧ IsInt32 (n + 1)) :
    MirrorInv calls t₀ { s with store := store } (Function.update q i (.sql pv')) := by
  have hnot : ∀ pv : PvPhase, pv ≠ .committed → (MirrorPhase.sql pv).Pending = false := by
    intro pv hpv
    cases pv <;> first | rfl | exact absurd rfl hpv
  refine h.update_local hcompatible hcommitted hself hother hfound ?_
  refine h.records.of_same (by rw [Servers.world, Servers.world, hcommitted]) rfl rfl ?_
    (by simp [hq]) (by simp [hq])
  rw [hq, hnot pv hpv, hnot pv' hpv']

theorem MirrorInv.reads (h : MirrorInv calls t₀ s q) (hsep : Separate calls t₀)
    {md5 fileName : CString} (hq : q i = .sql .begun) (hkey : (md5, fileName) = (calls i).file.key)
    (hfree : ¬ s.store.Blocked i (awaits (.query (.shareFilePvForUpdate md5 fileName))))
    (hcond : StillThere (.query (.shareFilePvForUpdate md5 fileName)) s.world)
    {r : Option (List Int)} (hstep : lockedStep i (.query (.shareFilePvForUpdate md5 fileName)) s r s') :
    ∃ q', mirrorStep (.query (.shareFilePvForUpdate md5 fileName)) (q i) r q' ∧
      MirrorInv calls t₀ s' (Function.update q i q') := by
  have htxn : s.store.txns i = some ⟨[], []⟩ := by
    have hagrees := h.agrees i
    rw [hq] at hagrees
    exact hagrees
  obtain ⟨rows, hrows, rfl, rfl⟩ := hstep
  rw [view_of_reader htxn] at hrows
  have hread : pvsOf s.store.committed (calls i).file.key = rows := by
    rw [← hkey]
    exact Option.some.inj hrows
  have hcompatible := compatible_query (q := .shareFilePvForUpdate md5 fileName) h.compatible hfree
    (!rows.isEmpty) []
  have hself : (s.store.execute applyUpdate i _ []).txns i = some ⟨[] ++ [], _ ++ []⟩ :=
    Store.txns_execute_self htxn
      (takesQuery (.shareFilePvForUpdate md5 fileName) !rows.isEmpty) []
  have hcommitted : (s.store.execute applyUpdate i _ []).committed = s.store.committed :=
    (Store.committed_execute htxn
      (takesQuery (.shareFilePvForUpdate md5 fileName) !rows.isEmpty) []).1
  cases rows with
  | nil =>
      refine ⟨.sql .missing, Or.inl ⟨rfl, rfl⟩, ?_⟩
      refine h.sql hq (by simp) (by simp) hcompatible hcommitted ?_
        (fun _ => Store.txns_execute_of_ne) (fun _ hf => absurd hf id)
      rw [hself]
      exact ⟨_, rfl⟩
  | cons pv pvs =>
      have hrowOf : ∀ n ∈ pvsOf s.store.committed (calls i).file.key,
          ∃ row ∈ s.store.committed.shareFileList, row.key = (calls i).file.key ∧ row.pv = n := by
        intro n hn
        obtain ⟨row, hrow, hpv⟩ := List.mem_map.mp hn
        obtain ⟨hrow, hfile⟩ := List.mem_filter.mp hrow
        exact ⟨row, hrow, (isShareFile_iff_key row _).mp hfile, hpv⟩
      obtain ⟨row, hrow, hrowkey, hrowpv⟩ := hrowOf pv (hread ▸ List.mem_cons_self ..)
      have hkeys := h.keys_nodup hsep
      have hpvs : ∀ n ∈ pvsOf s.store.committed (calls i).file.key, n = pv := by
        intro n hn
        obtain ⟨row', hrow', hkey', rfl⟩ := hrowOf n hn
        rw [Table.eq_of_key_eq ShareFile.key hkeys hrow' hrow (hkey'.trans hrowkey.symm), hrowpv]
      refine ⟨.sql (.read pv), Or.inr ⟨pv, pvs, rfl, rfl⟩, ?_⟩
      refine h.sql hq (by simp) (by simp) hcompatible hcommitted ?_
        (fun _ => Store.txns_execute_of_ne) fun n hn => ⟨?_, ?_⟩
      · rw [hself]
        refine ⟨_, rfl, ?_, hpvs⟩
        rw [← hkey]
        exact List.mem_append_left _ (List.mem_cons_of_mem _ (List.mem_cons_self ..))
      · obtain ⟨start, hstart, hsame⟩ :=
          List.mem_map.mp (h.rows.subset (List.mem_map.mpr ⟨row, hrow, rfl⟩))
        exact List.mem_map.mpr ⟨start, hstart, (Prod.mk.inj hsame).2.trans hrowkey⟩
      · obtain rfl : pv = n := hn
        rw [← hrowpv]
        exact hcond row hrow (hrowkey.trans hkey.symm)

theorem MirrorInv.writes (h : MirrorInv calls t₀ s q) {md5 fileName : CString} {pv : Int}
    (hq : q i = .sql (.read pv)) (hkey : (md5, fileName) = (calls i).file.key)
    (hfree : ¬ s.store.Blocked i
      (awaits (.update (.setShareFilePv md5 fileName (wrapInt32 (pv + 1))))))
    {r : Option Nat}
    (hstep : lockedStep i (.update (.setShareFilePv md5 fileName (wrapInt32 (pv + 1)))) s r s') :
    ∃ q', mirrorStep (.update (.setShareFilePv md5 fileName (wrapInt32 (pv + 1)))) (q i) r q' ∧
      MirrorInv calls t₀ s' (Function.update q i q') := by
  have hagrees := h.agrees i
  rw [hq] at hagrees
  obtain ⟨locks, htxn, hlock, hpv⟩ := hagrees
  obtain ⟨n, t, _, rfl, rfl⟩ := hstep
  have hcompatible := compatible_update (u := .setShareFilePv md5 fileName (wrapInt32 (pv + 1)))
    h.compatible hfree [.setShareFilePv md5 fileName (wrapInt32 (pv + 1))]
  refine ⟨.sql (.wrote pv), ⟨⟨n, rfl⟩, pv, hq, rfl⟩, ?_⟩
  refine h.sql hq (by simp) (by simp) hcompatible (Store.committed_execute htxn ..).1 ?_
    (fun _ => Store.txns_execute_of_ne) fun m hm => h.found i m (by rw [hq]; exact hm)
  rw [Store.txns_execute_self htxn]
  obtain ⟨rfl, rfl⟩ := Prod.mk.inj hkey
  exact ⟨_, rfl, List.mem_append_right _ hlock, hpv⟩

/-- A command that commits something: the other calls keep what their locks are for. -/
theorem MirrorInv.update_committed (h : MirrorInv calls t₀ s q) {store : DbStore ι}
    (hcompatible : store.Compatible conflict)
    (hself : MirrorAgrees (calls i) store.committed (store.txns i) p)
    (hother : ∀ j, j ≠ i → store.txns j = s.store.txns j)
    (hkeep : ∀ j, j ≠ i → ∀ writes locks pv, s.store.txns j = some ⟨writes, locks⟩ →
      KeepsPv (calls j).file s.store.committed locks pv →
      KeepsPv (calls j).file store.committed locks pv)
    (hrows : (store.committed.shareFileList.map owned).Sublist
      (s.store.committed.shareFileList.map owned))
    (hfound : ∀ pv, ¬ p.Found pv) (hrecords : Records calls ⟨store.committed, none, s.redis⟩
      (Function.update q i p)) :
    MirrorInv calls t₀ { s with store := store } (Function.update q i p) where
  compatible := hcompatible
  agrees := h.agrees.update hself hother fun j hj hagrees => hagrees.transfer (hkeep j hj)
  rows := hrows.trans h.rows
  found j pv hj := by
    by_cases hji : j = i
    · subst hji
      rw [Function.update_self] at hj
      exact absurd hj (hfound pv)
    · rw [Function.update_of_ne hji] at hj
      exact h.found j pv hj
  records := hrecords

theorem MirrorInv.commits (h : MirrorInv calls t₀ s q) (hsep : Separate calls t₀) {pv : Int}
    (hq : q i = .sql (.wrote pv)) :
    MirrorInv calls t₀ { s with store := s.store.commit applyUpdate i }
      (Function.update q i (.sql .committed)) := by
  have hagrees := h.agrees i
  rw [hq] at hagrees
  obtain ⟨locks, htxn, hlock, hpv⟩ := hagrees
  obtain ⟨hfound, hup⟩ := h.found i pv (by rw [hq]; rfl)
  have hcommitted : (s.store.commit applyUpdate i).committed =
      downloadedTables (calls i).file pv s.store.committed := by
    rw [Store.commit, htxn]
    rfl
  refine h.update_committed h.compatible.commit ?_ (fun _ => Store.txns_commit_of_ne) ?_ ?_
    (fun _ => id) ?_
  · show (s.store.commit applyUpdate i).txns i = none
    exact Store.txns_commit_self
  · rintro j hj writes locks' pv' htxn' ⟨hlock', hpv'⟩
    have hne := key_ne_of_locks h.compatible hj ⟨_, htxn, hlock⟩ ⟨_, htxn', hlock'⟩
    refine ⟨hlock', ?_⟩
    rw [hcommitted, pvsOf_downloadedTables hne]
    exact hpv'
  · have howned : (s.store.commit applyUpdate i).committed.shareFileList.map owned =
        s.store.committed.shareFileList.map owned := by
      rw [hcommitted, shareFileList_downloadedTables, List.map_map]
      refine List.map_congr_left fun row _ => ?_
      rw [Function.comp_apply]
      split <;> rfl
    rw [howned]
  · refine h.records.commit hq hup ?_ ?_ ?_ rfl
    · intro row hrow hkey
      refine hpv row.pv (List.mem_map.mpr ⟨row, ?_, rfl⟩)
      exact List.mem_filter.mpr ⟨hrow, (isShareFile_iff_key _ _).mpr hkey⟩
    · intro row hrow hfileid
      exact h.key_of_fileid hsep hfound hrow hfileid
    · show (s.store.commit applyUpdate i).committed.shareFileList = _
      rw [hcommitted]
      exact shareFileList_downloadedTables ..

theorem MirrorInv.deletes (h : MirrorInv calls t₀ s q) (hsep : Separate calls t₀)
    {user md5 fileName : CString} (hq : q i = .sql .idle)
    (hcall : calls i = .cancel user md5 fileName)
    (hfree : ¬ s.store.Blocked i (awaits (.update (.deleteShareFile user md5 fileName))))
    {r : Option Nat}
    (hstep : lockedStep i (.update (.deleteShareFile user md5 fileName)) s r s') :
    ∃ q', mirrorStep (.update (.deleteShareFile user md5 fileName)) (q i) r q' ∧
      MirrorInv calls t₀ s' (Function.update q i q') := by
  have htxn : s.store.txns i = none := by
    have hagrees := h.agrees i
    rw [hq] at hagrees
    exact hagrees
  obtain ⟨n, t, _, rfl, rfl⟩ := hstep
  have hcompatible := compatible_update (u := .deleteShareFile user md5 fileName) h.compatible
    hfree [.deleteShareFile user md5 fileName]
  obtain ⟨start, hstart, howned⟩ := List.mem_map.mp (hsep.owner i _ _ _ hcall)
  obtain ⟨huser, hkey⟩ := Prod.mk.inj howned
  obtain ⟨hmd5, hname⟩ := Prod.mk.inj hkey
  have hstartid : shareFileid start = (calls i).fileid := by
    rw [shareFileid, hmd5, hname, hcall]
    rfl
  have hcommitted : (s.store.execute applyUpdate i
      (takesUpdate (.deleteShareFile user md5 fileName))
      [.deleteShareFile user md5 fileName]).committed.shareFileList =
      Table.deleteWhere (isShareFileOf user md5 fileName) s.store.committed.shareFileList := by
    rw [Store.execute, htxn]
    rfl
  refine ⟨.dropped, ⟨⟨n, rfl⟩, rfl⟩, ?_⟩
  refine h.update_committed hcompatible ?_ (fun _ => Store.txns_execute_of_ne) ?_ ?_
    (fun _ => id) ?_
  · show (s.store.execute applyUpdate i _ _).txns i = none
    rw [Store.execute, htxn]
    exact htxn
  · rintro j hj writes locks pv _ ⟨hlock, hpv⟩
    refine ⟨hlock, fun m hm => hpv m ?_⟩
    obtain ⟨row, hrow, rfl⟩ := List.mem_map.mp hm
    obtain ⟨hrow, hfile⟩ := List.mem_filter.mp hrow
    rw [hcommitted] at hrow
    have hold := ((Table.mem_deleteWhere ..).mp hrow).1
    exact List.mem_map.mpr ⟨row, List.mem_filter.mpr ⟨hold, hfile⟩, rfl⟩
  · rw [hcommitted]
    exact List.Sublist.map owned List.filter_sublist
  · refine h.records.drop hq (isShareFileOf user md5 fileName) ?_ hcommitted rfl
    intro row hrow
    rw [isShareFileOf_iff]
    constructor
    · rintro ⟨_, hrowkey⟩
      obtain ⟨hrowmd5, hrowname⟩ := Prod.mk.inj hrowkey
      rw [shareFileid, hrowmd5, hrowname, hcall]
      rfl
    · intro hfileid
      have hsame := h.owned_eq hsep hrow hstart (hfileid.trans hstartid.symm)
      rw [howned] at hsame
      exact Prod.mk.inj hsame

/-- The flag of a user's file is not about the share list. -/
theorem MirrorInv.unflags (h : MirrorInv calls t₀ s q) {user md5 fileName : CString} {status : Int}
    (hq : q i = .sql .idle)
    (hfree : ¬ s.store.Blocked i (awaits (.update (.setSharedStatus user md5 fileName status))))
    {r : Option Nat}
    (hstep : lockedStep i (.update (.setSharedStatus user md5 fileName status)) s r s') :
    ∃ q', mirrorStep (.update (.setSharedStatus user md5 fileName status)) (q i) r q' ∧
      MirrorInv calls t₀ s' (Function.update q i q') := by
  have htxn : s.store.txns i = none := by
    have hagrees := h.agrees i
    rw [hq] at hagrees
    exact hagrees
  obtain ⟨n, t, _, rfl, rfl⟩ := hstep
  have hcompatible := compatible_update (u := .setSharedStatus user md5 fileName status)
    h.compatible hfree [.setSharedStatus user md5 fileName status]
  have hcommitted : (s.store.execute applyUpdate i
      (takesUpdate (.setSharedStatus user md5 fileName status))
      [.setSharedStatus user md5 fileName status]).committed.shareFileList =
      s.store.committed.shareFileList := by
    rw [Store.execute, htxn]
    rfl
  refine ⟨q i, ⟨⟨n, rfl⟩, rfl⟩, ?_⟩
  refine h.update_committed hcompatible ?_ (fun _ => Store.txns_execute_of_ne) ?_ ?_ ?_ ?_
  · rw [hq]
    show (s.store.execute applyUpdate i _ _).txns i = none
    rw [Store.execute, htxn]
    exact htxn
  · rintro j hj writes locks pv _ ⟨hlock, hpv⟩
    refine ⟨hlock, ?_⟩
    rw [pvsOf, hcommitted]
    exact hpv
  · rw [hcommitted]
  · rw [hq]
    exact fun _ => id
  · exact h.records.of_same hcommitted rfl rfl rfl Iff.rfl Iff.rfl

/-- A command that Redis executes for a call without a transaction. -/
theorem MirrorInv.redis (h : MirrorInv calls t₀ s q) {ks : Keyspace}
    (hq : MirrorAgrees (calls i) s.store.committed (s.store.txns i) p)
    (hfound : ∀ pv, ¬ p.Found pv)
    (hrecords : Records calls (withRedis s.world ks) (Function.update q i p)) :
    MirrorInv calls t₀ { s with redis := ks } (Function.update q i p) :=
  h.update_local h.compatible rfl hq (fun _ _ => rfl) (fun pv hf => absurd hf (hfound pv)) hrecords

theorem MirrorInv.scores (h : MirrorInv calls t₀ s q) {c : Redis.Command}
    {r : RedisResult} (hmay : mirrorMay (calls i) (q i) (.redis c)) (hzset : IsZset c)
    (hcond : StillThere (.redis c) s.world) (hstep : lockedStep i (.redis c) s r s') :
    ∃ q', mirrorStep (.redis c) (q i) r q' ∧ MirrorInv calls t₀ s' (Function.update q i q') := by
  have hagrees := h.agrees i
  obtain ⟨members, hmembers⟩ := h.records.zset
  have hexec : zsetOf s.redis filePublicZset = some members := hmembers
  obtain ⟨hok, rfl, rfl⟩ := hstep
  cases c with
  | zscore key member =>
      obtain ⟨hq, rfl, rfl⟩ := hmay
      obtain ⟨_, ⟨_, hnone⟩ | ⟨score, hreply, _⟩⟩ :=
        @zscore_cases _ _ s.world (withRedis s.world _) ⟨hok, rfl, rfl⟩
      · rw [StillThere, hnone] at hcond
        cases hcond
      · refine ⟨q i, ⟨⟨score, hreply⟩, rfl⟩, ?_⟩
        have hsame : ((Redis.Command.zscore filePublicZset (calls i).fileid).exec s.redis).2 =
            s.redis := by
          simp only [Redis.Command.exec, hexec]
        rw [hsame, Function.update_eq_self]
        exact h
  | zincrby key member =>
      obtain ⟨hq, rfl, rfl⟩ := hmay
      rw [hq] at hagrees
      have hcount := h.records.count hq hcond hmembers
      simp only [Redis.Command.exec, hexec]
      exact ⟨.done, ⟨⟨_, rfl⟩, rfl⟩, h.redis hagrees (fun _ => id) hcount⟩
  | zrem key member =>
      obtain ⟨hq, rfl, rfl⟩ := hmay
      rw [hq] at hagrees
      have herase := h.records.erase hq hmembers
      simp only [Redis.Command.exec, hexec]
      exact ⟨.erased, ⟨⟨_, rfl⟩, rfl⟩, h.redis hagrees (fun _ => id) herase⟩
  | zadd key score member => exact absurd hmay id
  | zrevrange key first last => exact absurd hmay id
  | _ => exact absurd hzset id

/-- The public count is a key of its own. -/
theorem MirrorInv.counts (h : MirrorInv calls t₀ s q) (i : ι) {c : Redis.Command}
    (hkey : c.key = filePublicCount) :
    MirrorInv calls t₀ { s with redis := (c.exec s.redis).2 } (Function.update q i (q i)) := by
  have hzset : filePublicZset ≠ c.key := by
    rw [hkey]
    decide
  have hhash : fileNameHash ≠ c.key := by
    rw [hkey]
    decide
  refine h.update_local h.compatible rfl (h.agrees i) (fun _ _ => rfl) (h.found i) ?_
  exact h.records.of_same rfl (zsetOf_congr (lookup_exec_of_ne c s.redis hzset))
    (hashOf_congr (lookup_exec_of_ne c s.redis hhash)) rfl Iff.rfl Iff.rfl

theorem MirrorInv.step (h : MirrorInv calls t₀ s q) (hsep : Separate calls t₀)
    {c : Server.Command} {r : c.Reply} (hmay : mirrorMay (calls i) (q i) c)
    (hstep : (lockedSystem StillThere).step i c s r s') :
    ∃ q', mirrorStep c (q i) r q' ∧ MirrorInv calls t₀ s' (Function.update q i q') := by
  obtain ⟨hfree, hcond, hstep⟩ := hstep
  have hsame : MirrorInv calls t₀ s (Function.update q i (q i)) := by
    rw [Function.update_eq_self]
    exact h
  have hagrees := h.agrees i
  -- the phase decides what may be sent, so every command has one phase to come from
  cases c with
  | startTransaction =>
      have hq : q i = .sql .idle := hmay
      rw [hq] at hagrees
      have htxn : s.store.txns i = none := hagrees
      obtain ⟨rfl, rfl⟩ := hstep
      refine ⟨.sql .begun, rfl, h.sql hq (by simp) (by simp) h.compatible.start
        (Store.committed_start htxn).1 ?_ (fun _ => Store.txns_start_of_ne)
        (fun _ hf => absurd hf id)⟩
      exact Store.txns_start_self
  | query query =>
      cases query with
      | shareFilePvForUpdate md5 fileName =>
          obtain ⟨hq, hkey⟩ := hmay
          exact h.reads hsep hq hkey hfree hcond hstep
      | _ => exact absurd hmay id
  | update u =>
      cases u with
      | setShareFilePv md5 fileName n =>
          obtain ⟨pv, hq, hkey, rfl⟩ := hmay
          exact h.writes hq hkey hfree hstep
      | deleteShareFile user md5 fileName =>
          obtain ⟨hq, hcall⟩ := hmay
          exact h.deletes hsep hq hcall hfree hstep
      | setSharedStatus user md5 fileName status => exact h.unflags hmay hfree hstep
      | _ => exact absurd hmay id
  | commit =>
      obtain ⟨pv, hq⟩ := hmay
      obtain ⟨rfl, rfl⟩ := hstep
      exact ⟨.sql .committed, rfl, h.commits hsep hq⟩
  | rollback =>
      have hq : q i = .sql .missing := hmay
      obtain ⟨rfl, rfl⟩ := hstep
      refine ⟨.sql .closed, rfl, h.sql hq (by simp) (by simp) h.compatible.rollback rfl ?_
        (fun _ => Store.txns_rollback_of_ne) (fun _ hf => absurd hf id)⟩
      exact Store.txns_rollback_self
  | redis c =>
      cases c with
      | zscore key member => exact h.scores hmay trivial hcond hstep
      | zincrby key member => exact h.scores hmay trivial hcond hstep
      | zrem key member => exact h.scores hmay trivial hcond hstep
      | hdel key field =>
          -- the last write of a cancellation: its file is gone from both records
          obtain ⟨hq, rfl, rfl⟩ := hmay
          obtain ⟨fields, hfields⟩ := h.records.hash
          have hexec : hashOf s.redis fileNameHash = some fields := hfields
          have hforget := h.records.forget hq hfields
          rw [hq] at hagrees
          obtain ⟨_, rfl, rfl⟩ := hstep
          simp only [Redis.Command.exec, hexec]
          exact ⟨.done, rfl, h.redis hagrees (fun _ => id) hforget⟩
      | decr key =>
          -- the counter of shared files is not one of the records
          obtain rfl : key = filePublicCount := hmay
          obtain ⟨hok, rfl, rfl⟩ := hstep
          obtain ⟨n, _, hreply, _⟩ := addTo_cases hok
          exact ⟨q i, ⟨⟨_, congrArg RedisResult.reply hreply⟩, rfl⟩, h.counts i rfl⟩
      | set key value =>
          obtain rfl : key = filePublicCount := hmay
          obtain ⟨_, rfl, rfl⟩ := hstep
          exact ⟨q i, ⟨rfl, rfl⟩, h.counts i rfl⟩
      | _ => exact absurd hmay id
  | getDBConn pool => obtain rfl : s' = s := hstep; exact ⟨q i, rfl, hsame⟩
  | relDBConn pool => obtain rfl : s' = s := hstep; exact ⟨q i, rfl, hsame⟩
  | getCacheConn => obtain rfl : s' = s := hstep; exact ⟨q i, rfl, hsame⟩
  | relCacheConn => obtain rfl : s' = s := hstep; exact ⟨q i, rfl, hsame⟩
  | _ => exact absurd hmay id

end Invariant

/-! ## All interleavings -/

abbrev MirrorConfig (ι : Type) := Config ι Server.Command Command.Reply Int (Servers ι)

section Interleavings

variable {ι : Type} [Fintype ι] [DecidableEq ι]

/-- The calls have not begun, and Redis mirrors the share list. -/
structure RaceStart (calls : ι → MirrorCall) (cfg : MirrorConfig ι) : Prop where
  prog : ∀ i, cfg.prog i = (calls i).prog
  closed : ∀ i, cfg.shared.store.txns i = none
  mirrors : Mirrors cfg.shared.world
  separate : Separate calls cfg.shared.store.committed

/-- The commands of the calls in any order, where each meets the condition. -/
def RaceReachable (calls : ι → MirrorCall) (cond : Server.Command → World → Prop)
    (cfg : MirrorConfig ι) : Prop :=
  ∃ init, RaceStart calls init ∧ Reachable (lockedSystem cond) init cfg

omit [DecidableEq ι] in
/-- A mirror owes nothing. -/
theorem records_of_mirrors {calls : ι → MirrorCall} {w : World} (h : Mirrors w) :
    Records calls w fun _ => .sql .idle := by
  obtain ⟨⟨members, hmembers, hpv⟩, fields, hfields, hname⟩ := h
  have hscore : ∀ fileid, scoreOf w fileid = members.lookup fileid := fun fileid => by
    rw [scoreOf, hmembers]
    rfl
  have hnameOf : ∀ fileid, nameOf w fileid = fields.lookup fileid := fun fileid => by
    rw [nameOf, hfields]
    rfl
  have hpending : ∀ fileid, pending calls (fun _ : ι => .sql .idle) fileid = 0 :=
    fun fileid => threadsIn_eq_zero fun i hi => by cases (Prod.mk.inj hi).2
  refine ⟨⟨members, hmembers⟩, ⟨fields, hfields⟩, fun row hrow => ?_, fun row hrow => ?_,
    by simp, fun fileid hnot => ?_, fun fileid hnot => ?_⟩
  · rw [hscore, hpending, (hpv _ _).mpr ⟨row, hrow, rfl, rfl⟩]
    simp
  · rw [hnameOf]
    exact (hname _ _).mpr ⟨row, hrow, rfl, rfl⟩
  · left
    rw [hscore, AList.lookup_eq_none, hpv.mem_iff]
    rintro ⟨row, hrow, hfileid⟩
    exact hnot (List.mem_map.mpr ⟨row, hrow, hfileid⟩)
  · left
    rw [hnameOf, AList.lookup_eq_none, hname.mem_iff]
    rintro ⟨row, hrow, hfileid⟩
    exact hnot (List.mem_map.mpr ⟨row, hrow, hfileid⟩)

theorem RaceStart.simulates {calls : ι → MirrorCall} {cfg : MirrorConfig ι}
    (h : RaceStart calls cfg) :
    Simulates (fun i => mirrorPhases (calls i)) (MirrorInv calls cfg.shared.store.committed)
      (fun _ _ q => q.Finished) cfg fun _ => .sql .idle := by
  refine ⟨⟨?_, h.closed, List.Sublist.refl _, fun _ _ hf => absurd hf id,
    records_of_mirrors h.mirrors⟩, fun i => ?_⟩
  · rintro i j l l' _ _ ⟨txn, htxn, _⟩
    rw [h.closed i] at htxn
    cases htxn
  · rw [h.prog i]
    exact wp_mirror_prog

/-- In every interleaving in which each download finds its member and a `pv` to go on from,
Redis mirrors the share list again once all calls have completed. -/
theorem raceReachable_mirrors (calls : ι → MirrorCall) (cfg : MirrorConfig ι)
    (h : RaceReachable calls StillThere cfg) (hdone : ∀ i, cfg.Completed i) :
    Mirrors cfg.shared.world := by
  obtain ⟨init, hstart, hreach⟩ := h
  obtain ⟨q, hsim⟩ := quiet_simulates (lockedSystem_quiet StillThere)
    (fun i c s r s' q hq hmay hstep => MirrorInv.step hq hstart.separate hmay hstep)
    hstart.simulates hreach
  refine hsim.1.records.mirrors fun i => ?_
  obtain ⟨code, hcode⟩ := hdone i
  exact hsim.post_of_ret hcode

end Interleavings

/-! ## A download and a cancellation -/

instance (c : Server.Command) (w : World) : Decidable (StillThere c w) := by
  unfold StillThere
  split <;> infer_instance

/-- The user `v` shares the file `a`. -/
def oneShare : World :=
  ((run (okReply sampleSys) (handleShareFile (CString.lit "v") (CString.lit "m") (CString.lit "a"))
    World.empty).map (·.2)).getD World.empty

theorem mirrors_oneShare : Mirrors oneShare := by
  let share : ShareRequest := .share (CString.lit "v") (CString.lit "m") (CString.lit "a")
  have hsome : (run (okReply sampleSys) share.prog World.empty).isSome := by decide
  obtain ⟨⟨ret, w⟩, hrun⟩ := Option.isSome_iff_exists.mp hsome
  have hexec : Exec ok share.prog World.empty ret w :=
    exec_of_run (okStep_of_okReply sampleSys) hrun
  have hw : oneShare = w := by
    rw [oneShare]
    exact congrArg (fun o => (Option.map Prod.snd o).getD World.empty) hrun
  rw [hw]
  have howner : share.ByOwner World.empty := trivial
  have hup : share.CountsUp World.empty := trivial
  have hlen : share.md5.length = 1 := rfl
  exact (mirrored_of_exec (r := share) (mirrored_empty 1) howner hup hlen hexec).toMirrors

def raceCalls : Bool → MirrorCall
  | false => .download (CString.lit "m") (CString.lit "a")
  | true => .cancel (CString.lit "v") (CString.lit "m") (CString.lit "a")

def raceStart : MirrorConfig Bool where
  shared := ⟨⟨oneShare.db, fun _ => none, fun _ => none, []⟩, oneShare.redis⟩
  prog i := (raceCalls i).prog

theorem raceStart_raceCalls : RaceStart raceCalls raceStart where
  prog _ := rfl
  closed _ := rfl
  mirrors := ⟨mirrors_oneShare.zset, mirrors_oneShare.hash⟩
  separate := by
    refine ⟨by decide, fun i user md5 fileName hcall => ?_⟩
    cases i with
    | false => cases hcall
    | true =>
        cases hcall
        decide

/-- The whole cancellation takes place between the commit of the download and its look at
Redis, which it therefore fills again. -/
def zombieOrder : List Bool :=
  List.replicate 6 false ++ List.replicate 9 true ++ List.replicate 5 false

theorem raceReachable_zombie :
    ¬ ∀ (calls : Bool → MirrorCall) cfg, RaceReachable calls (fun _ _ => True) cfg →
      (∀ i, cfg.Completed i) → Mirrors cfg.shared.world := by
  intro hclaim
  have hrun : (schedule (lockedReply fun _ _ => True) zombieOrder raceStart).map (fun cfg =>
      (decide (∀ i, isRet (cfg.prog i) = true), cfg.shared.world.db.shareFileList,
        scoreOf cfg.shared.world (CString.lit "ma"))) = some (true, [], some 1) := by
    decide
  obtain ⟨cfg, hcfg, hfinal⟩ := Option.map_eq_some_iff.mp hrun
  obtain ⟨hdone, hfinal⟩ := Prod.mk.inj hfinal
  obtain ⟨hrows, hscore⟩ := Prod.mk.inj hfinal
  have hreach := reachable_of_schedule (step_of_lockedReply fun _ _ => True) .refl hcfg
  obtain ⟨members, hmembers, hpv⟩ := (hclaim raceCalls cfg ⟨raceStart, raceStart_raceCalls, hreach⟩
    fun i => completed_of_isRet (of_decide_eq_true hdone i)).zset
  rw [scoreOf, hmembers] at hscore
  obtain ⟨row, hrow, _⟩ := (hpv _ _).mp hscore
  rw [hrows] at hrow
  cases hrow

/-- The cancellation deletes the row before the download looks at Redis and removes the
member after it. -/
def raceOrder : List Bool :=
  List.replicate 6 false ++ List.replicate 5 true ++ List.replicate 4 false ++
    List.replicate 4 true

theorem raceReachable_mirrors_sample :
    ∃ cfg, RaceReachable raceCalls StillThere cfg ∧ (∀ i, cfg.Completed i) ∧
      cfg.shared.store.committed.shareFileList = [] ∧ Mirrors cfg.shared.world := by
  have hrun : (schedule (lockedReply StillThere) raceOrder raceStart).map (fun cfg =>
      (decide (∀ i, isRet (cfg.prog i) = true), cfg.shared.store.committed.shareFileList)) =
      some (true, []) := by
    decide
  obtain ⟨cfg, hcfg, hfinal⟩ := Option.map_eq_some_iff.mp hrun
  obtain ⟨hdone, hrows⟩ := Prod.mk.inj hfinal
  have hreach : RaceReachable raceCalls StillThere cfg :=
    ⟨raceStart, raceStart_raceCalls,
      reachable_of_schedule (step_of_lockedReply StillThere) .refl hcfg⟩
  have hcompleted : ∀ i, cfg.Completed i :=
    fun i => completed_of_isRet (of_decide_eq_true hdone i)
  exact ⟨cfg, hreach, hcompleted, hrows, raceReachable_mirrors raceCalls cfg hreach hcompleted⟩

end Files
end TcMuzi
