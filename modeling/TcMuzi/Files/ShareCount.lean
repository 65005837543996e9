import TcMuzi.Api.Sharefiles
import TcMuzi.Api.Uses
import TcMuzi.Files.ShareFrame

/-!
# The number of shared files that is reported

`FILE_PUBLIC_COUNT` caches the number of rows of `share_file_list`.  A count that reads 0
is reloaded, so the cache serves as long as it is 0 or right; the handlers count up and
down without looking at the rows, and the ranking reports no number at all.
-/

namespace TcMuzi
namespace Files

open Base Server Redis Api Mysql Lib

/-! ## The cached count -/

/-- A cached count that can be reported after a reload of 0. -/
def Fits (n : Int) (rows : Nat) : Prop :=
  n = 0 ∨ n = rows

theorem Fits.insert {n : Int} {rows : Nat} (h : n = rows) : Fits (n + 1) (rows + 1) := by
  right
  rw [h]
  rfl

/-- Counting down by one goes with the loss of `k` rows when nothing is left to count or `k`
is one. -/
theorem Fits.remove {n : Int} {rows k : Nat} (h : Fits n (rows + k)) (hone : n ≤ 1 ∨ k = 1) :
    Fits (max (n - 1) 0) rows := by
  unfold Fits at h ⊢
  omega

/-- Redis has a count that fits the share list. -/
def Cached (w : World) : Prop :=
  ∃ n, counterOf w.redis filePublicCount = .ok n ∧ Fits n w.db.shareFileList.length

/-- The number in `FILE_PUBLIC_COUNT`, 0 when there is none. -/
def publicCount (w : World) : Int :=
  match counterOf w.redis filePublicCount with
  | .ok n => n
  | .error _ => 0

theorem publicCount_eq {w : World} {n : Int} (h : counterOf w.redis filePublicCount = .ok n) :
    publicCount w = n := by
  rw [publicCount, h]

theorem Cached.of_same {w w' : World} (h : Cached w)
    (hrows : w'.db.shareFileList.length = w.db.shareFileList.length)
    (hcount : counterOf w'.redis filePublicCount = counterOf w.redis filePublicCount) :
    Cached w' := by
  obtain ⟨n, hn, hfits⟩ := h
  exact ⟨n, hcount.trans hn, hrows ▸ hfits⟩

/-! ## The requests -/

inductive CountRequest
  | share (user md5 filename : CString)
  | cancel (user md5 filename : CString)
  | delete (user md5 filename : CString)
  | list (url postData : List UInt8)

/-- The request and the response of a list request. -/
def CountRequest.prog (reader : JsonReader) : CountRequest → Handler (Option Json)
  | .share user md5 filename => do
      let _ ← handleShareFile user md5 filename
      return none
  | .cancel user md5 filename => do
      let _ ← handleCancelShareFile user md5 filename
      return none
  | .delete user md5 filename => do
      let _ ← handleDeleteFile user md5 filename
      return none
  | .list url postData => do
      let response ← apiSharefile reader url postData
      return response.2.map Written.root

/-- A cancellation, or a delete that finds the file shared, removes one row, or finds at most
one counted. -/
def UncountsOne (user md5 filename : CString) (w : World) : Prop :=
  publicCount w ≤ 1 ∨ w.db.shareFileList.countP (isShareFileOf user md5 filename) = 1

/-- The command may be `pvdesc`: without one the buffer holds anything. -/
def MayRank (url : List UInt8) : Prop :=
  match queryParseKeyValue (CString.cStr url) (CString.lit "cmd") with
  | some cmd => cmd = CString.lit "pvdesc"
  | none => True

/-- When a request keeps the count right: a share that stores a row finds the rows counted,
a share that is taken back is counted once, and the ranking is asked for while there is
nothing to rank.  The ids of the rows are positive `int`s. -/
def CountRequest.Counted : CountRequest → World → Prop
  | .share _ md5 filename, w =>
      (scoreOf w (fileidOf md5 filename)).isSome ∨ Shared w.db md5 filename ∨
        publicCount w = w.db.shareFileList.length
  | .cancel user md5 filename, w => UncountsOne user md5 filename w
  | .delete user md5 filename, w =>
      (scoreOf w (fileidOf md5 filename) = none ∧ sharedFlag w.db user md5 filename ≠ 1) ∨
        UncountsOne user md5 filename w
  | .list url _, w =>
      w.db.shareFileList.length < 2147483648 ∧ (MayRank url → w.db.shareFileList = [])

/-- The `total` of a response. -/
def totalOf (json : Json) : Option Int :=
  match json.member (CString.lit "total") with
  | some (.int n) => some n
  | _ => none

section Requests

variable {w w' : World} {user md5 filename : CString}

theorem isSome_scoreOf {members : ZSet} (h : zsetOf w.redis filePublicZset = some members)
    (fileid : CString) : (scoreOf w fileid).isSome ↔ fileid ∈ members := by
  rw [scoreOf, h]
  exact AList.lookup_isSome

theorem Cached.of_countsShare (h : Cached w)
    (hcond : (CountRequest.share user md5 filename).Counted w)
    (hshare : CountsShare md5 filename w w') : Cached w' := by
  obtain ⟨members, hmembers, hcase⟩ := hshare
  rw [CountRequest.Counted, isSome_scoreOf hmembers] at hcond
  by_cases hknown : fileidOf md5 filename ∈ members ∨ Shared w.db md5 filename
  · rw [if_pos hknown] at hcase
    exact h.of_same hcase.1 hcase.2
  · rw [if_neg hknown] at hcase
    obtain ⟨hrows, n, hn, hcount⟩ := hcase
    rw [not_or] at hknown
    have hexact : publicCount w = w.db.shareFileList.length := by
      rcases hcond with hmem | hshared | hexact
      · exact absurd hmem hknown.1
      · exact absurd hshared hknown.2
      · exact hexact
    rw [publicCount_eq hn] at hexact
    exact ⟨n + 1, hcount, hrows ▸ Fits.insert hexact⟩

theorem Cached.of_dropsShare (h : Cached w) (hcond : UncountsOne user md5 filename w)
    (hdrops : DropsShare user md5 filename w w') : Cached w' := by
  obtain ⟨n, hn, hcount⟩ := hdrops.count
  obtain ⟨n', hn', hfits⟩ := h
  obtain rfl : n = n' := Except.ok.inj (hn.symm.trans hn')
  rw [UncountsOne, publicCount_eq hn] at hcond
  have hlen : w.db.shareFileList.length = w'.db.shareFileList.length +
      w.db.shareFileList.countP (isShareFileOf user md5 filename) := by
    have hdeleted := hdrops.deletedShares
    unfold deletedShares at hdeleted
    omega
  rw [hlen] at hfits
  exact ⟨_, hcount, hfits.remove hcond⟩

theorem Cached.of_unshares (h : Cached w)
    (hcond : (CountRequest.delete user md5 filename).Counted w)
    (hunshares : Unshares user md5 filename w w') : Cached w' := by
  obtain ⟨members, hmembers, hcase⟩ := hunshares
  have hmem := isSome_scoreOf hmembers (fileidOf md5 filename)
  have hdrops : DropsShare user md5 filename w w' →
      ¬ (scoreOf w (fileidOf md5 filename) = none ∧ sharedFlag w.db user md5 filename ≠ 1) →
      Cached w' := by
    intro hdrops hshared
    rcases hcond with hnone | hone
    · exact absurd hnone hshared
    · exact h.of_dropsShare hone hdrops
  by_cases hknown : fileidOf md5 filename ∈ members
  · rw [if_pos hknown] at hcase
    refine hdrops hcase.1 fun hnone => ?_
    rw [← hmem, hnone.1] at hknown
    cases hknown
  · rw [if_neg hknown] at hcase
    by_cases hflag : sharedFlag w.db user md5 filename = 1
    · rw [if_pos hflag] at hcase
      exact hdrops hcase.1 fun hnone => hnone.2 hflag
    · rw [if_neg hflag] at hcase
      exact h.of_same (by rw [hcase.shares]) hcase.count

/-! ## A list request -/

theorem totalOf_encodeFileList (total : Int) (files : List Json) :
    totalOf (encodeFileList total files) = some total := by
  unfold encodeFileList filesMember
  split <;> rfl

/-- The number of shares is looked up and, if it had to be, reloaded. -/
theorem wp_getShareFilesCount (ptr cacheConn : Ptr) (h : Cached w)
    (hbound : w.db.shareFileList.length < 2147483648) :
    wp ok (getShareFilesCount ptr cacheConn)
      (fun r w' => w'.db = w.db ∧ Cached w' ∧ r = (0, (w.db.shareFileList.length : Int))) w := by
  obtain ⟨n, hn, hfits⟩ := h
  rw [getShareFilesCount, wp_bind]
  refine wp_ok_cacheGetCount hn fun code => ?_
  show wp ok (if n = 0 then _ else _) _ w
  by_cases hzero : n = 0
  · rw [if_pos hzero, wp_bind, dbGetShareFilesCount, wp_bind, wp_ok_executeQuery]
    intro _ rows hrows
    obtain rfl : [(w.db.shareFileList.length : Int)] = rows := Option.some.inj hrows
    rw [Prog.pure_eq_ret, wp_ret]
    show wp ok (if (0 : Int) < 0 then Prog.ret (-1, (w.db.shareFileList.length : Int)) else _) _ w
    rw [if_neg (by decide), wp_bind]
    refine wp_ok_cacheSetCount (by omega) (by omega) fun ks hks hframe => ?_
    rw [if_neg (by decide)]
    exact ⟨rfl, ⟨_, hks, Or.inr rfl⟩, rfl⟩
  · rw [if_neg hzero]
    have hexact := hfits.resolve_left hzero
    exact ⟨rfl, ⟨n, hn, hfits⟩, by rw [hexact]⟩

/-- What is true of a list request: the rows stay, the count fits, and a total that is
reported is their number. -/
def Reports (w : World) (response : Option Json) (w' : World) : Prop :=
  w'.db = w.db ∧ Cached w' ∧
    ∀ total, response.bind totalOf = some total → total = w.db.shareFileList.length

theorem reports_none (hdb : w'.db = w.db) (hcached : Cached w') {json : Json}
    (hnone : totalOf json = none) : Reports w (some json) w' := by
  refine ⟨hdb, hcached, fun total htotal => ?_⟩
  rw [Option.bind_some, hnone] at htotal
  cases htotal

theorem reports_total (hdb : w'.db = w.db) (hcached : Cached w') {json : Json}
    (hsome : totalOf json = some (w.db.shareFileList.length : Int)) :
    Reports w (some json) w' := by
  refine ⟨hdb, hcached, fun total htotal => ?_⟩
  rw [Option.bind_some, hsome] at htotal
  exact (Option.some.inj htotal).symm

theorem wp_handleGetShareFilelist (start count : Int) (h : Cached w)
    (hbound : w.db.shareFileList.length < 2147483648) :
    wp ok (handleGetShareFilelist start count) (fun json w' => Reports w (some json) w') w := by
  rw [handleGetShareFilelist, wp_ok_withDBConn]
  intro ptr
  rw [wp_ok_withCacheConn]
  intro cacheConn
  rw [wp_bind]
  refine wp_mono (wp_getShareFilesCount ptr cacheConn h hbound) ?_
  rintro _ w' ⟨hdb, hcached, rfl⟩
  have hlist : ∀ total files, total = (w.db.shareFileList.length : Int) →
      Reports w (some (encodeFileList total files)) w' := by
    rintro _ files rfl
    exact reports_total hdb hcached (totalOf_encodeFileList ..)
  show wp ok (if (0 : Int) < 0 then _ else
    if (w.db.shareFileList.length : Int) = 0 then _ else _) _ w'
  rw [if_neg (by decide)]
  by_cases hnone : (w.db.shareFileList.length : Int) = 0
  · rw [if_pos hnone]
    exact hlist 0 [] hnone.symm
  · rw [if_neg hnone, wp_bind, wp_ok_executeQuery]
    intro _ rows _
    exact hlist _ _ rfl

/-- The commands that only read a sorted set or a hash. -/
theorem ok_idle_of_reads {c : Redis.Command} (hc : ∀ ks, (c.exec ks).2 = ks) :
    ok.Idle (.redis c) := by
  refine fun w => ⟨trivial, ?_⟩
  rintro r w' ⟨_, _, rfl⟩
  rw [hc]

theorem ok_idle_zscore (key member : CString) : ok.Idle (.redis (.zscore key member)) := by
  refine ok_idle_of_reads fun ks => ?_
  rw [Redis.Command.exec]
  split <;> rfl

theorem ok_idle_hget (key field : CString) : ok.Idle (.redis (.hget key field)) := by
  refine ok_idle_of_reads fun ks => ?_
  rw [Redis.Command.exec]
  split <;> rfl

theorem ok_idle_zrevrange (key : CString) (first last : Int) :
    ok.Idle (.redis (.zrevrange key first last)) := by
  refine ok_idle_of_reads fun ks => ?_
  rw [Redis.Command.exec]
  split <;> rfl

theorem uses_ok_rankingFiles (cacheConn : Ptr) (values : List CString) :
    Uses ok.Idle (rankingFiles cacheConn values) := by
  induction values with
  | nil => trivial
  | cons value values ih =>
      refine uses_bind (uses_hget (ok_idle_hget _ _)) fun filename => ?_
      cases filename with
      | none => trivial
      | some filename =>
          refine uses_bind (uses_zsetGetScore (ok_idle_zscore _ _)) fun score => ?_
          refine uses_ite trivial (uses_bind ih fun files => ?_)
          cases files <;> trivial

/-- The ranking reports 0. -/
theorem wp_handleGetRankingFilelist (start count : Int) (h : Cached w)
    (hnone : w.db.shareFileList = []) :
    wp ok (handleGetRankingFilelist start count) (fun json w' => Reports w (some json) w') w := by
  have hfail : Reports w (some (encodeCode 1)) w := reports_none rfl h rfl
  have hlist : ∀ files, Reports w (some (encodeFileList 0 files)) w := by
    refine fun files => reports_total rfl h ?_
    rw [totalOf_encodeFileList, hnone]
    rfl
  rw [handleGetRankingFilelist, wp_ok_withCacheConn]
  intro cacheConn
  refine ⟨trivial, ?_⟩
  rintro allocated _ rfl
  show wp ok (if allocated = true then _ else _) _ _
  rw [wp_ite]
  refine ⟨fun _ => ?_, fun _ => hfail⟩
  rw [wp_bind]
  refine wp_of_idle (fun _ => trivial) (uses_zsetZrevrange (ok_idle_zrevrange _ _ _)) fun values => ?_
  cases values with
  | none => exact hfail
  | some values =>
      show wp ok (rankingFiles cacheConn values >>= _) _ _
      rw [wp_bind]
      refine wp_of_idle (fun _ => trivial) (uses_ok_rankingFiles ..) fun files => ?_
      cases files with
      | none => exact hfail
      | some files => exact hlist files

theorem wp_parseCmd (url : List UInt8) :
    wp ok (parseCmd url) (fun cmd w' => w' = w ∧ (cmd = CString.lit "pvdesc" → MayRank url)) w := by
  rw [parseCmd, MayRank]
  cases queryParseKeyValue (CString.cStr url) (CString.lit "cmd") with
  | some cmd => exact ⟨rfl, id⟩
  | none => exact ⟨trivial, fun _ _ hstep => ⟨hstep, fun _ => trivial⟩⟩

/-- A field that is missing or of the wrong type is answered before anything is read. -/
theorem wp_extractFieldAsInt_or {root : Json} {field : String} {other : Response}
    {k : Int → Handler Response} {Q : Response → World → Prop} (hother : Q other w)
    (hk : ∀ n, wp ok (k n) Q w) :
    wp ok (do
      let some value ← extractFieldAsInt root field | return other
      k value) Q w := by
  rw [wp_bind, extractFieldAsInt, wp_bind]
  cases root.member (CString.lit field) with
  | none => trivial
  | some value =>
      show wp ok (if value.isNull = true then _ else _) _ _
      rw [wp_ite]
      refine ⟨fun _ => hother, fun _ => ?_⟩
      cases value.asInt with
      | none => trivial
      | some n => exact hk n

theorem wp_apiSharefile (reader : JsonReader) (url postData : List UInt8) (h : Cached w)
    (hcond : (CountRequest.list url postData).Counted w) :
    wp ok (apiSharefile reader url postData)
      (fun response w' => Reports w (response.2.map Written.root) w') w := by
  have hfail : Reports w (some (encodeSharefilesJson 1 0)) w := reports_none rfl h rfl
  obtain ⟨hbound, hranking⟩ := hcond
  rw [apiSharefile, wp_bind]
  refine wp_mono (wp_parseCmd url) ?_
  rintro cmd _ ⟨rfl, hrank⟩
  rw [wp_ite]
  refine ⟨fun _ => ?_, fun _ => ?_⟩
  · rw [handleGetSharefilesCount, wp_bind, wp_ok_withDBConn]
    intro ptr
    rw [wp_ok_withCacheConn]
    intro cacheConn
    refine wp_mono (wp_getShareFilesCount ptr cacheConn h hbound) ?_
    rintro _ w' ⟨hdb, hcached, rfl⟩
    exact reports_total hdb hcached rfl
  · cases reader postData with
    | none => exact hfail
    | some root =>
        refine wp_extractFieldAsInt_or hfail fun count => ?_
        refine wp_extractFieldAsInt_or hfail fun start => ?_
        rw [wp_ite]
        refine ⟨fun _ => ?_, fun _ => ?_⟩
        · rw [wp_bind]
          exact wp_mono (wp_handleGetShareFilelist start count h hbound) fun _ _ hr => hr
        · rw [wp_ite]
          refine ⟨fun hpvdesc => ?_, fun _ => hfail⟩
          rw [wp_bind]
          exact wp_mono (wp_handleGetRankingFilelist start count h (hranking (hrank hpvdesc)))
            fun _ _ hr => hr

/-- A completed request keeps a count that fits. -/
theorem cached_of_exec {reader : JsonReader} {r : CountRequest} {response : Option Json}
    (h : Cached w) (hcond : r.Counted w) (hexec : Exec ok (r.prog reader) w response w') :
    Cached w' := by
  cases r with
  | share user md5 filename =>
      obtain ⟨_, m, hrun, hret⟩ := exec_bind_iff.mp hexec
      cases hret
      have hshare := (wp_sound (wp_handleShareFile user md5 filename w) hrun).2
      exact h.of_countsShare hcond hshare
  | cancel user md5 filename =>
      obtain ⟨_, m, hrun, hret⟩ := exec_bind_iff.mp hexec
      cases hret
      exact h.of_dropsShare hcond (wp_sound (wp_handleCancelShareFile user md5 filename w) hrun).drops
  | delete user md5 filename =>
      obtain ⟨_, m, hrun, hret⟩ := exec_bind_iff.mp hexec
      cases hret
      exact h.of_unshares hcond (wp_sound (wp_handleDeleteFile user md5 filename w) hrun).unshares
  | list url postData =>
      obtain ⟨_, m, hrun, hret⟩ := exec_bind_iff.mp hexec
      cases hret
      exact (wp_sound (wp_apiSharefile reader url postData h hcond) hrun).2.1

end Requests

/-! ## Runs -/

/-- `FILE_PUBLIC_COUNT` is absent, or the number of rows. -/
def CountStart (w : World) : Prop :=
  w.redis.lookup filePublicCount = none ∨
    counterOf w.redis filePublicCount = .ok (w.db.shareFileList.length : Int)

theorem cached_of_countStart {w : World} (h : CountStart w) : Cached w := by
  rcases h with hnone | hexact
  · refine ⟨0, ?_, Or.inl rfl⟩
    rw [counterOf, valueAt, hnone]
    rfl
  · exact ⟨_, hexact, Or.inr rfl⟩

/-- The worlds reached by completed requests that keep the count right. -/
def CountRun (reader : JsonReader) : World → Prop :=
  Run (Completes ok (CountRequest.prog reader)) CountStart CountRequest.Counted

/-- Every total that is reported in such a run is the number of shares. -/
theorem countRun_total (reader : JsonReader) (w : World) (h : CountRun reader w)
    (url postData : List UInt8) (hcond : (CountRequest.list url postData).Counted w)
    (code : Int) (response : Written) (w' : World)
    (hexec : Exec ok (apiSharefile reader url postData) w (code, some response) w') (total : Int)
    (htotal : totalOf response.root = some total) :
    total = w.db.shareFileList.length ∧ w'.db = w.db := by
  have hcached : Cached w := by
    refine Run.invariant (fun w hinit => ?_) ?_ h
    · exact cached_of_countStart hinit
    · rintro r w w' hcached hcond ⟨response, hexec⟩
      exact cached_of_exec hcached hcond hexec
  obtain ⟨hdb, _, hreports⟩ := wp_sound (wp_apiSharefile reader url postData hcached hcond) hexec
  exact ⟨hreports total htotal, hdb⟩

instance (user md5 filename : CString) (w : World) : Decidable (UncountsOne user md5 filename w) :=
  inferInstanceAs (Decidable (_ ∨ _))

instance (url : List UInt8) : Decidable (MayRank url) := by
  unfold MayRank
  exact match queryParseKeyValue (CString.cStr url) (CString.lit "cmd") with
  | some cmd => inferInstanceAs (Decidable (cmd = CString.lit "pvdesc"))
  | none => isTrue trivial

instance (r : CountRequest) (w : World) : Decidable (r.Counted w) :=
  match r with
  | .share _ _ _ => inferInstanceAs (Decidable (_ ∨ _ ∨ _))
  | .cancel _ _ _ => inferInstanceAs (Decidable (UncountsOne ..))
  | .delete _ _ _ => inferInstanceAs (Decidable ((_ ∧ _) ∨ _))
  | .list _ _ => inferInstanceAs (Decidable (_ ∧ (_ → _)))

/-- No body is JSON. -/
def noJson : JsonReader := fun _ => none

def countUrl : List UInt8 := (CString.lit "cmd=count").bytes

/-- A run of the count request that reports a total is an execution that does. -/
theorem exec_of_reported (w : World) (total : Int)
    (h : ((run (okReply sampleSys) (apiSharefile noJson countUrl []) w).map fun reply =>
      (reply.1.1, reply.1.2.bind fun text => totalOf text.root)) = some (0, some total)) :
    ∃ text w', Exec ok (apiSharefile noJson countUrl []) w (0, some text) w' ∧
      totalOf text.root = some total := by
  obtain ⟨⟨⟨code, response⟩, w'⟩, hrun, hresponse⟩ := Option.map_eq_some_iff.mp h
  obtain ⟨rfl, htotal⟩ := Prod.mk.inj hresponse
  cases response with
  | none => cases htotal
  | some text => exact ⟨text, w', exec_of_run (okStep_of_okReply sampleSys) hrun, htotal⟩

/-- Two users share files, one of them takes hers back. -/
def sampleCount : Option World :=
  sampleRun (okReply sampleSys) (CountRequest.prog noJson) CountRequest.Counted
    [.share (CString.lit "v") (CString.lit "m") (CString.lit "a"),
      .list countUrl [],
      .share (CString.lit "u") (CString.lit "m") (CString.lit "b"),
      .cancel (CString.lit "u") (CString.lit "m") (CString.lit "b")] World.empty

theorem countRun_total_sample :
    ∃ w text w', CountRun noJson w ∧
      Exec ok (apiSharefile noJson countUrl []) w (0, some text) w' ∧
      totalOf text.root = some 1 ∧
      (1 : Int) = w.db.shareFileList.length ∧ w'.db = w.db := by
  have hrun : CountRun noJson (sampleCount.getD World.empty) :=
    run_sampleRun_getD (okStep_of_okReply sampleSys) (Or.inl rfl) (by decide)
  obtain ⟨text, w', hexec, htotal⟩ :=
    exec_of_reported (sampleCount.getD World.empty) 1 (by decide)
  exact ⟨_, text, w', hrun, hexec, htotal, countRun_total noJson _ hrun countUrl []
    ⟨by decide, by decide⟩ 0 text w' hexec 1 htotal⟩

/-- One file is shared, and Redis is fresh. -/
def uncountedWorld : World where
  db := { Tables.empty with
    shareFileList := [⟨CString.lit "v", CString.lit "m", CString.empty, CString.lit "a", 0⟩] }
  snapshot := none
  redis := ∅

/-- The first share after a restart of Redis hides the files that were shared before. -/
theorem countRun_hidden :
    ∃ w text w', Run (Completes ok (CountRequest.prog noJson)) CountStart (fun _ _ => True) w ∧
      Exec ok (apiSharefile noJson countUrl []) w (0, some text) w' ∧
      totalOf text.root = some 1 ∧ w.db.shareFileList.length = 2 := by
  have hrun : Run (Completes ok (CountRequest.prog noJson)) CountStart (fun _ _ => True)
      ((sampleRun (okReply sampleSys) (CountRequest.prog noJson) (fun _ _ => True)
        [.share (CString.lit "u") (CString.lit "m") (CString.lit "b")] uncountedWorld).getD
          uncountedWorld) :=
    run_sampleRun_getD (okStep_of_okReply sampleSys) (Or.inl rfl) (by decide)
  obtain ⟨text, w', hexec, htotal⟩ :=
    exec_of_reported ((sampleRun (okReply sampleSys) (CountRequest.prog noJson)
      (fun _ _ => True) [.share (CString.lit "u") (CString.lit "m") (CString.lit "b")]
      uncountedWorld).getD uncountedWorld) 1 (by decide)
  exact ⟨_, text, w', hrun, hexec, htotal, by decide⟩

end Files
end TcMuzi
