import TcMuzi.Api.Uses
import TcMuzi.Files.Concurrent
import TcMuzi.Server.Locking

/-!
# Concurrent downloads of shared files

Any number of `handlePvFile` calls of `api_deal_sharefile.cc` interleave their statements
on a transactional store; every SELECT and UPDATE may fail.  The row is locked before its
`pv` is read and until the new one is committed.

* `PvPhase` is the automaton of one call.
* `PvAgrees` says what its transaction has written and what its lock keeps true.
* `Downloaded` is what the commits add up to.
-/

namespace TcMuzi
namespace Files

open Base Server Redis Api Mysql Lib

/-! ## One call -/

structure PvCall where
  md5 : CString
  fileName : CString

def PvCall.key (call : PvCall) : CString × CString := (call.md5, call.fileName)

inductive PvPhase
  | idle
  -- in a transaction
  | begun
  -- the file is not shared
  | missing
  -- the row's `pv` has been read
  | read (pv : Int)
  -- the next one has been written
  | wrote (pv : Int)
  -- the transaction is over, with or without an effect
  | committed
  | closed

/-- A statement that reports an error has no effect or has ended the transaction. -/
def pvStep : (c : Server.Command) → PvPhase → c.Reply → PvPhase → Prop
  | .startTransaction, _, _, q' => q' = .begun
  | .commit, _, _, q' => q' = .committed
  | .rollback, _, _, q' => q' = .closed
  | .query (.shareFilePvForUpdate _ _), q, r, q' =>
      (r = none ∧ (q' = q ∨ q' = .closed)) ∨ (r = some [] ∧ q' = .missing) ∨
        ∃ pv pvs, r = some (pv :: pvs) ∧ q' = .read pv
  | .update _, q, r, q' =>
      (r = none ∧ (q' = q ∨ q' = .closed)) ∨ (r.isSome ∧ ∃ pv, q = .read pv ∧ q' = .wrote pv)
  | _, q, _, q' => q' = q

def pvMay (call : PvCall) : PvPhase → Server.Command → Prop
  | q, .startTransaction => q = .idle
  | q, .query (.shareFilePvForUpdate md5 fileName) => q = .begun ∧ (md5, fileName) = call.key
  | q, .update (.setShareFilePv md5 fileName n) =>
      ∃ pv, q = .read pv ∧ (md5, fileName) = call.key ∧ n = wrapInt32 (pv + 1)
  | q, .commit => ∃ pv, q = .wrote pv
  | q, .rollback => q = .begun ∨ q = .missing ∨ (∃ pv, q = .read pv) ∨ q = .closed
  | _, .redis _ => True
  | _, .getDBConn _ => True
  | _, .relDBConn _ => True
  | _, .getCacheConn => True
  | _, .relCacheConn => True
  | _, _ => False

def pvPhases (call : PvCall) : Sem Server.Command Command.Reply PvPhase where
  step := pvStep
  safe := pvMay call

section Call

variable {call : PvCall} {q : PvPhase}

/-- Connections and Redis do not matter to the automaton. -/
def NotSql : Server.Command → Prop
  | .redis _ => True
  | .getDBConn _ => True
  | .relDBConn _ => True
  | .getCacheConn => True
  | .relCacheConn => True
  | _ => False

theorem pvPhases_idle {c : Server.Command} (hc : NotSql c) : (pvPhases call).Idle c := by
  intro q
  cases c with
  | redis c => exact ⟨trivial, fun _ _ hstep => hstep⟩
  | getDBConn pool => exact ⟨trivial, fun _ _ hstep => hstep⟩
  | relDBConn pool => exact ⟨trivial, fun _ _ hstep => hstep⟩
  | getCacheConn => exact ⟨trivial, fun _ _ hstep => hstep⟩
  | relCacheConn => exact ⟨trivial, fun _ _ hstep => hstep⟩
  | _ => exact absurd hc id

theorem wp_pv_incrSharePv (ptr : Ptr) :
    wp (pvPhases call) (incrSharePv ptr call.md5 call.fileName)
      (fun result q => (result.isSome ∧ q = .committed) ∨ (result = none ∧ q = .closed)) .idle := by
  cases ptr with
  | null => trivial
  | conn =>
      refine ⟨rfl, ?_⟩
      rintro started _ rfl
      refine ⟨⟨rfl, rfl⟩, ?_⟩
      rintro result q (⟨rfl, hq⟩ | ⟨rfl, rfl⟩ | ⟨pv, pvs, rfl, rfl⟩)
      · -- the locking read reported an error
        have hmay : q = .begun ∨ q = .missing ∨ (∃ pv, q = .read pv) ∨ q = .closed := by
          rcases hq with rfl | rfl <;> simp
        refine ⟨hmay, ?_⟩
        rintro r _ rfl
        exact Or.inr ⟨rfl, rfl⟩
      · refine ⟨Or.inr (Or.inl rfl), ?_⟩
        rintro r _ rfl
        exact Or.inr ⟨rfl, rfl⟩
      · refine ⟨⟨pv, rfl, rfl, rfl⟩, ?_⟩
        rintro updated q (⟨rfl, hq⟩ | ⟨hsome, pv', hread, rfl⟩)
        · have hmay : q = .begun ∨ q = .missing ∨ (∃ pv, q = .read pv) ∨ q = .closed := by
            rcases hq with rfl | rfl
            · exact Or.inr (Or.inr (Or.inl ⟨pv, rfl⟩))
            · exact Or.inr (Or.inr (Or.inr rfl))
          refine ⟨hmay, ?_⟩
          rintro r _ rfl
          exact Or.inr ⟨rfl, rfl⟩
        · cases updated with
          | none => cases hsome
          | some n =>
              show wp _ (if (decide (0 < n) || !false) = true then _ else _) _ _
              rw [Bool.not_false, Bool.or_true, if_pos rfl]
              refine ⟨⟨pv', rfl⟩, ?_⟩
              rintro r _ rfl
              exact Or.inl ⟨rfl, rfl⟩

/-- A call that answers 0 has committed; one that fails may have. -/
theorem wp_pv_handlePvFile :
    wp (pvPhases call) (handlePvFile call.md5 call.fileName)
      (fun code q => q = .committed ∨ (q = .closed ∧ code ≠ httpRespOk)) .idle := by
  refine wp_withDBConn_of_idle (pvPhases_idle trivial) (pvPhases_idle trivial) fun dbConn => ?_
  refine wp_withCacheConn_of_idle (pvPhases_idle trivial) (pvPhases_idle trivial)
    fun cacheConn => ?_
  rw [wp_bind]
  refine wp_mono (wp_pv_incrSharePv dbConn) ?_
  rintro result q (⟨hsome, rfl⟩ | ⟨rfl, rfl⟩)
  · cases result with
    | none => cases hsome
    | some pv =>
        show wp _ (incrShareScore cacheConn call.md5 call.fileName pv >>= _) _ _
        rw [wp_bind]
        refine wp_of_idle (fun _ => trivial) ?_ fun ret => Or.inl rfl
        have hredis : ∀ c, FileCommand CString.empty c → (pvPhases call).Idle (.redis c) :=
          fun c _ => pvPhases_idle trivial
        exact uses_incrShareScore hredis cacheConn call.md5 call.fileName pv
  · exact Or.inr ⟨rfl, by decide⟩

end Call

/-! ## The rows -/

/-- The `pv` values that the locking read finds. -/
def pvsOf (t : Tables) (key : CString × CString) : List Int :=
  (t.shareFileList.filter (isShareFile key.1 key.2)).map (·.pv)

theorem isShareFile_iff_key (row : ShareFile) (key : CString × CString) :
    isShareFile key.1 key.2 row ↔ row.key = key := by
  simp [isShareFile, ShareFile.key, Prod.ext_iff]

/-- The row has this `pv`, and nobody else can change it. -/
def KeepsPv (call : PvCall) (t : Tables) (locks : List Lock) (pv : Int) : Prop :=
  .row (.shareFile call.key) ∈ locks ∧ ∀ n ∈ pvsOf t call.key, n = pv

/-- The transaction of a call and the committed tables, by the call's phase. -/
def PvAgrees (call : PvCall) (t : Tables) (txn : Option (Txn Update Lock)) : PvPhase → Prop
  | .idle => txn = none
  | .begun => txn = some ⟨[], []⟩
  | .missing => ∃ locks, txn = some ⟨[], locks⟩
  | .read pv => ∃ locks, txn = some ⟨[], locks⟩ ∧ KeepsPv call t locks pv
  | .wrote pv =>
      ∃ locks,
        txn = some ⟨[.setShareFilePv call.md5 call.fileName (wrapInt32 (pv + 1))], locks⟩ ∧
        KeepsPv call t locks pv
  | .committed => txn = none
  | .closed => txn = none

theorem PvAgrees.transfer {call : PvCall} {t t' : Tables} {txn : Option (Txn Update Lock)}
    {p : PvPhase} (h : PvAgrees call t txn p)
    (hpv : ∀ writes locks pv, txn = some ⟨writes, locks⟩ → KeepsPv call t locks pv →
      KeepsPv call t' locks pv) : PvAgrees call t' txn p := by
  cases p with
  | idle => exact h
  | begun => exact h
  | missing => exact h
  | committed => exact h
  | closed => exact h
  | read pv =>
      obtain ⟨locks, htxn, hkeeps⟩ := h
      exact ⟨locks, htxn, hpv _ _ _ htxn hkeeps⟩
  | wrote pv =>
      obtain ⟨locks, htxn, hkeeps⟩ := h
      exact ⟨locks, htxn, hpv _ _ _ htxn hkeeps⟩

/-- The tables after the commit of a call. -/
def downloadedTables (call : PvCall) (pv : Int) (t : Tables) : Tables :=
  Store.applyAll applyUpdate [.setShareFilePv call.md5 call.fileName (wrapInt32 (pv + 1))] t

theorem shareFileList_downloadedTables (call : PvCall) (pv : Int) (t : Tables) :
    (downloadedTables call pv t).shareFileList =
      t.shareFileList.map fun row =>
        if row.key = call.key then { row with pv := wrapInt32 (pv + 1) } else row := by
  refine List.map_congr_left fun row _ => ?_
  have hiff := isShareFile_iff_key row call.key
  by_cases hkey : row.key = call.key
  · rw [if_pos hkey]
    exact if_pos (hiff.mpr hkey)
  · rw [if_neg hkey]
    exact if_neg fun hfile => hkey (hiff.mp hfile)

/-- The other files keep theirs. -/
theorem pvsOf_downloadedTables {call : PvCall} {pv : Int} {t : Tables} {key : CString × CString}
    (hne : key ≠ call.key) : pvsOf (downloadedTables call pv t) key = pvsOf t key := by
  unfold pvsOf
  rw [shareFileList_downloadedTables]
  induction t.shareFileList with
  | nil => rfl
  | cons row rows ih =>
      by_cases hkey : row.key = call.key
      · have hother : ¬ isShareFile key.1 key.2 row := by
          rw [isShareFile_iff_key, hkey]
          exact Ne.symm hne
        have hset : ¬ isShareFile key.1 key.2 { row with pv := wrapInt32 (pv + 1) } := hother
        rw [List.map_cons, if_pos hkey, List.filter_cons_of_neg hset,
          List.filter_cons_of_neg hother]
        exact ih
      · rw [List.map_cons, if_neg hkey]
        by_cases hother : isShareFile key.1 key.2 row
        · rw [List.filter_cons_of_pos hother, List.filter_cons_of_pos hother, List.map_cons,
            List.map_cons, ih]
        · rw [List.filter_cons_of_neg hother, List.filter_cons_of_neg hother]
          exact ih

/-! ## The invariant -/

/-- How many of the committed calls are for the file. -/
def downloads {ι : Type} (calls : ι → PvCall) (successes : List ι) (key : CString × CString) : Nat :=
  successes.countP fun i => (calls i).key = key

/-- Every row has counted the committed calls for it, in an `int`, and nothing else has
changed. -/
def Downloaded {ι : Type} (calls : ι → PvCall) (t₀ t : Tables) (successes : List ι) : Prop :=
  t.shareFileList = t₀.shareFileList.map fun row =>
    { row with pv := wrapInt32 (row.pv + downloads calls successes row.key) }

abbrev PvInv {ι : Type} [DecidableEq ι] (calls : ι → PvCall) (t₀ : Tables) (s : DbServer ι)
    (q : ι → PvPhase) : Prop :=
  DbInv (fun i => PvAgrees (calls i)) (· = .committed) (Downloaded calls t₀) s q

section Invariant

variable {ι : Type} [DecidableEq ι] {calls : ι → PvCall} {t₀ : Tables} {s s' : DbServer ι}
  {q : ι → PvPhase} {i : ι}

/-- The keys are those of the beginning, so the read finds one value. -/
theorem PvInv.pvs_eq (h : PvInv calls t₀ s q) (honce : (t₀.shareFileList.map ShareFile.key).Nodup)
    {key : CString × CString} {pv : Int} {pvs : List Int}
    (hread : pvsOf s.store.committed key = pv :: pvs) :
    ∀ n ∈ pvsOf s.store.committed key, n = pv := by
  have hkeys : (s.store.committed.shareFileList.map ShareFile.key).Nodup := by
    rw [show s.store.committed.shareFileList = _ from h.data, List.map_map]
    exact honce
  have hfound : ∀ n ∈ pvsOf s.store.committed key,
      ∃ row ∈ s.store.committed.shareFileList, row.key = key ∧ row.pv = n := by
    intro n hn
    obtain ⟨row, hrow, hpv⟩ := List.mem_map.mp hn
    obtain ⟨hrow, hfile⟩ := List.mem_filter.mp hrow
    exact ⟨row, hrow, (isShareFile_iff_key row key).mp hfile, hpv⟩
  intro n hn
  obtain ⟨row, hrow, hkey, rfl⟩ := hfound n hn
  obtain ⟨row', hrow', hkey', rfl⟩ := hfound pv (hread ▸ List.mem_cons_self ..)
  rw [Table.eq_of_key_eq ShareFile.key hkeys hrow hrow' (hkey.trans hkey'.symm)]

omit [DecidableEq ι] in
/-- One more commit. -/
theorem Downloaded.bump {t : Tables} {successes : List ι} (h : Downloaded calls t₀ t successes)
    {pv : Int} (hpv : ∀ n ∈ pvsOf t (calls i).key, n = pv) :
    Downloaded calls t₀ (downloadedTables (calls i) pv t) (i :: successes) := by
  rw [Downloaded, shareFileList_downloadedTables, show t.shareFileList = _ from h, List.map_map]
  refine List.map_congr_left fun row hrow => ?_
  have hcount : downloads calls (i :: successes) row.key =
      downloads calls successes row.key + if (calls i).key = row.key then 1 else 0 := by
    rw [downloads, List.countP_cons]
    simp only [decide_eq_true_eq]
    rfl
  by_cases hkey : row.key = (calls i).key
  · -- the value that was read is the one that the commits before add up to
    have hold : wrapInt32 (row.pv + downloads calls successes row.key) = pv := by
      refine hpv _ (List.mem_map.mpr ⟨{ row with
        pv := wrapInt32 (row.pv + downloads calls successes row.key) }, ?_, rfl⟩)
      refine List.mem_filter.mpr ⟨?_, (isShareFile_iff_key _ _).mpr hkey⟩
      rw [show t.shareFileList = _ from h]
      exact List.mem_map.mpr ⟨row, hrow, rfl⟩
    have hnew : wrapInt32 (row.pv + (downloads calls (i :: successes) row.key : Int)) =
        wrapInt32 (pv + 1) := by
      rw [hcount, if_pos hkey.symm, ← hold, wrapInt32_wrapInt32_add, Int.add_assoc]
      rfl
    rw [Function.comp_apply, hnew]
    exact if_pos hkey
  · rw [Function.comp_apply, hcount, if_neg (Ne.symm hkey)]
    exact if_neg hkey

omit [DecidableEq ι] in
/-- Two calls that have locked rows have locked different ones. -/
theorem key_ne_of_locks {store : DbStore ι} (h : store.Compatible conflict) {j : ι} (hj : j ≠ i)
    {key key' : CString × CString} (hlock : store.Holds i (.row (.shareFile key)))
    (hlock' : store.Holds j (.row (.shareFile key'))) : key' ≠ key := by
  intro hkey
  have hconflict : conflict (.row (.shareFile key')) (.row (.shareFile key)) :=
    congrArg Resource.shareFile hkey
  exact h j i _ _ hj hconflict hlock' hlock

/-- The locks of another call keep what it relies on. -/
theorem PvInv.others_rely (h : PvInv calls t₀ s q) {j : ι} (hj : j ≠ i) {pv : Int}
    {locks : List Lock} {writes : List Update}
    (htxn : s.store.txns i = some ⟨writes, locks⟩)
    (hlock : Lock.row (.shareFile (calls i).key) ∈ locks) {p : PvPhase}
    (hagrees : PvAgrees (calls j) s.store.committed (s.store.txns j) p) :
    PvAgrees (calls j) (downloadedTables (calls i) pv s.store.committed) (s.store.txns j) p := by
  refine hagrees.transfer ?_
  rintro writes' locks' pv' htxn' ⟨hlock', hpv⟩
  have hne := key_ne_of_locks h.compatible hj ⟨_, htxn, hlock⟩ ⟨_, htxn', hlock'⟩
  refine ⟨hlock', ?_⟩
  rw [pvsOf_downloadedTables hne]
  exact hpv

/-- A statement of a call that reports an error. -/
theorem PvInv.refused (h : PvInv calls t₀ s q) (hcrash : s.crashed = false)
    (hq : q i ≠ .committed) {awaits : List Lock} (hstep : refuses True i awaits s s') :
    ∃ q', (q' = q i ∨ q' = .closed) ∧ PvInv calls t₀ s' (Function.update q i q') := by
  rcases hstep with ⟨_, rfl⟩ | ⟨_, rfl⟩
  · exact ⟨.closed, Or.inr rfl, h.rollback hcrash rfl hq (by simp)⟩
  · refine ⟨q i, Or.inl rfl, ?_⟩
    rw [Function.update_eq_self]
    exact h.wake

theorem PvInv.reads (h : PvInv calls t₀ s q) (hcrash : s.crashed = false)
    (honce : (t₀.shareFileList.map ShareFile.key).Nodup) {md5 fileName : CString}
    (hq : q i = .begun) (hkey : (md5, fileName) = (calls i).key) {r : Option (List Int)}
    (hstep : answers True i (.query (.shareFilePvForUpdate md5 fileName)) s r s') :
    ∃ q', pvStep (.query (.shareFilePvForUpdate md5 fileName)) (q i) r q' ∧
      PvInv calls t₀ s' (Function.update q i q') := by
  have htxn := h.agrees hcrash i
  rw [hq] at htxn
  have hnot : q i ≠ .committed := by simp [hq]
  rcases hstep with ⟨hfree, rows, hrows, rfl, rfl⟩ | ⟨rfl, hrefused⟩
  · rw [view_of_reader htxn] at hrows
    have hread : pvsOf s.store.committed (calls i).key = rows := by
      rw [← hkey]
      exact Option.some.inj hrows
    cases rows with
    | nil =>
        refine ⟨.missing, Or.inr (Or.inl ⟨rfl, rfl⟩), ?_⟩
        exact h.query hcrash htxn hfree ⟨_, rfl⟩ hnot (by simp)
    | cons pv pvs =>
        refine ⟨.read pv, Or.inr (Or.inr ⟨pv, pvs, rfl, rfl⟩), ?_⟩
        refine h.query hcrash htxn hfree ⟨_, rfl, ?_, h.pvs_eq honce hread⟩ hnot (by simp)
        rw [← hkey]
        exact List.mem_append_left _ (List.mem_cons_of_mem _ (List.mem_cons_self ..))
  · obtain ⟨q', hq', hinv⟩ := h.refused hcrash hnot hrefused
    exact ⟨q', Or.inl ⟨rfl, hq'⟩, hinv⟩

theorem PvInv.writes (h : PvInv calls t₀ s q) (hcrash : s.crashed = false)
    {md5 fileName : CString} {pv : Int} (hq : q i = .read pv)
    (hkey : (md5, fileName) = (calls i).key) {r : Option Nat}
    (hstep : answers True i (.update (.setShareFilePv md5 fileName (wrapInt32 (pv + 1)))) s r s') :
    ∃ q', pvStep (.update (.setShareFilePv md5 fileName (wrapInt32 (pv + 1)))) (q i) r q' ∧
      PvInv calls t₀ s' (Function.update q i q') := by
  have hagrees := h.agrees hcrash i
  rw [hq] at hagrees
  obtain ⟨locks, htxn, hlock, hpv⟩ := hagrees
  have hnot : q i ≠ .committed := by simp [hq]
  cases hkey
  rcases hstep with ⟨hfree, n, t, hexec, rfl, rfl⟩ | ⟨rfl, hrefused⟩
  · refine ⟨.wrote pv, Or.inr ⟨rfl, pv, hq, rfl⟩, ?_⟩
    exact h.write hcrash htxn hfree ⟨_, rfl, List.mem_append_right _ hlock, hpv⟩ hnot (by simp)
  · obtain ⟨q', hq', hinv⟩ := h.refused hcrash hnot hrefused
    exact ⟨q', Or.inl ⟨rfl, hq'⟩, hinv⟩

theorem PvInv.commits (h : PvInv calls t₀ s q) (hcrash : s.crashed = false) {pv : Int}
    (hq : q i = .wrote pv) :
    PvInv calls t₀ { s with store := s.store.commit applyUpdate i }
      (Function.update q i .committed) := by
  have hagrees := h.agrees hcrash i
  rw [hq] at hagrees
  obtain ⟨locks, htxn, hlock, hpv⟩ := hagrees
  have ht : Store.applyAll applyUpdate
      [.setShareFilePv (calls i).md5 (calls i).fileName (wrapInt32 (pv + 1))] s.store.committed =
      downloadedTables (calls i) pv s.store.committed := rfl
  exact h.commit hcrash htxn ht rfl (by simp [hq]) rfl
    (fun j hj hother => h.others_rely hj htxn hlock hother) (h.data.bump hpv)

theorem PvInv.step (h : PvInv calls t₀ s q) (honce : (t₀.shareFileList.map ShareFile.key).Nodup)
    {c : Server.Command} {r : c.Reply} (hmay : pvMay (calls i) (q i) c)
    (hstep : (dbSystem ι True).step i c s r s') :
    ∃ q', pvStep c (q i) r q' ∧ PvInv calls t₀ s' (Function.update q i q') := by
  obtain ⟨hcrash, hstep⟩ := hstep
  have hsame : PvInv calls t₀ s (Function.update q i (q i)) := by
    rw [Function.update_eq_self]
    exact h
  cases c with
  | query query =>
      cases query with
      | shareFilePvForUpdate md5 fileName =>
          obtain ⟨hq, hkey⟩ := hmay
          exact h.reads hcrash honce hq hkey hstep
      | _ => exact absurd hmay id
  | update u =>
      cases u with
      | setShareFilePv md5 fileName n =>
          obtain ⟨pv, hq, hkey, rfl⟩ := hmay
          exact h.writes hcrash hq hkey hstep
      | _ => exact absurd hmay id
  | startTransaction =>
      obtain ⟨rfl, rfl⟩ := hstep
      have htxn := h.agrees hcrash i
      have hq : q i = .idle := hmay
      rw [hq] at htxn
      exact ⟨.begun, rfl, h.start hcrash htxn rfl (by simp [hq]) (by simp)⟩
  | commit =>
      obtain ⟨rfl, rfl⟩ := hstep
      obtain ⟨pv, hq⟩ := hmay
      exact ⟨.committed, rfl, h.commits hcrash hq⟩
  | rollback =>
      obtain ⟨rfl, rfl⟩ := hstep
      refine ⟨.closed, rfl, h.rollback hcrash rfl ?_ (by simp)⟩
      rcases hmay with hq | hq | ⟨pv, hq⟩ | hq <;> simp [hq]
  | redis c => obtain rfl : s' = s := hstep; exact ⟨q i, rfl, hsame⟩
  | getDBConn pool => obtain rfl : s' = s := hstep; exact ⟨q i, rfl, hsame⟩
  | relDBConn pool => obtain rfl : s' = s := hstep; exact ⟨q i, rfl, hsame⟩
  | getCacheConn => obtain rfl : s' = s := hstep; exact ⟨q i, rfl, hsame⟩
  | relCacheConn => obtain rfl : s' = s := hstep; exact ⟨q i, rfl, hsame⟩
  | _ => exact absurd hmay id

end Invariant

/-! ## All interleavings -/

section Interleavings

variable {ι : Type} [DecidableEq ι]

/-- The calls have not begun, each shared file has at most one row, and the columns hold
what their type allows. -/
structure PvStart (calls : ι → PvCall) (cfg : DbConfig ι Int) : Prop where
  prog : ∀ i, cfg.prog i = handlePvFile (calls i).md5 (calls i).fileName
  running : cfg.shared.crashed = false
  closed : ∀ i, cfg.shared.store.txns i = none
  fresh : cfg.shared.store.successes = []
  once : (cfg.shared.store.committed.shareFileList.map ShareFile.key).Nodup
  ints : cfg.shared.store.committed.HoldInts

def PvReachable (calls : ι → PvCall) (t₀ : Tables) (cfg : DbConfig ι Int) : Prop :=
  ∃ init, PvStart calls init ∧ init.shared.store.committed = t₀ ∧
    Reachable (dbSystem ι True) init cfg

theorem PvStart.simulates {calls : ι → PvCall} {cfg : DbConfig ι Int} (h : PvStart calls cfg) :
    Simulates (fun i => pvPhases (calls i)) (PvInv calls cfg.shared.store.committed)
      (fun _ code q => q = .committed ∨ (q = .closed ∧ code ≠ httpRespOk)) cfg fun _ => .idle := by
  refine ⟨DbInv.initial h.closed h.fresh (fun _ => rfl) (by simp) ?_, fun i => ?_⟩
  · have hsame : ∀ row ∈ cfg.shared.store.committed.shareFileList,
        { row with pv := wrapInt32 (row.pv + downloads calls [] row.key) } = row := by
      intro row hrow
      rw [downloads, List.countP_nil, Int.natCast_zero, Int.add_zero,
        wrapInt32_eq (h.ints.shareFilePv row hrow)]
    exact ((List.map_congr_left hsame).trans (List.map_id _)).symm
  · rw [h.prog i]
    exact wp_pv_handlePvFile

/-- In every interleaving, with any failures, the `pv` of each row has counted exactly the
calls for it that have committed, each once; a call that answers 0 is one of them. -/
theorem pvReachable_downloaded (calls : ι → PvCall) (t₀ : Tables) (cfg : DbConfig ι Int)
    (h : PvReachable calls t₀ cfg) :
    Downloaded calls t₀ cfg.shared.store.committed cfg.shared.store.successes ∧
      cfg.shared.store.successes.Nodup ∧
      ∀ i, cfg.prog i = .ret httpRespOk → i ∈ cfg.shared.store.successes := by
  obtain ⟨init, hstart, rfl, hreach⟩ := h
  obtain ⟨q, hsim⟩ := reachable_simulates
    (fun i c s r s' q hq hmay hstep => hq.step hstart.once hmay hstep)
    (fun _ _ _ _ _ hq _ hpause => hq.pause hpause) (fun _ _ _ _ hq _ hfault => hq.fault hfault)
    (fun _ _ _ _ hmove => absurd hmove id) hstart.simulates hreach
  refine ⟨hsim.1.data, hsim.1.once, fun i hret => ?_⟩
  rcases hsim.post_of_ret hret with hq | ⟨_, hcode⟩
  · exact (hsim.1.success i).mpr hq
  · exact absurd rfl hcode

end Interleavings

/-! ## Two calls -/

/-- The user `o` shares the file of the sample, which was downloaded five times. -/
def sampleShared : Tables :=
  { sampleFile.db with
    shareFileList := [⟨CString.lit "o", sampleMd5, CString.empty, CString.lit "a", 5⟩] }

def samplePvCalls (_ : Bool) : PvCall := ⟨sampleMd5, CString.lit "a"⟩

def pvStart : DbConfig Bool Int where
  shared := ⟨⟨sampleShared, fun _ => none, fun _ => none, []⟩, false⟩
  prog i := handlePvFile (samplePvCalls i).md5 (samplePvCalls i).fileName

/-- One transaction is open while the other one runs. -/
def pvOrder : List Bool :=
  List.replicate 3 false ++ List.replicate 11 true ++ List.replicate 8 false

theorem pvReachable_downloaded_sample :
    ∃ cfg, schedule (dbReply sampleSys emptyRedis) pvOrder pvStart = some cfg ∧
      cfg.shared.store.successes = [false, true] ∧
      Downloaded samplePvCalls sampleShared cfg.shared.store.committed
        cfg.shared.store.successes ∧
      cfg.shared.store.successes.Nodup ∧
      ∀ i, cfg.prog i = .ret httpRespOk → i ∈ cfg.shared.store.successes := by
  have hrun : (schedule (dbReply sampleSys emptyRedis) pvOrder pvStart).map
      (fun cfg => cfg.shared.store.successes) = some [false, true] := by decide
  obtain ⟨cfg, hcfg, hsuccesses⟩ := Option.map_eq_some_iff.mp hrun
  have hints : sampleShared.HoldInts := by decide
  have hstart : PvStart samplePvCalls pvStart :=
    ⟨fun _ => rfl, rfl, fun _ => rfl, rfl, by decide, hints⟩
  have hreach := reachable_of_schedule (step_of_dbReply sampleSys emptyRedis True) .refl hcfg
  exact ⟨cfg, hcfg, hsuccesses,
    pvReachable_downloaded samplePvCalls sampleShared cfg ⟨pvStart, hstart, rfl, hreach⟩⟩

/-! ## A `pv` that wraps -/

/-- The file was downloaded as often as an `int` can tell. -/
def fullPv : Tables :=
  { sampleFile.db with
    shareFileList := [⟨CString.lit "o", sampleMd5, CString.empty, CString.lit "a", 2147483647⟩] }

/-- One more download of it. -/
def fullPvStart : DbConfig Unit Int where
  shared := ⟨⟨fullPv, fun _ => none, fun _ => none, []⟩, false⟩
  prog _ := handlePvFile sampleMd5 (CString.lit "a")

theorem pvReachable_wraps :
    ¬ ∀ (calls : Unit → PvCall) t₀ cfg, PvReachable calls t₀ cfg →
      (∀ i, cfg.shared.store.txns i = none) →
      cfg.shared.store.committed.shareFileList = t₀.shareFileList.map fun row =>
        { row with pv := row.pv + downloads calls cfg.shared.store.successes row.key } := by
  intro hclaim
  have hrun : (schedule (dbReply sampleSys emptyRedis) (List.replicate 11 ()) fullPvStart).map
      (fun cfg => (cfg.shared.store.committed.shareFileList.map (·.pv),
        cfg.shared.store.successes, decide (cfg.shared.store.txns () = none))) =
      some ([-2147483648], [()], true) := by
    decide
  obtain ⟨cfg, hcfg, hfinal⟩ := Option.map_eq_some_iff.mp hrun
  obtain ⟨hpvs, hfinal⟩ := Prod.mk.inj hfinal
  obtain ⟨hsuccesses, hclosed⟩ := Prod.mk.inj hfinal
  have hints : fullPv.HoldInts := by decide
  have hstart : PvStart (fun _ => ⟨sampleMd5, CString.lit "a"⟩) fullPvStart :=
    ⟨fun _ => rfl, rfl, fun _ => rfl, rfl, by decide, hints⟩
  have hreach := reachable_of_schedule (step_of_dbReply sampleSys emptyRedis True) .refl hcfg
  have hrows := hclaim _ fullPv cfg ⟨fullPvStart, hstart, rfl, hreach⟩
    fun _ => of_decide_eq_true hclosed
  rw [hrows, hsuccesses] at hpvs
  revert hpvs
  decide

end Files
end TcMuzi
