import TcMuzi.Files.Concurrent
import TcMuzi.Files.InstantUpload

/-!
# Concurrent instant uploads

Any number of `handleDealMd5` calls interleave their statements on a transactional store
with row and gap locks.  A statement that has to wait is answered later, or its
transaction is rolled back when it waits in a circle; other statements succeed.

* `Agrees` says what the transaction of a call has written, which locks it keeps, and what
  these locks keep true of the committed tables.
* `InstantData` is what the commits add up to: one row and one count for each.
-/

namespace TcMuzi
namespace Files

open Base Server Api Mysql Lib

/-! ## What the locks of a call keep true -/

/-- The user does not have the file, and nobody else can insert it. -/
def KeepsAbsent (call : Md5Call) (t : Tables) (locks : List Lock) : Prop :=
  .gap (.userFile call.key) ∈ locks ∧ call.key ∉ t.userFileList.map UserFile.key

/-- The file has this count, and nobody else can change it. -/
def KeepsCount (call : Md5Call) (t : Tables) (locks : List Lock) (count : Int) : Prop :=
  .row (.file call.md5) ∈ locks ∧ countsOf t call.md5 = [count]

/-- The transaction of a call and the committed tables, by the call's phase. -/
def Agrees (call : Md5Call) (t : Tables) (txn : Option (Txn Update Lock)) : Md5Phase → Prop
  | .idle => txn = none
  | .begun => txn = some ⟨[], []⟩
  | .found => ∃ locks, txn = some ⟨[], locks⟩
  | .missing => ∃ locks, txn = some ⟨[], locks⟩ ∧ KeepsAbsent call t locks
  | .counted count =>
      ∃ locks, txn = some ⟨[], locks⟩ ∧ KeepsAbsent call t locks ∧ KeepsCount call t locks count
  | .bumped count =>
      ∃ locks, txn = some ⟨[.setFileCount call.md5 (wrapInt32 (count + 1))], locks⟩ ∧
        KeepsAbsent call t locks ∧ KeepsCount call t locks count
  | .inserted count row =>
      ∃ locks,
        txn = some ⟨[.setFileCount call.md5 (wrapInt32 (count + 1)), .insertUserFile row], locks⟩ ∧
        KeepsAbsent call t locks ∧ KeepsCount call t locks count ∧ row.key = call.key ∧
        .inserted (.userFile call.key) ∈ locks
  | .committed => txn = none
  | .closed => txn = none

theorem KeepsAbsent.more {call : Md5Call} {t : Tables} {locks : List Lock}
    (h : KeepsAbsent call t locks) (more : List Lock) : KeepsAbsent call t (more ++ locks) :=
  ⟨List.mem_append_right _ h.1, h.2⟩

theorem KeepsCount.more {call : Md5Call} {t : Tables} {locks : List Lock} {count : Int}
    (h : KeepsCount call t locks count) (more : List Lock) :
    KeepsCount call t (more ++ locks) count :=
  ⟨List.mem_append_right _ h.1, h.2⟩

/-- Only the facts about the committed tables have to be carried over a commit. -/
theorem Agrees.transfer {call : Md5Call} {t t' : Tables} {txn : Option (Txn Update Lock)}
    {p : Md5Phase} (h : Agrees call t txn p)
    (habsent : ∀ writes locks, txn = some ⟨writes, locks⟩ → KeepsAbsent call t locks →
      KeepsAbsent call t' locks)
    (hcount : ∀ writes locks count, txn = some ⟨writes, locks⟩ →
      KeepsCount call t locks count → KeepsCount call t' locks count) :
    Agrees call t' txn p := by
  cases p with
  | idle => exact h
  | begun => exact h
  | found => exact h
  | committed => exact h
  | closed => exact h
  | missing =>
      obtain ⟨locks, htxn, hkeeps⟩ := h
      exact ⟨locks, htxn, habsent _ _ htxn hkeeps⟩
  | counted count =>
      obtain ⟨locks, htxn, hkeeps, hcounts⟩ := h
      exact ⟨locks, htxn, habsent _ _ htxn hkeeps, hcount _ _ _ htxn hcounts⟩
  | bumped count =>
      obtain ⟨locks, htxn, hkeeps, hcounts⟩ := h
      exact ⟨locks, htxn, habsent _ _ htxn hkeeps, hcount _ _ _ htxn hcounts⟩
  | inserted count row =>
      obtain ⟨locks, htxn, hkeeps, hcounts, hrow⟩ := h
      exact ⟨locks, htxn, habsent _ _ htxn hkeeps, hcount _ _ _ htxn hcounts, hrow⟩

/-! ## The effect of a commit -/

theorem countsOf_setCount_of_ne {t t' : Tables} {md5 other : CString} {n : Int}
    (h : t'.fileInfo = setCount md5 n t.fileInfo) (hne : other ≠ md5) :
    countsOf t' other = countsOf t other := by
  unfold countsOf
  rw [h]
  induction t.fileInfo with
  | nil => rfl
  | cons row rows ih =>
      simp only [setCount, Table.setWhere, List.map_cons, List.filter_cons] at ih ⊢
      by_cases hfile : isFile md5 row
      · have hother : isFile other row = false := by
          simpa [isFile, (isFile_iff md5 row).mp hfile] using hne.symm
        have hset : isFile other { row with count := n } = false := hother
        simp [hfile, hset, hother, ih]
      · by_cases hother : isFile other row
        · simp [hfile, hother, ih]
        · simp [hfile, hother, ih]

/-- What a successful call writes. -/
def bumpedTables (call : Md5Call) (count : Int) (row : UserFile) (t : Tables) : Tables :=
  Store.applyAll applyUpdate
    [.setFileCount call.md5 (wrapInt32 (count + 1)), .insertUserFile row] t

section Bumped

variable {call : Md5Call} {count : Int} {row : UserFile} {t : Tables}

theorem fileInfo_bumpedTables :
    (bumpedTables call count row t).fileInfo =
      setCount call.md5 (wrapInt32 (count + 1)) t.fileInfo := rfl

theorem userFileList_bumpedTables :
    (bumpedTables call count row t).userFileList = Table.insertRow row t.userFileList := rfl

theorem countsOf_bumpedTables (hcount : countsOf t call.md5 = [count]) (md5 : CString) :
    countsOf (bumpedTables call count row t) md5 =
      (countsOf t md5).map fun n => if call.md5 = md5 then wrapInt32 (n + 1) else n := by
  by_cases hmd5 : call.md5 = md5
  · subst hmd5
    rw [countsOf_setCount fileInfo_bumpedTables, hcount]
    simp
  · rw [countsOf_setCount_of_ne fileInfo_bumpedTables (Ne.symm hmd5)]
    simp [hmd5]

theorem references_bumpedTables (hkey : row.key = call.key) (md5 : CString) :
    references (bumpedTables call count row t) md5 =
      references t md5 + if call.md5 = md5 then 1 else 0 := by
  have hmd5 : row.md5 = call.md5 :=
    congrArg (fun key : CString × CString × CString => key.2.1) hkey
  rw [references, userFileList_bumpedTables, Table.countP_insertRow, hmd5]
  simp only [decide_eq_true_eq]
  rfl

/-- A key that was absent is still, unless it is the one inserted. -/
theorem absent_bumpedTables {key : CString × CString × CString} (hkey : row.key = call.key)
    (habsent : key ∉ t.userFileList.map UserFile.key) (hne : key ≠ call.key) :
    key ∉ (bumpedTables call count row t).userFileList.map UserFile.key := by
  rw [userFileList_bumpedTables, Table.insertRow, List.map_append, List.mem_append]
  rintro (hold | hnew)
  · exact habsent hold
  · exact hne ((List.mem_singleton.mp hnew).trans hkey)

end Bumped

/-! ## The invariant -/

/-- `k` references to the file were added and counted, in an `int`. -/
structure Increased (t₀ t : Tables) (md5 : CString) (k : Nat) : Prop where
  counts : countsOf t md5 = (countsOf t₀ md5).map fun n => wrapInt32 (n + k)
  -- there is a count to add to
  stored : k ≠ 0 → Stored t₀ md5
  rows : references t md5 = references t₀ md5 + k

/-- How many of the committed calls are for the file. -/
def commitsOn {ι : Type} (calls : ι → Md5Call) (successes : List ι) (md5 : CString) : Nat :=
  successes.countP fun i => (calls i).md5 = md5

/-- The keys stay unique, and each committed call has added one reference. -/
def InstantData {ι : Type} (calls : ι → Md5Call) (t₀ t : Tables) (successes : List ι) : Prop :=
  (t.userFileList.map UserFile.key).Nodup ∧
    ∀ md5, Increased t₀ t md5 (commitsOn calls successes md5)

abbrev Md5Inv {ι : Type} [DecidableEq ι] (calls : ι → Md5Call) (t₀ : Tables) (s : DbServer ι)
    (q : ι → Md5Phase) : Prop :=
  DbInv (fun i => Agrees (calls i)) (· = .committed) (InstantData calls t₀) s q

section Invariant

variable {ι : Type} [DecidableEq ι] {calls : ι → Md5Call} {t₀ : Tables} {s s' : DbServer ι}
  {q : ι → Md5Phase} {i : ι}

/-- With one row for each md5 there is one count. -/
theorem Md5Inv.counts_eq (h : Md5Inv calls t₀ s q) (honce : ∀ md5, (countsOf t₀ md5).length ≤ 1)
    {md5 : CString} {count : Int} {counts : List Int}
    (hcounts : countsOf s.store.committed md5 = count :: counts) :
    countsOf s.store.committed md5 = [count] := by
  have hlength : (countsOf s.store.committed md5).length ≤ 1 := by
    rw [(h.data.2 md5).counts, List.length_map]
    exact honce md5
  rw [hcounts] at hlength ⊢
  cases counts with
  | nil => rfl
  | cons count' counts => simp at hlength

/-- The locks of another transaction keep what it relies on. -/
theorem Md5Inv.others_rely (h : Md5Inv calls t₀ s q) {j : ι} (hj : j ≠ i) {count : Int}
    {row : UserFile} {locks : List Lock} {writes : List Update}
    (htxn : s.store.txns i = some ⟨writes, locks⟩) (hrow : row.key = (calls i).key)
    (hfile : Lock.row (.file (calls i).md5) ∈ locks)
    (hinserted : Lock.inserted (.userFile (calls i).key) ∈ locks)
    {p : Md5Phase} (hagrees : Agrees (calls j) s.store.committed (s.store.txns j) p) :
    Agrees (calls j) (bumpedTables (calls i) count row s.store.committed) (s.store.txns j) p := by
  refine hagrees.transfer ?_ ?_
  · rintro writes' locks' htxn' ⟨hgap, habsent⟩
    refine ⟨hgap, absent_bumpedTables hrow habsent fun hkey => ?_⟩
    -- the gap of `j` would contain the row of `i`
    have hconflict : conflict (.gap (.userFile (calls j).key))
        (.inserted (.userFile (calls i).key)) := congrArg Resource.userFile hkey
    exact h.compatible j i _ _ hj hconflict ⟨_, htxn', hgap⟩ ⟨_, htxn, hinserted⟩
  · rintro writes' locks' count' htxn' ⟨hlock, hcounts⟩
    refine ⟨hlock, ?_⟩
    rw [countsOf_setCount_of_ne fileInfo_bumpedTables, hcounts]
    intro hmd5
    have hconflict : conflict (.row (.file (calls j).md5)) (.row (.file (calls i).md5)) :=
      congrArg Resource.file hmd5
    exact h.compatible j i _ _ hj hconflict ⟨_, htxn', hlock⟩ ⟨_, htxn, hfile⟩

/-- One more commit of a row and a count. -/
theorem Increased.bump {t : Tables} {md5 : CString} {k : Nat} (h : Increased t₀ t md5 k)
    {call : Md5Call} {count : Int} {row : UserFile} (hcount : countsOf t call.md5 = [count])
    (hkey : row.key = call.key) :
    Increased t₀ (bumpedTables call count row t) md5
      (k + if call.md5 = md5 then 1 else 0) := by
  refine ⟨?_, fun hpos => ?_, ?_⟩
  · rw [countsOf_bumpedTables hcount, h.counts, List.map_map]
    refine List.map_congr_left fun n _ => ?_
    show (if call.md5 = md5 then wrapInt32 (wrapInt32 (n + k) + 1) else wrapInt32 (n + k)) = _
    split
    · rw [wrapInt32_wrapInt32_add, Int.add_assoc]
      rfl
    · rfl
  · by_cases hmd5 : call.md5 = md5
    · -- the count that was read comes from a row that was there at the start
      subst hmd5
      have hsome : countsOf t₀ call.md5 ≠ [] := by
        intro hnone
        rw [h.counts, hnone] at hcount
        cases hcount
      by_contra hnot
      exact hsome ((countsOf_eq_nil_iff ..).mpr hnot)
    · rw [if_neg hmd5] at hpos
      exact h.stored hpos
  · rw [references_bumpedTables hkey, h.rows, Nat.add_assoc]

/-- The commit of a call that has inserted its row. -/
theorem Md5Inv.commits (h : Md5Inv calls t₀ s q) (hcrash : s.crashed = false) {count : Int}
    {row : UserFile} (hq : q i = .inserted count row) :
    Md5Inv calls t₀ { s with store := s.store.commit applyUpdate i }
      (Function.update q i .committed) := by
  have hagrees := h.agrees hcrash i
  rw [hq] at hagrees
  obtain ⟨locks, htxn, ⟨hgap, habsent⟩, ⟨hlock, hcounts⟩, hkey, hinserted⟩ := hagrees
  have hnot : q i ≠ .committed := by simp [hq]
  have ht : Store.applyAll applyUpdate
      [.setFileCount (calls i).md5 (wrapInt32 (count + 1)), .insertUserFile row]
        s.store.committed =
      bumpedTables (calls i) count row s.store.committed := rfl
  refine h.commit hcrash htxn ht rfl hnot rfl
    (fun j hj hother => h.others_rely hj htxn hkey hlock hinserted hother) ⟨?_, fun md5 => ?_⟩
  · rw [userFileList_bumpedTables]
    exact Table.nodup_insertRow _ h.data.1 (hkey ▸ habsent)
  · rw [commitsOn, List.countP_cons]
    simp only [decide_eq_true_eq]
    exact (h.data.2 md5).bump hcounts hkey

/-! ### The statements of one call -/

/-- The check of the user's row, under a lock. -/
theorem Md5Inv.reads_record (h : Md5Inv calls t₀ s q) (hcrash : s.crashed = false)
    {user md5 fileName : CString} (hq : q i = .begun)
    (hkey : (user, md5, fileName) = (calls i).key) {r : Option (List UserFile)}
    (hstep : answers False i (.query (.userFile user md5 fileName true)) s r s') :
    ∃ q', md5Step (.query (.userFile user md5 fileName true)) (q i) r q' ∧
      Md5Inv calls t₀ s' (Function.update q i q') := by
  have htxn := h.agrees hcrash i
  rw [hq] at htxn
  have hnot : q i ≠ .committed := by simp [hq]
  rcases hstep with ⟨hfree, rows, hrows, rfl, rfl⟩ | ⟨_, ⟨⟨_, hdead⟩, _⟩ | ⟨hno, _⟩⟩
  · rw [view_of_reader htxn] at hrows
    have hread : rows = s.store.committed.userFileList.filter (isUserFile user md5 fileName) :=
      (Option.some.inj hrows).symm
    cases rows with
    | nil =>
        refine ⟨.missing, Or.inl ⟨rfl, rfl⟩, ?_⟩
        refine h.query hcrash htxn hfree ⟨_, rfl, ?_, ?_⟩ hnot (by simp)
        · rw [← hkey]
          exact List.mem_append_left _ (List.mem_cons_self ..)
        · rw [← hkey]
          refine (not_holds_iff ..).mpr fun row hrow => ?_
          simpa using List.filter_eq_nil_iff.mp hread.symm row hrow
    | cons row rows =>
        refine ⟨.found, Or.inr ⟨⟨row, rows, rfl⟩, rfl⟩, ?_⟩
        exact h.query hcrash htxn hfree ⟨_, rfl⟩ hnot (by simp)
  · -- it has no locks that anyone could wait for
    refine absurd hdead (Store.not_deadlocked ?_)
    rintro l ⟨txn, htxn', hl⟩
    rw [htxn] at htxn'
    cases htxn'
    cases hl
  · exact absurd hno id

/-- The read of the count, under a lock. -/
theorem Md5Inv.reads_count (h : Md5Inv calls t₀ s q) (hcrash : s.crashed = false)
    (honce : ∀ md5, (countsOf t₀ md5).length ≤ 1) (hq : q i = .missing) {r : Option (List Int)}
    (hstep : answers False i (.query (.fileCount (calls i).md5 true)) s r s') :
    ∃ q', md5Step (.query (.fileCount (calls i).md5 true)) (q i) r q' ∧
      Md5Inv calls t₀ s' (Function.update q i q') := by
  have hagrees := h.agrees hcrash i
  rw [hq] at hagrees
  obtain ⟨locks, htxn, hkeeps⟩ := hagrees
  have hnot : q i ≠ .committed := by simp [hq]
  rcases hstep with ⟨hfree, rows, hrows, rfl, rfl⟩ | ⟨rfl, ⟨_, rfl⟩ | ⟨hno, _⟩⟩
  · rw [view_of_reader htxn] at hrows
    have hread : countsOf s.store.committed (calls i).md5 = rows := Option.some.inj hrows
    cases rows with
    | nil =>
        refine ⟨.missing, Or.inr (Or.inl ⟨rfl, rfl⟩), ?_⟩
        exact h.query hcrash htxn hfree ⟨_, rfl, hkeeps.more _⟩ hnot (by simp)
    | cons count counts =>
        refine ⟨.counted count, Or.inr (Or.inr ⟨count, counts, rfl, rfl⟩), ?_⟩
        refine h.query hcrash htxn hfree ⟨_, rfl, hkeeps.more _, ?_, h.counts_eq honce hread⟩
          hnot (by simp)
        exact List.mem_append_left _ (List.mem_cons_of_mem _ (List.mem_cons_self ..))
  · exact ⟨.closed, Or.inl ⟨rfl, rfl⟩, h.rollback hcrash rfl hnot (by simp)⟩
  · exact absurd hno id

/-- The two writes. -/
theorem Md5Inv.writes (h : Md5Inv calls t₀ s q) (hcrash : s.crashed = false) {u : Update}
    (hmay : md5May (calls i) (q i) (.update u)) {r : Option Nat}
    (hstep : answers False i (.update u) s r s') :
    ∃ q', md5Step (.update u) (q i) r q' ∧ Md5Inv calls t₀ s' (Function.update q i q') := by
  have hnot : q i ≠ .committed := by
    intro hq
    rw [hq] at hmay
    cases u with
    | setFileCount md5 n => obtain ⟨count, hno, _⟩ := hmay; cases hno
    | insertUserFile row => obtain ⟨count, hno, _⟩ := hmay; cases hno
    | _ => exact hmay
  rcases hstep with ⟨hfree, n, t, hexec, rfl, rfl⟩ | ⟨rfl, ⟨_, rfl⟩ | ⟨hno, _⟩⟩
  · have hagrees := h.agrees hcrash i
    cases u with
    | setFileCount md5 n =>
        obtain ⟨count, hq, rfl, rfl⟩ := hmay
        rw [hq] at hagrees
        obtain ⟨locks, htxn, hkeeps, hcounts⟩ := hagrees
        refine ⟨.bumped count, Or.inr ⟨rfl, by rw [hq]; rfl⟩, ?_⟩
        exact h.write hcrash htxn hfree ⟨_, rfl, hkeeps.more _, hcounts.more _⟩ hnot (by simp)
    | insertUserFile row =>
        obtain ⟨count, hq, hkey⟩ := hmay
        rw [hq] at hagrees
        obtain ⟨locks, htxn, hkeeps, hcounts⟩ := hagrees
        refine ⟨.inserted count row, Or.inr ⟨rfl, by rw [hq]; rfl⟩, ?_⟩
        refine h.write hcrash htxn hfree ⟨_, rfl, hkeeps.more _, hcounts.more _, hkey, ?_⟩ hnot
          (by simp)
        rw [← hkey]
        exact List.mem_append_left _ (List.mem_singleton.mpr rfl)
    | _ => exact absurd hmay id
  · exact ⟨.closed, Or.inl ⟨rfl, rfl⟩, h.rollback hcrash rfl hnot (by simp)⟩
  · exact absurd hno id

/-- `commit` and `rollback`. -/
theorem Md5Inv.ends (h : Md5Inv calls t₀ s q) (hcrash : s.crashed = false)
    (hmay : q i = .found ∨ ∃ count row, q i = .inserted count row) :
    Md5Inv calls t₀ { s with store := s.store.commit applyUpdate i }
      (Function.update q i (q i).ended) := by
  rcases hmay with hq | ⟨count, row, hq⟩
  · have hagrees := h.agrees hcrash i
    rw [hq] at hagrees
    obtain ⟨locks, htxn⟩ := hagrees
    rw [hq]
    exact h.commit_reader hcrash htxn rfl (by simp [hq]) (by simp [Md5Phase.ended])
  · rw [hq]
    exact h.commits hcrash hq

theorem Md5Inv.step (h : Md5Inv calls t₀ s q) (honce : ∀ md5, (countsOf t₀ md5).length ≤ 1)
    {c : Server.Command} {r : c.Reply} (hmay : md5May (calls i) (q i) c)
    (hstep : (dbSystem ι False).step i c s r s') :
    ∃ q', md5Step c (q i) r q' ∧ Md5Inv calls t₀ s' (Function.update q i q') := by
  obtain ⟨hcrash, hstep⟩ := hstep
  have hsame : Md5Inv calls t₀ s (Function.update q i (q i)) := by
    rw [Function.update_eq_self]
    exact h
  cases c with
  | query query =>
      cases query with
      | userFile user md5 fileName forUpdate =>
          obtain ⟨hq, hkey, rfl⟩ := hmay
          exact h.reads_record hcrash hq hkey hstep
      | fileCount md5 forUpdate =>
          obtain ⟨hq, rfl, rfl⟩ := hmay
          exact h.reads_count hcrash honce hq hstep
      | _ => exact absurd hmay id
  | update u => exact h.writes hcrash hmay hstep
  | startTransaction =>
      obtain ⟨rfl, rfl⟩ := hstep
      have htxn := h.agrees hcrash i
      have hq : q i = .idle := hmay
      rw [hq] at htxn
      exact ⟨.begun, rfl, h.start hcrash htxn rfl (by simp [hq]) (by simp)⟩
  | commit =>
      obtain ⟨rfl, rfl⟩ := hstep
      exact ⟨_, rfl, h.ends hcrash hmay⟩
  | rollback =>
      obtain ⟨rfl, rfl⟩ := hstep
      refine ⟨.closed, rfl, h.rollback hcrash rfl ?_ (by simp)⟩
      rcases hmay with hq | hq <;> simp [hq]
  | getDBConn pool => obtain rfl : s' = s := hstep; exact ⟨q i, rfl, hsame⟩
  | relDBConn pool => obtain rfl : s' = s := hstep; exact ⟨q i, rfl, hsame⟩
  | sys c => obtain rfl : s' = s := hstep; exact ⟨q i, rfl, hsame⟩
  | _ => exact absurd hmay id

end Invariant

/-! ## All interleavings -/

section Interleavings

variable {ι : Type} [DecidableEq ι]

/-- The calls have not begun; each md5 has at most one row, each file of a user too, and
the columns hold what their type allows. -/
structure InstantStart (calls : ι → Md5Call) (cfg : DbConfig ι Int) : Prop where
  prog : ∀ i, cfg.prog i = handleDealMd5 (calls i).user (calls i).md5 (calls i).fileName
  running : cfg.shared.crashed = false
  closed : ∀ i, cfg.shared.store.txns i = none
  fresh : cfg.shared.store.successes = []
  once : ∀ md5, cfg.shared.store.committed.fileInfo.countP (isFile md5) ≤ 1
  nodup : (cfg.shared.store.committed.userFileList.map UserFile.key).Nodup
  ints : cfg.shared.store.committed.HoldInts

def InstantReachable (calls : ι → Md5Call) (t₀ : Tables) (cfg : DbConfig ι Int) : Prop :=
  ∃ init, InstantStart calls init ∧ init.shared.store.committed = t₀ ∧
    Reachable (dbSystem ι False) init cfg

/-- The post-condition of a call. -/
def answersRightly (_ : ι) (code : Int) (q : Md5Phase) : Prop :=
  (q = .committed ∧ code = md5Ok) ∨ (q = .closed ∧ code ≠ md5Ok)

theorem InstantStart.simulates {calls : ι → Md5Call} {cfg : DbConfig ι Int}
    (h : InstantStart calls cfg) :
    Simulates (fun i => md5Phases (calls i)) (Md5Inv calls cfg.shared.store.committed)
      answersRightly cfg fun _ => .idle := by
  refine ⟨DbInv.initial h.closed h.fresh (fun _ => rfl) (by simp) ⟨h.nodup, fun md5 => ?_⟩,
    fun i => ?_⟩
  · refine ⟨?_, by simp [commitsOn], by simp [commitsOn]⟩
    have hsame : ∀ n ∈ countsOf cfg.shared.store.committed md5, wrapInt32 (n + (0 : Nat)) = n := by
      intro n hn
      obtain ⟨row, hrow, rfl⟩ := List.mem_map.mp hn
      rw [Int.natCast_zero, Int.add_zero]
      exact wrapInt32_eq (h.ints.count row (List.mem_of_mem_filter hrow))
    exact ((List.map_congr_left hsame).trans (List.map_id _)).symm
  · rw [h.prog i]
    exact wp_md5_handleDealMd5

/-- In every interleaving, each commit of a call has added one row and one count: nothing
is lost, counted twice or inserted twice, and a call that has returned answers 0 exactly
when it has committed. -/
theorem instantReachable_counted (calls : ι → Md5Call) (t₀ : Tables) (cfg : DbConfig ι Int)
    (h : InstantReachable calls t₀ cfg) :
    (cfg.shared.store.committed.userFileList.map UserFile.key).Nodup ∧
      (∀ md5, Increased t₀ cfg.shared.store.committed md5
        (commitsOn calls cfg.shared.store.successes md5)) ∧
      cfg.shared.store.successes.Nodup ∧
      ∀ i code, cfg.prog i = .ret code → (code = md5Ok ↔ i ∈ cfg.shared.store.successes) := by
  obtain ⟨init, hstart, rfl, hreach⟩ := h
  have honce : ∀ md5, (countsOf init.shared.store.committed md5).length ≤ 1 := by
    intro md5
    rw [countsOf, List.length_map, ← List.countP_eq_length_filter]
    exact hstart.once md5
  obtain ⟨q, hsim⟩ := reachable_simulates
    (fun i c s r s' q hq hmay hstep => hq.step honce hmay hstep)
    (fun _ _ _ _ _ hq _ hpause => hq.pause hpause) (fun _ _ _ _ hq _ hfault => hq.fault hfault)
    (fun _ _ _ _ hmove => absurd hmove id) hstart.simulates hreach
  refine ⟨hsim.1.data.1, hsim.1.data.2, hsim.1.once, fun i code hret => ?_⟩
  rw [hsim.1.success i]
  rcases hsim.post_of_ret hret with ⟨hq, hcode⟩ | ⟨hq, hcode⟩
  · exact iff_of_true hcode hq
  · exact iff_of_false hcode (by simp [hq])

end Interleavings

/-! ## Two calls -/

/-- Two users want the file of the sample. -/
def sampleCalls (i : Bool) : Md5Call :=
  ⟨if i then CString.lit "u" else CString.lit "v", sampleMd5, CString.lit "b"⟩

def instantStart : DbConfig Bool Int where
  shared := ⟨⟨sampleFile.db, fun _ => none, fun _ => none, []⟩, false⟩
  prog i := handleDealMd5 (sampleCalls i).user (sampleCalls i).md5 (sampleCalls i).fileName

/-- Both look for their row before either reads the count. -/
def instantOrder : List Bool :=
  List.replicate 3 false ++ List.replicate 9 true ++ List.replicate 6 false

theorem instantReachable_counted_sample :
    ∃ cfg, schedule (dbReply sampleSys emptyRedis) instantOrder instantStart = some cfg ∧
      cfg.shared.store.successes = [false, true] ∧
      (cfg.shared.store.committed.userFileList.map UserFile.key).Nodup ∧
      (∀ md5, Increased sampleFile.db cfg.shared.store.committed md5
        (commitsOn sampleCalls cfg.shared.store.successes md5)) ∧
      cfg.shared.store.successes.Nodup ∧
      ∀ i code, cfg.prog i = .ret code → (code = md5Ok ↔ i ∈ cfg.shared.store.successes) := by
  have hrun : (schedule (dbReply sampleSys emptyRedis) instantOrder instantStart).map
      (fun cfg => cfg.shared.store.successes) = some [false, true] := by decide
  obtain ⟨cfg, hcfg, hsuccesses⟩ := Option.map_eq_some_iff.mp hrun
  have honce : ∀ md5, sampleFile.db.fileInfo.countP (isFile md5) ≤ 1 :=
    fun md5 => List.countP_le_length
  have hints : sampleFile.db.HoldInts := by decide
  have hstart : InstantStart sampleCalls instantStart :=
    ⟨fun _ => rfl, rfl, fun _ => rfl, rfl, honce, by decide, hints⟩
  have hreach := reachable_of_schedule (step_of_dbReply sampleSys emptyRedis False) .refl hcfg
  exact ⟨cfg, hcfg, hsuccesses,
    instantReachable_counted sampleCalls sampleFile.db cfg ⟨instantStart, hstart, rfl, hreach⟩⟩

/-! ## A count that wraps -/

/-- The file of the sample, with as many references as an `int` can tell. -/
def fullCount : Tables :=
  { sampleFile.db with fileInfo := setCount sampleMd5 2147483647 sampleFile.db.fileInfo }

/-- One user wants it. -/
def wrapStart : DbConfig Unit Int where
  shared := ⟨⟨fullCount, fun _ => none, fun _ => none, []⟩, false⟩
  prog _ := handleDealMd5 (CString.lit "v") sampleMd5 (CString.lit "b")

theorem instantReachable_wraps :
    ¬ ∀ (calls : Unit → Md5Call) t₀ cfg, InstantReachable calls t₀ cfg →
      (∀ i, cfg.shared.store.txns i = none) → ∀ md5,
      countsOf cfg.shared.store.committed md5 =
        (countsOf t₀ md5).map (· + (commitsOn calls cfg.shared.store.successes md5 : Int)) := by
  intro hclaim
  have hrun : (schedule (dbReply sampleSys emptyRedis) (List.replicate 9 ()) wrapStart).map
      (fun cfg => (countsOf cfg.shared.store.committed sampleMd5, cfg.shared.store.successes,
        decide (cfg.shared.store.txns () = none))) = some ([-2147483648], [()], true) := by
    decide
  obtain ⟨cfg, hcfg, hfinal⟩ := Option.map_eq_some_iff.mp hrun
  obtain ⟨hcounts, hfinal⟩ := Prod.mk.inj hfinal
  obtain ⟨hsuccesses, hclosed⟩ := Prod.mk.inj hfinal
  have honce : ∀ md5, fullCount.fileInfo.countP (isFile md5) ≤ 1 :=
    fun md5 => List.countP_le_length
  have hints : fullCount.HoldInts := by decide
  have hstart : InstantStart (fun _ => ⟨CString.lit "v", sampleMd5, CString.lit "b"⟩) wrapStart :=
    ⟨fun _ => rfl, rfl, fun _ => rfl, rfl, honce, by decide, hints⟩
  have hreach := reachable_of_schedule (step_of_dbReply sampleSys emptyRedis False) .refl hcfg
  have hsum := hclaim _ fullCount cfg ⟨wrapStart, hstart, rfl, hreach⟩
    (fun _ => of_decide_eq_true hclosed) sampleMd5
  rw [hcounts, hsuccesses] at hsum
  revert hsum
  decide

end Files
end TcMuzi
