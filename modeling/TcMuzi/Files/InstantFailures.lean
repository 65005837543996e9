import TcMuzi.Files.Effects
import TcMuzi.Server.Failing

/-!
# Instant uploads with failing statements

One call of `handleDealMd5` in which any of its statements may fail.  It does not read the
results of `StartTransaction`, `Commit` and `Rollback`, and takes an ownership check that
failed for no record.  `AllOrNothing` is what the transaction is there for; `Harmless` is
exactly when the call achieves it.
-/

namespace TcMuzi
namespace Files

open Base Server Api Mysql Lib

/-- The statements of a call that fail. -/
structure Md5Failures where
  start : Bool
  selectRow : Bool
  selectCount : Bool
  update : Bool
  insert : Bool
  commit : Bool
  rollback : Bool

def Md5Failures.fails (f : Md5Failures) : Server.Command → Bool
  | .startTransaction => f.start
  | .query (.userFile ..) => f.selectRow
  | .query (.fileCount ..) => f.selectCount
  | .update (.setFileCount ..) => f.update
  | .update (.insertUserFile _) => f.insert
  | .commit => f.commit
  | .rollback => f.rollback
  | _ => false

/-- Every row of the file has counted one more reference, and the user has a row. -/
def GainsReference (user md5 filename : CString) (t t' : Tables) : Prop :=
  ∃ time, t' = { t with
    fileInfo := Table.setWhere (isFile md5) (fun row => { row with count := row.count + 1 })
      t.fileInfo
    userFileList := Table.insertRow (newUserFile user md5 time filename) t.userFileList }

/-- The call returns.  Either the user did not have the file, the reference has been added
and the code is 0, or the code is another one and nothing is changed: neither for other
connections nor in a transaction that is left open. -/
def AllOrNothing (user md5 filename : CString) (t : Tables) (outcome : Option (Int × World)) :
    Prop :=
  ∃ code w', outcome = some (code, w') ∧
    ((code = md5Ok ∧ ¬ Holds t user md5 filename ∧ GainsReference user md5 filename t w'.db ∧
        GainsReference user md5 filename t w'.durable) ∨
      (code ≠ md5Ok ∧ w'.db = t ∧ w'.durable = t))

/-- All rows of the file carry one count, and it has a successor in an `int`. -/
def OneCount (t : Tables) (md5 : CString) : Prop :=
  ∀ row ∈ t.fileInfo, isFile md5 row →
    IsInt32 (row.count + 1) ∧ ∀ count ∈ (countsOf t md5).head?, row.count = count

/-- No failure is overlooked that matters. -/
def Harmless (f : Md5Failures) (t : Tables) (user md5 filename : CString) : Prop :=
  -- the user is known to have the file
  (f.selectRow = false ∧ Holds t user md5 filename) ∨
    -- a NULL result set of the second SELECT is dereferenced
    (f.selectCount = false ∧
      -- nothing has been written
      (¬ Stored t md5 ∨ f.update = true ∨
        -- the written count is rolled back
        (f.insert = true ∧ f.start = false ∧ f.rollback = false) ∨
        -- the row is new, and what is written is committed
        (f.insert = false ∧ ¬ Holds t user md5 filename ∧ OneCount t md5 ∧
          (f.start = true ∨ f.commit = false))))

/-- The call on the tables `t`, with no transaction open. -/
def md5Outcome (f : Md5Failures) (sys : (c : SysCall) → c.Ret) (t : Tables) (redis : Redis.Keyspace)
    (user md5 filename : CString) : Option (Int × World) :=
  run (failingReply f.fails sys .noReply) (handleDealMd5 user md5 filename) ⟨t, none, redis⟩

/-! ## The statements of one call -/

section Statements

variable (f : Md5Failures) (sys : (c : SysCall) → c.Ret) (user md5 filename : CString) (w : World)

/-- Inside a transaction, unless it could not be started. -/
def Md5Failures.opened (w : World) : World :=
  if f.start then w else { w with snapshot := some w.db }

def Md5Failures.committed (w : World) : World :=
  if f.commit then w else { w with snapshot := none }

def Md5Failures.rolledBack (w : World) : World :=
  if f.rollback then w else { w with db := w.snapshot.getD w.db, snapshot := none }

theorem run_md5_startTransaction :
    run (failingReply f.fails sys .noReply) (startTransaction .conn) w =
      some (!f.start, f.opened w) := by
  cases h : f.start <;>
    simp [startTransaction, beginTransaction, issue, Prog.issue, run, failingReply,
      Md5Failures.fails, Md5Failures.opened, h, errorReply, okReply]

theorem run_md5_commit :
    run (failingReply f.fails sys .noReply) (commit .conn) w = some (!f.commit, f.committed w) := by
  cases h : f.commit <;>
    simp [commit, commitTransaction, issue, Prog.issue, run, failingReply,
      Md5Failures.fails, Md5Failures.committed, h, errorReply, okReply]

theorem run_md5_rollback :
    run (failingReply f.fails sys .noReply) (rollback .conn) w =
      some (!f.rollback, f.rolledBack w) := by
  cases h : f.rollback <;>
    simp [rollback, rollbackTransaction, issue, Prog.issue, run, failingReply,
      Md5Failures.fails, Md5Failures.rolledBack, h, errorReply, okReply]

/-- The ownership check finds a row when it is answered and there is one. -/
theorem run_md5_record :
    ∃ ret, run (failingReply f.fails sys .noReply)
        (checkwhetherHaveRecord .conn (.userFile user md5 filename true)) w = some (ret, w) ∧
      (ret = 1 ↔ f.selectRow = false ∧ Holds w.db user md5 filename) := by
  cases h : f.selectRow with
  | true =>
      have hreply : failingReply f.fails sys .noReply (.query (.userFile user md5 filename true)) w =
          some (none, w) := if_pos h
      refine ⟨-1, ?_, by simp⟩
      show run _ (.cmd (Server.Command.query _) _) w = _
      rw [run_step_of_eq hreply]
      rfl
  | false =>
      have hreply : failingReply f.fails sys .noReply (.query (.userFile user md5 filename true)) w =
          some (some (w.db.userFileList.filter (isUserFile user md5 filename)), w) :=
        if_neg (by simp [Md5Failures.fails, h])
      cases hrows : w.db.userFileList.filter (isUserFile user md5 filename) with
      | nil =>
          rw [hrows] at hreply
          refine ⟨0, ?_, ?_⟩
          · show run _ (.cmd (Server.Command.query _) _) w = _
            rw [run_step_of_eq hreply]
            rfl
          · refine iff_of_false (by decide) fun hheld => ?_
            obtain ⟨row, hrow, hfile⟩ := (holds_iff ..).mp hheld.2
            exact absurd hfile (List.filter_eq_nil_iff.mp hrows row hrow)
      | cons row rows =>
          rw [hrows] at hreply
          refine ⟨1, ?_, ?_⟩
          · show run _ (.cmd (Server.Command.query _) _) w = _
            rw [run_step_of_eq hreply]
            rfl
          · refine iff_of_true rfl ⟨rfl, (holds_iff ..).mpr ⟨row, ?_⟩⟩
            exact List.mem_filter.mp (hrows ▸ List.mem_cons_self ..)

/-- The read of the count: its NULL result set is dereferenced. -/
theorem run_md5_getResultOneCount :
    run (failingReply f.fails sys .noReply) (getResultOneCount .conn md5 true 0) w =
      if f.selectCount then none
      else
        match countsOf w.db md5 with
        | [] => some (((1 : Int), (0 : Int)), w)
        | count :: _ => some (((0 : Int), count), w) := by
  cases h : f.selectCount with
  | true =>
      have hreply : failingReply f.fails sys .noReply (.query (.fileCount md5 true)) w =
          some (none, w) := if_pos h
      show run _ (.cmd (Server.Command.query _) _) w = _
      rw [run_step_of_eq hreply]
      rfl
  | false =>
      have hreply : failingReply f.fails sys .noReply (.query (.fileCount md5 true)) w =
          some (some (countsOf w.db md5), w) := if_neg (by simp [Md5Failures.fails, h])
      show run _ (.cmd (Server.Command.query _) _) w = _
      rw [run_step_of_eq hreply]
      cases countsOf w.db md5 with
      | nil => rfl
      | cons count counts => rfl

/-- The world with the count written. -/
def withCount (count : Int) : World :=
  { w with db := { w.db with fileInfo := setCount md5 count w.db.fileInfo } }

/-- The world with a row for the user. -/
def withUserRow (time : CString) : World :=
  { w with db := { w.db with
    userFileList := Table.insertRow (newUserFile user md5 time filename) w.db.userFileList } }

theorem run_md5_setFileCount (count : Int) :
    run (failingReply f.fails sys .noReply) (executeUpdate .conn (.setFileCount md5 count) false) w =
      some (!f.update, if f.update then w else withCount md5 w count) := by
  cases h : f.update with
  | true =>
      have hreply : failingReply f.fails sys .noReply (.update (.setFileCount md5 count)) w =
          some (none, w) := if_pos h
      show run _ (.cmd (Server.Command.update _) _) w = _
      rw [run_step_of_eq hreply]
      rfl
  | false =>
      have hreply : failingReply f.fails sys .noReply (.update (.setFileCount md5 count)) w =
          some (some _, withCount md5 w count) := if_neg (by simp [Md5Failures.fails, h])
      show run _ (.cmd (Server.Command.update _) _) w = _
      rw [run_step_of_eq hreply]
      show some (decide (0 < _) || !false, withCount md5 w count) = _
      rw [Bool.not_false, Bool.or_true]
      rfl

theorem run_md5_insertUserFile (time : CString) :
    run (failingReply f.fails sys .noReply)
        (executeCreate .conn (.insertUserFile (newUserFile user md5 time filename))) w =
      some (!f.insert, if f.insert then w else withUserRow user md5 filename w time) := by
  cases h : f.insert with
  | true =>
      have hreply : failingReply f.fails sys .noReply
          (.update (.insertUserFile (newUserFile user md5 time filename))) w = some (none, w) :=
        if_pos h
      show run _ (.cmd (Server.Command.update _) _) w = _
      rw [run_step_of_eq hreply]
      rfl
  | false =>
      have hreply : failingReply f.fails sys .noReply
          (.update (.insertUserFile (newUserFile user md5 time filename))) w =
          some (some 1, withUserRow user md5 filename w time) :=
        if_neg (by simp [Md5Failures.fails, h])
      show run _ (.cmd (Server.Command.update _) _) w = _
      rw [run_step_of_eq hreply]
      rfl

/-- What `addReference` does in a transaction or outside. -/
theorem run_md5_addReference (hselect : f.selectCount = false) :
    run (failingReply f.fails sys .noReply) (addReference .conn user md5 filename) w =
      match countsOf w.db md5 with
      | [] => some (false, w)
      | count :: _ =>
          if f.update then some (false, w)
          else if f.insert then some (false, withCount md5 w (wrapInt32 (count + 1)))
          else some (true, withUserRow user md5 filename (withCount md5 w (wrapInt32 (count + 1)))
            (sys .currentTime)) := by
  rw [addReference, run_bind, run_md5_getResultOneCount, hselect, if_neg (by simp)]
  cases countsOf w.db md5 with
  | nil => rfl
  | cons count counts =>
      show run _ (if (0 : Int) ≠ -1 ∧ (0 : Int) ≠ 1 then _ else _) w = _
      rw [if_pos (by decide), run_bind, run_md5_setFileCount]
      cases hupdate : f.update with
      | true => rfl
      | false =>
          have htime : failingReply f.fails sys .noReply (.sys .currentTime)
              (withCount md5 w (wrapInt32 (count + 1))) =
              some (sys .currentTime, withCount md5 w (wrapInt32 (count + 1))) := rfl
          show run _ (.cmd (Server.Command.sys .currentTime) _)
            (withCount md5 w (wrapInt32 (count + 1))) = _
          rw [run_step_of_eq htime]
          refine (run_md5_insertUserFile f sys user md5 filename _ _).trans ?_
          cases f.insert <;> rfl

end Statements

/-! ## The call -/

/-- The next count differs from the one that was read. -/
theorem setCount_ne {t : Tables} {md5 : CString} {count : Int} {counts : List Int}
    (hcounts : countsOf t md5 = count :: counts) :
    setCount md5 (wrapInt32 (count + 1)) t.fileInfo ≠ t.fileInfo := by
  intro hsame
  obtain ⟨row, hrow, hmd5, rfl⟩ := exists_of_countsOf hcounts
  have hfile : isFile md5 row := (isFile_iff md5 row).mpr hmd5
  have hset : { row with count := wrapInt32 (row.count + 1) } = row := by
    have hmap := (List.map_inj_left.mp (hsame.trans (List.map_id _).symm)) row hrow
    rwa [if_pos hfile] at hmap
  exact wrapInt32_add_one_ne row.count (congrArg FileInfo.count hset)

/-- Writing the next of the count that was read is counting up, when there is one count and
it does not wrap. -/
theorem setCount_eq_iff {t : Tables} {md5 : CString} {count : Int} {counts : List Int}
    (hcounts : countsOf t md5 = count :: counts) :
    setCount md5 (wrapInt32 (count + 1)) t.fileInfo =
        Table.setWhere (isFile md5) (fun row => { row with count := row.count + 1 }) t.fileInfo ↔
      OneCount t md5 := by
  rw [setCount, Table.setWhere, Table.setWhere, List.map_inj_left]
  have hhead : ∀ c, c ∈ (countsOf t md5).head? ↔ c = count := by
    intro c
    rw [hcounts]
    simp [eq_comm]
  obtain ⟨first, hfirst, hmd5, hread⟩ := exists_of_countsOf hcounts
  have hfirstfile : isFile md5 first := (isFile_iff md5 first).mpr hmd5
  constructor
  · intro h
    -- the row that was read shows that the count does not wrap
    have hup : IsInt32 (count + 1) := by
      have hsame := h first hfirst
      rw [if_pos hfirstfile, if_pos hfirstfile] at hsame
      have hcount : wrapInt32 (count + 1) = first.count + 1 := congrArg FileInfo.count hsame
      rw [hread] at hcount
      exact (wrapInt32_eq_iff _).mp hcount
    intro row hrow hfile
    have hsame := h row hrow
    rw [if_pos hfile, if_pos hfile, wrapInt32_eq hup] at hsame
    have hcount : count + 1 = row.count + 1 := congrArg FileInfo.count hsame
    refine ⟨hcount ▸ hup, fun c hc => ?_⟩
    rw [(hhead c).mp hc]
    omega
  · intro h row hrow
    by_cases hfile : isFile md5 row
    · obtain ⟨hup, hone⟩ := h row hrow hfile
      rw [hone count ((hhead count).mpr rfl)] at hup
      rw [if_pos hfile, if_pos hfile, hone count ((hhead count).mpr rfl), wrapInt32_eq hup]
    · rw [if_neg hfile, if_neg hfile]

section Call

variable (f : Md5Failures) (sys : (c : SysCall) → c.Ret) (user md5 filename : CString)
  (t : Tables) (redis : Redis.Keyspace)

/-- The world in which the ownership check is made. -/
def Md5Failures.begun : World := f.opened ⟨t, none, redis⟩

theorem db_begun : (f.begun t redis).db = t := by
  unfold Md5Failures.begun Md5Failures.opened
  split <;> rfl

theorem durable_begun : (f.begun t redis).durable = t := by
  unfold Md5Failures.begun Md5Failures.opened
  split <;> rfl

/-- The user is known to have the file. -/
theorem md5Outcome_known (hrow : f.selectRow = false) (hheld : Holds t user md5 filename) :
    md5Outcome f sys t redis user md5 filename =
      some (md5FileExit, f.committed (f.begun t redis)) := by
  obtain ⟨ret, hrecord, hret⟩ :=
    run_md5_record f sys user md5 filename (f.begun t redis)
  rw [db_begun] at hret
  obtain rfl : ret = 1 := hret.mpr ⟨hrow, hheld⟩
  rw [md5Outcome, handleDealMd5, run_failing_withDBConn rfl rfl, dealMd5Transaction, run_bind,
    run_md5_startTransaction]
  show run _ (checkwhetherHaveRecord .conn _ >>= _) (f.begun t redis) = _
  rw [run_bind, hrecord]
  show run _ (if (1 : Int) = 1 then _ else _) (f.begun t redis) = _
  rw [if_pos rfl, run_bind, run_md5_commit]
  rfl

/-- Otherwise the call goes on to the reference. -/
theorem md5Outcome_unknown (hunknown : ¬ (f.selectRow = false ∧ Holds t user md5 filename)) :
    md5Outcome f sys t redis user md5 filename =
      (run (failingReply f.fails sys .noReply) (addReference .conn user md5 filename)
        (f.begun t redis)).bind fun (succeed, w) =>
          some (if succeed then (md5Ok, f.committed w) else (md5Failed, f.rolledBack w)) := by
  obtain ⟨ret, hrecord, hret⟩ :=
    run_md5_record f sys user md5 filename (f.begun t redis)
  rw [db_begun] at hret
  have hne : ret ≠ 1 := fun h => hunknown (hret.mp h)
  rw [md5Outcome, handleDealMd5, run_failing_withDBConn rfl rfl, dealMd5Transaction, run_bind,
    run_md5_startTransaction]
  show run _ (checkwhetherHaveRecord .conn _ >>= _) (f.begun t redis) = _
  rw [run_bind, hrecord]
  show run _ (if ret = 1 then _ else _) (f.begun t redis) = _
  rw [if_neg hne, run_bind]
  cases run (failingReply f.fails sys .noReply) (addReference .conn user md5 filename)
    (f.begun t redis) with
  | none => rfl
  | some result =>
      obtain ⟨succeed, w⟩ := result
      cases succeed with
      | true =>
          show run _ (commit .conn >>= _) w = _
          rw [run_bind, run_md5_commit]
          rfl
      | false =>
          show run _ (rollback .conn >>= _) w = _
          rw [run_bind, run_md5_rollback]
          rfl

/-- Without an answer to the second SELECT the call does not return. -/
theorem md5Outcome_noCount (hunknown : ¬ (f.selectRow = false ∧ Holds t user md5 filename))
    (hselect : f.selectCount = true) :
    md5Outcome f sys t redis user md5 filename = none := by
  rw [md5Outcome_unknown f sys user md5 filename t redis hunknown, addReference, run_bind,
    run_md5_getResultOneCount, hselect]
  rfl

end Call

section Outcomes

variable {f : Md5Failures} {user md5 filename : CString} {t : Tables} {w : World}

@[simp] theorem db_committed : (f.committed w).db = w.db := by
  unfold Md5Failures.committed
  split <;> rfl

theorem durable_committed : (f.committed w).durable = if f.commit then w.durable else w.db := by
  unfold Md5Failures.committed
  split <;> rfl

theorem db_rolledBack : (f.rolledBack w).db = if f.rollback then w.db else w.durable := by
  unfold Md5Failures.rolledBack
  split <;> rfl

@[simp] theorem durable_rolledBack : (f.rolledBack w).durable = w.durable := by
  unfold Md5Failures.rolledBack
  split <;> rfl

/-- What is written inside the transaction is not yet seen outside. -/
theorem durable_begun_with (f : Md5Failures) (t t' : Tables) (redis : Redis.Keyspace) :
    World.durable { f.begun t redis with db := t' } = if f.start then t' else t := by
  unfold Md5Failures.begun Md5Failures.opened
  split <;> rfl

theorem allOrNothing_ok (hdb : w.db ≠ t) :
    AllOrNothing user md5 filename t (some (md5Ok, w)) ↔
      ¬ Holds t user md5 filename ∧ GainsReference user md5 filename t w.db ∧
        GainsReference user md5 filename t w.durable := by
  constructor
  · rintro ⟨code, w', hsome, ⟨_, h⟩ | ⟨hcode, hsame, _⟩⟩
    · cases hsome
      exact h
    · cases hsome
      exact absurd hsame hdb
  · exact fun h => ⟨md5Ok, w, rfl, Or.inl ⟨rfl, h⟩⟩

theorem allOrNothing_failed :
    AllOrNothing user md5 filename t (some (md5Failed, w)) ↔ w.db = t ∧ w.durable = t := by
  constructor
  · rintro ⟨code, w', hsome, ⟨hcode, _⟩ | ⟨_, h⟩⟩
    · cases hsome
      exact absurd hcode (by decide)
    · cases hsome
      exact h
  · exact fun h => ⟨md5Failed, w, rfl, Or.inr ⟨by decide, h⟩⟩

/-- The tables with the next count and the new row have gained a reference when the rows of
the file carried one count. -/
theorem gainsReference_iff {count : Int} {counts : List Int} {time : CString}
    (hcounts : countsOf t md5 = count :: counts) :
    GainsReference user md5 filename t
        { t with
          fileInfo := setCount md5 (wrapInt32 (count + 1)) t.fileInfo
          userFileList := Table.insertRow (newUserFile user md5 time filename) t.userFileList } ↔
      OneCount t md5 := by
  rw [← setCount_eq_iff hcounts]
  constructor
  · rintro ⟨time', htables⟩
    exact congrArg Tables.fileInfo htables
  · intro hfiles
    exact ⟨time, by rw [hfiles]⟩

theorem not_gainsReference_self : ¬ GainsReference user md5 filename t t := by
  rintro ⟨time, htables⟩
  have hrows := congrArg (fun t : Tables => t.userFileList.length) htables
  simp [Table.insertRow] at hrows

theorem fileInfo_ne {count : Int} {counts : List Int} (hcounts : countsOf t md5 = count :: counts)
    {t' : Tables} (hfiles : t'.fileInfo = setCount md5 (wrapInt32 (count + 1)) t.fileInfo) :
    t' ≠ t := by
  rintro rfl
  exact setCount_ne hcounts hfiles.symm

/-- The insert has failed: the written count is undone by a rollback of the transaction. -/
theorem allOrNothing_notInserted {count : Int} {counts : List Int} {redis : Redis.Keyspace}
    (hcounts : countsOf t md5 = count :: counts) :
    AllOrNothing user md5 filename t
        (some (md5Failed, f.rolledBack (withCount md5 (f.begun t redis) (wrapInt32 (count + 1))))) ↔
      f.start = false ∧ f.rollback = false := by
  have hworld : withCount md5 (f.begun t redis) (wrapInt32 (count + 1)) =
      { f.begun t redis with
        db := { t with fileInfo := setCount md5 (wrapInt32 (count + 1)) t.fileInfo } } := by
    rw [withCount, db_begun]
  have hne := @fileInfo_ne md5 t count counts hcounts
    { t with fileInfo := setCount md5 (wrapInt32 (count + 1)) t.fileInfo } rfl
  rw [allOrNothing_failed, db_rolledBack, durable_rolledBack, hworld, durable_begun_with]
  cases f.start <;> cases f.rollback <;> simp [hne]

/-- Both writes have been made: they last unless the commit of the transaction fails. -/
theorem allOrNothing_inserted {count : Int} {counts : List Int} {redis : Redis.Keyspace}
    {time : CString} (hcounts : countsOf t md5 = count :: counts) :
    AllOrNothing user md5 filename t
        (some (md5Ok, f.committed (withUserRow user md5 filename
          (withCount md5 (f.begun t redis) (wrapInt32 (count + 1))) time))) ↔
      ¬ Holds t user md5 filename ∧ OneCount t md5 ∧ (f.start = true ∨ f.commit = false) := by
  have hworld : withUserRow user md5 filename
      (withCount md5 (f.begun t redis) (wrapInt32 (count + 1))) time =
      { f.begun t redis with
        db := { t with
          fileInfo := setCount md5 (wrapInt32 (count + 1)) t.fileInfo
          userFileList := Table.insertRow (newUserFile user md5 time filename)
            t.userFileList } } := by
    rw [withUserRow, withCount, db_begun]
  have hne : ((f.committed (withUserRow user md5 filename
      (withCount md5 (f.begun t redis) (wrapInt32 (count + 1))) time)).db) ≠ t := by
    rw [db_committed, hworld]
    exact fileInfo_ne hcounts rfl
  have hgains := @gainsReference_iff user md5 filename t count counts time hcounts
  rw [allOrNothing_ok hne, db_committed, durable_committed, hworld, durable_begun_with]
  cases f.start <;> cases f.commit <;> simp [hgains, not_gainsReference_self]

end Outcomes

/-- The call does all or nothing exactly when no failure is overlooked that matters. -/
theorem md5Outcome_allOrNothing_iff (f : Md5Failures) (sys : (c : SysCall) → c.Ret) (t : Tables)
    (redis : Redis.Keyspace) (user md5 filename : CString) :
    AllOrNothing user md5 filename t (md5Outcome f sys t redis user md5 filename) ↔
      Harmless f t user md5 filename := by
  by_cases hknown : f.selectRow = false ∧ Holds t user md5 filename
  · rw [md5Outcome_known f sys user md5 filename t redis hknown.1 hknown.2]
    refine iff_of_true ⟨_, _, rfl, Or.inr ⟨by decide, ?_, ?_⟩⟩ (Or.inl hknown)
    · rw [db_committed, db_begun]
    · rw [durable_committed, durable_begun, db_begun, ite_self]
  · rw [Harmless, or_iff_right hknown]
    cases hselect : f.selectCount with
    | true =>
        rw [md5Outcome_noCount f sys user md5 filename t redis hknown hselect]
        refine iff_of_false ?_ (by simp)
        rintro ⟨code, w', hnone, _⟩
        cases hnone
    | false =>
        rw [md5Outcome_unknown f sys user md5 filename t redis hknown,
          run_md5_addReference f sys user md5 filename _ hselect, db_begun]
        have hnothing : AllOrNothing user md5 filename t
            (some (md5Failed, f.rolledBack (f.begun t redis))) := by
          rw [allOrNothing_failed, db_rolledBack, durable_rolledBack, durable_begun, db_begun,
            ite_self]
          exact ⟨rfl, rfl⟩
        cases hcounts : countsOf t md5 with
        | nil =>
            exact iff_of_true hnothing ⟨rfl, Or.inl ((countsOf_eq_nil_iff ..).mp hcounts)⟩
        | cons count counts =>
            have hstored : Stored t md5 := by
              by_contra hnot
              rw [(countsOf_eq_nil_iff ..).mpr hnot] at hcounts
              cases hcounts
            cases hupdate : f.update with
            | true => exact iff_of_true hnothing ⟨rfl, Or.inr (Or.inl rfl)⟩
            | false =>
                cases hinsert : f.insert with
                | true =>
                    show AllOrNothing user md5 filename t (some (md5Failed,
                      f.rolledBack (withCount md5 (f.begun t redis) (wrapInt32 (count + 1))))) ↔ _
                    rw [allOrNothing_notInserted hcounts]
                    simp [hstored]
                | false =>
                    show AllOrNothing user md5 filename t (some (md5Ok, f.committed
                      (withUserRow user md5 filename
                        (withCount md5 (f.begun t redis) (wrapInt32 (count + 1)))
                        (sys .currentTime)))) ↔ _
                    rw [allOrNothing_inserted hcounts]
                    simp [hstored]

/-- The user has the file, and the ownership check fails. -/
def heldTables : Tables :=
  { Tables.empty with
    fileInfo := [⟨CString.lit "m", CString.empty, CString.empty, 1, CString.empty, 1⟩]
    userFileList :=
      [newUserFile (CString.lit "u") (CString.lit "m") CString.empty (CString.lit "a")] }

def recordFails : Md5Failures := ⟨false, true, false, false, false, false, false⟩

/-- It gets a second row and the answer 0. -/
theorem md5Outcome_recordFails :
    ¬ ∀ (f : Md5Failures) (sys : (c : SysCall) → c.Ret) (t : Tables) (redis : Redis.Keyspace)
        (user md5 filename : CString),
      AllOrNothing user md5 filename t (md5Outcome f sys t redis user md5 filename) := by
  intro hclaim
  obtain ⟨code, w', houtcome, hresult⟩ := hclaim recordFails sampleSys heldTables ∅
    (CString.lit "u") (CString.lit "m") (CString.lit "a")
  have hcode : (md5Outcome recordFails sampleSys heldTables ∅ (CString.lit "u") (CString.lit "m")
      (CString.lit "a")).map (·.1) = some md5Ok := by decide
  rw [houtcome] at hcode
  rcases hresult with ⟨_, hnew, _⟩ | ⟨hne, _⟩
  · exact hnew (by decide)
  · exact hne (Option.some.inj hcode)

end Files
end TcMuzi
