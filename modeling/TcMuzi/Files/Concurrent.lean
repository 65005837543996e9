import TcMuzi.Files.RefCount
import TcMuzi.Api.Uses
import TcMuzi.Lib.Interleaving

/-!
# Concurrent saves and deletes of one file

Any number of `handleSaveFile` and `handleDeleteFile` requests on one md5 interleave their
commands, every command succeeding.  Both write the count they have read, changed by one,
outside any transaction.

* `Phase` is the automaton of one request: what it has done to the count and to its user's
  row.
* `Tallied` is the invariant: the count is the number of rows, of saves that have counted a
  row they did not insert yet, and of deletes that have not yet counted the row they took.
* `Current` is the condition under which a step keeps it: a request writes a count, drops
  the file or inserts a row only while what it has read is still so.
-/

namespace TcMuzi
namespace Files

open Base Server Redis Api Mysql Lib

/-! ## The requests -/

inductive FileOp
  | save (user fileName : CString)
  | delete (user fileName : CString)
deriving DecidableEq

def FileOp.prog (md5 : CString) : FileOp → Handler Int
  | .save user fileName => handleSaveFile user md5 fileName
  | .delete user fileName => handleDeleteFile user md5 fileName

/-- What a request has done. -/
inductive Phase
  | before
  -- a delete has begun
  | holding
  -- a save has counted its row and not inserted it
  | counted
  -- a delete has deleted its row and not counted it
  | deleted
  | after
deriving DecidableEq

/-- Nothing is half done. -/
def Phase.Settled (q : Phase) : Prop := q ≠ .counted ∧ q ≠ .deleted

def FileOp.started : FileOp → Phase
  | .save _ _ => .before
  | .delete _ _ => .holding

/-- The writes a request may send in a phase. -/
def mayUpdate (md5 : CString) : FileOp → Phase → Update → Prop
  | .save _ _, q, .setFileCount m _ => q = .before ∧ m = md5
  | .save user fileName, q, .insertUserFile row => q = .counted ∧ row.key = (user, md5, fileName)
  | .delete _ _, _, .deleteShareFile _ _ _ => True
  | .delete user fileName, q, .deleteUserFile u m f => q = .holding ∧ (u, m, f) = (user, md5, fileName)
  | .delete _ _, q, .setFileCount m _ => q = .deleted ∧ m = md5
  | .delete _ _, q, .deleteFileInfo m => q = .after ∧ m = md5
  | _, _, _ => False

/-- A save whose write affects no row stops; all other writes affect a row. -/
def updateStep : FileOp → Update → Phase → Option Nat → Phase → Prop
  | .save _ _, .setFileCount _ _, q, r, q' =>
      (r = some 0 ∧ q' = q) ∨ ((∃ n, r = some (n + 1)) ∧ q' = .counted)
  | .delete _ _, .setFileCount _ _, _, r, q' => (∃ n, r = some (n + 1)) ∧ q' = .after
  | _, .insertUserFile _, _, r, q' => r.isSome ∧ q' = .after
  | _, .deleteUserFile _ _ _, _, r, q' => r.isSome ∧ q' = .deleted
  | _, _, q, _, q' => q' = q

/-- A delete that has taken its row finds a positive count. -/
def phaseStep (md5 : CString) (op : FileOp) : (c : Server.Command) → Phase → c.Reply → Phase → Prop
  | .getDBConn _, _, _, q' => q' = op.started
  | .update u, q, r, q' => updateStep op u q r q'
  | .query (.fileCount m _), q, r, q' =>
      q' = q ∧ (q = .deleted → m = md5 → ∃ count counts, r = some (count :: counts) ∧ 0 < count)
  | _, q, _, q' => q' = q

def maySend (md5 : CString) (op : FileOp) : Phase → Server.Command → Prop
  | q, .getDBConn _ => q = .before
  | q, .update u => mayUpdate md5 op q u
  | _, .execute _ => False
  | _, .startTransaction => False
  | _, .commit => False
  | _, .rollback => False
  | _, _ => True

def phases (md5 : CString) (op : FileOp) : Sem Server.Command Command.Reply Phase where
  step := phaseStep md5 op
  safe := maySend md5 op

/-! ## The handlers follow the automaton -/

/-- Commands that leave the phase alone. -/
def Quiet : Server.Command → Prop
  | .query (.fileCount _ _) => False
  | .query _ => True
  | .redis _ => True
  | .sys _ => True
  | .getCacheConn => True
  | .relCacheConn => True
  | .relDBConn _ => True
  | _ => False

section Phases

variable {md5 : CString} {op : FileOp} {q : Phase} {α : Type}

theorem wp_quiet {p : Handler α} (hp : Uses Quiet p) {Q : α → Phase → Prop} (hQ : ∀ a, Q a q) :
    wp (phases md5 op) p Q q := by
  have hkeep : ∀ c q' r q'', Quiet c → q' = q → phaseStep md5 op c q' r q'' → q'' = q := by
    rintro c q' r q'' hc rfl hstep
    cases c with
    | query query =>
        cases query with
        | fileCount m forUpdate => exact absurd hc id
        | _ => exact hstep
    | getDBConn pool => exact absurd hc id
    | update u => exact absurd hc id
    | _ => exact hstep
  have hsafe : ∀ c q', Quiet c → q' = q → maySend md5 op q' c := by
    intro c q' hc _
    cases c with
    | getDBConn pool => exact absurd hc id
    | update u => exact absurd hc id
    | execute u => exact absurd hc id
    | startTransaction => exact absurd hc id
    | commit => exact absurd hc id
    | rollback => exact absurd hc id
    | _ => trivial
  have hwp := wp_of_uses (S := phases md5 op) (I := (· = q)) hsafe hkeep (fun _ _ => trivial) hp rfl
  refine wp_mono hwp ?_
  rintro a _ rfl
  exact hQ a

theorem wp_quiet_bind {β : Type} {p : Handler α} (hp : Uses Quiet p) {k : α → Handler β}
    {Q : β → Phase → Prop} (hk : ∀ a, wp (phases md5 op) (k a) Q q) :
    wp (phases md5 op) (p >>= k) Q q := by
  rw [wp_bind]
  exact wp_quiet hp hk

theorem wp_phases_withDBConn {pool : DBInstance} {body : Ptr → Handler α} {Q : α → Phase → Prop}
    (h : ∀ ptr, wp (phases md5 op) (body ptr) Q op.started) :
    wp (phases md5 op) (withDBConn pool body) Q .before := by
  refine ⟨rfl, ?_⟩
  rintro ptr _ rfl
  show wp (phases md5 op) (body ptr >>= _) Q _
  rw [wp_bind]
  refine wp_mono (h ptr) fun a q hQ => ?_
  cases ptr with
  | null => exact hQ
  | conn =>
      have hrel : Uses Quiet (relDBConn pool) := ⟨trivial, fun _ => trivial⟩
      exact wp_quiet_bind hrel fun _ => hQ

theorem wp_phases_withCacheConn {body : Ptr → Handler α} {Q : α → Phase → Prop}
    (h : ∀ ptr, wp (phases md5 op) (body ptr) Q q) :
    wp (phases md5 op) (withCacheConn body) Q q := by
  have hget : Uses Quiet getCacheConn := ⟨trivial, fun _ => trivial⟩
  refine wp_quiet_bind hget fun ptr => ?_
  rw [wp_bind]
  refine wp_mono (h ptr) fun a q hQ => ?_
  cases ptr with
  | null => exact hQ
  | conn =>
      have hrel : Uses Quiet relCacheConn := ⟨trivial, fun _ => trivial⟩
      exact wp_quiet_bind hrel fun _ => hQ

theorem wp_phases_executeUpdate {ptr : Ptr} {u : Update} {careAffectedRows : Bool}
    {Q : Bool → Phase → Prop} (hmay : mayUpdate md5 op q u)
    (h : ∀ r q', updateStep op u q r q' →
      Q (r.elim false fun n => decide (0 < n) || !careAffectedRows) q') :
    wp (phases md5 op) (executeUpdate ptr u careAffectedRows) Q q := by
  cases ptr with
  | null => trivial
  | conn =>
      refine ⟨hmay, fun r q' hstep => ?_⟩
      have hQ := h r q' hstep
      cases r with
      | none => exact hQ
      | some n => exact hQ

theorem wp_phases_executeCreate {ptr : Ptr} {u : Update} {Q : Bool → Phase → Prop}
    (hmay : mayUpdate md5 op q u) (h : ∀ r q', updateStep op u q r q' → Q r.isSome q') :
    wp (phases md5 op) (executeCreate ptr u) Q q := by
  cases ptr with
  | null => trivial
  | conn => exact ⟨hmay, fun r q' hstep => h r q' hstep⟩

theorem wp_phases_getResultOneCount {ptr : Ptr} {forUpdate : Bool} {Q : Int × Int → Phase → Prop}
    (h : ∀ ret count, (q = .deleted → ret = 0 ∧ 0 < count) → Q (ret, count) q) :
    wp (phases md5 op) (getResultOneCount ptr md5 forUpdate 0) Q q := by
  cases ptr with
  | null => trivial
  | conn =>
      refine ⟨trivial, ?_⟩
      rintro r _ ⟨rfl, hpositive⟩
      match r with
      | none => trivial
      | some [] =>
          refine h 1 0 fun hq => ?_
          obtain ⟨count, counts, hr, _⟩ := hpositive hq rfl
          cases hr
      | some (count :: counts) =>
          refine h 0 count fun hq => ⟨rfl, ?_⟩
          obtain ⟨count', counts', hr, hcount⟩ := hpositive hq rfl
          cases hr
          exact hcount

theorem quiet_redis (c : Redis.Command) : Quiet (.redis c) := trivial

theorem uses_quiet_record (ptr : Ptr) (user fileName : CString) (forUpdate : Bool) :
    Uses Quiet (checkwhetherHaveRecord ptr (.userFile user md5 fileName forUpdate)) := by
  refine uses_bind (uses_onConn ⟨trivial, fun _ => trivial⟩) fun resultSet => ?_
  split <;> trivial

theorem uses_quiet_sharedState (ptr cacheConn : Ptr) (user fileName : CString) :
    Uses Quiet (sharedState ptr cacheConn user md5 fileName) := by
  refine uses_bind (uses_zsetExist (quiet_redis _)) fun _ => uses_ite trivial (uses_ite ?_ trivial)
  refine uses_bind (uses_bind (uses_onConn ⟨trivial, fun _ => trivial⟩) fun resultSet => ?_) ?_
  · split <;> trivial
  · rintro ⟨ret, sharedStatus⟩
    trivial

/-! ### Saving -/

theorem wp_phases_saveReference (ptr : Ptr) (user fileName : CString) :
    wp (phases md5 (.save user fileName)) (saveReference ptr user md5 fileName)
      (fun _ q => q.Settled) .before := by
  rw [saveReference, wp_bind]
  refine wp_phases_getResultOneCount fun ret count _ => ?_
  show wp _ (if ret ≠ 0 then _ else _) _ _
  rw [wp_ite]
  refine ⟨fun _ => by simp [Phase.Settled], fun _ => ?_⟩
  rw [wp_bind]
  refine wp_phases_executeUpdate ⟨rfl, rfl⟩ fun r q hstep => ?_
  rcases hstep with ⟨rfl, rfl⟩ | ⟨⟨n, rfl⟩, rfl⟩
  · simp [Phase.Settled]
  · rw [if_pos (by simp)]
    have htime : Uses Quiet currentTime := ⟨trivial, fun _ => trivial⟩
    refine wp_quiet_bind htime fun timeStr => ?_
    rw [wp_bind]
    refine wp_phases_executeCreate ⟨rfl, rfl⟩ fun r q hstep => ?_
    obtain ⟨_, rfl⟩ := hstep
    simp [Phase.Settled]

theorem wp_phases_handleSaveFile (user fileName : CString) :
    wp (phases md5 (.save user fileName)) (handleSaveFile user md5 fileName)
      (fun _ q => q.Settled) .before := by
  refine wp_phases_withDBConn fun ptr => wp_phases_withCacheConn fun cacheConn => ?_
  refine wp_quiet_bind (uses_quiet_record ptr user fileName false) fun record => ?_
  rw [wp_ite, wp_ite]
  refine ⟨fun _ => by simp [FileOp.started, Phase.Settled], fun _ => ⟨fun _ => by simp [FileOp.started, Phase.Settled], fun _ => ?_⟩⟩
  rw [wp_bind]
  refine wp_mono (wp_phases_saveReference ptr user fileName) fun saved q hq => ?_
  rw [wp_ite]
  refine ⟨fun _ => hq, fun _ => ?_⟩
  exact wp_quiet_bind (uses_cacheIncrCount fun c _ => quiet_redis c) fun _ => hq

/-! ### Deleting -/

theorem wp_phases_removeIfShared (ptr cacheConn : Ptr) (user fileName : CString) (isShared : Int)
    (redisHasRecord : Bool) {Q : Int → Phase → Prop} (hQ : ∀ ret, Q ret q) :
    wp (phases md5 (.delete user fileName))
      (removeIfShared ptr cacheConn user md5 fileName isShared redisHasRecord) Q q := by
  rw [removeIfShared, wp_ite]
  refine ⟨fun _ => ?_, fun _ => hQ _⟩
  rw [removeShare, wp_bind]
  refine wp_phases_executeCreate trivial fun r q' hstep => ?_
  obtain rfl : q' = q := hstep
  rw [wp_ite]
  refine ⟨fun _ => ?_, fun _ => hQ _⟩
  refine wp_quiet_bind (uses_cacheDecrCount fun c _ => quiet_redis c) fun ret => ?_
  rw [wp_ite, wp_ite]
  refine ⟨fun _ => hQ _, fun _ => ⟨fun _ => ?_, fun _ => hQ _⟩⟩
  refine wp_quiet_bind (uses_zsetWrite (quiet_redis _)) fun _ => ?_
  exact wp_quiet_bind (uses_replyInteger (quiet_redis _)) fun _ => hQ _

theorem wp_phases_removeUserFile (ptr cacheConn : Ptr) (user fileName : CString) :
    wp (phases md5 (.delete user fileName)) (removeUserFile ptr cacheConn user md5 fileName)
      (fun ret q => (ret = 0 ∧ q = .deleted) ∨ (ret ≠ 0 ∧ q = .holding)) .holding := by
  refine wp_quiet_bind (uses_cacheDecrCount fun c _ => quiet_redis c) fun ret => ?_
  rw [wp_ite]
  refine ⟨fun _ => by simp, fun _ => ?_⟩
  rw [wp_bind]
  refine wp_phases_executeCreate ⟨rfl, rfl⟩ fun r q hstep => ?_
  obtain ⟨hsome, rfl⟩ := hstep
  simp [hsome]

theorem wp_phases_removeFile (ptr : Ptr) (user fileName : CString) :
    wp (phases md5 (.delete user fileName)) (removeFile ptr md5) (fun _ q => q = .after) .after := by
  have hquery : Uses Quiet (executeQuery ptr (.fileId md5)) := by
    refine uses_onConn ⟨trivial, fun _ => trivial⟩
  refine wp_quiet_bind hquery fun resultSet => ?_
  cases resultSet with
  | none => trivial
  | some rows =>
      rw [wp_bind]
      refine wp_phases_executeCreate ⟨rfl, rfl⟩ fun r q hstep => ?_
      obtain rfl : q = .after := hstep
      have hremove : Uses Quiet (removeFileFromFastDfs (rows.headD CString.empty)) :=
        ⟨trivial, fun _ => trivial⟩
      exact wp_quiet_bind hremove fun _ => rfl

/-- A delete that has taken its row counts it. -/
theorem wp_phases_releaseFile (ptr : Ptr) (user fileName : CString) :
    wp (phases md5 (.delete user fileName)) (releaseFile ptr md5) (fun _ q => q = .after)
      .deleted := by
  rw [releaseFile, wp_bind]
  refine wp_phases_getResultOneCount fun ret count hread => ?_
  obtain ⟨rfl, hcount⟩ := hread rfl
  show wp _ (if (0 : Int) ≠ 0 then _ else _) _ _
  rw [if_neg (by decide), if_pos hcount, wp_bind]
  refine wp_phases_executeUpdate ⟨rfl, rfl⟩ fun r q hstep => ?_
  obtain ⟨⟨n, rfl⟩, rfl⟩ := hstep
  rw [if_pos (by simp), wp_ite]
  exact ⟨fun _ => wp_phases_removeFile ptr user fileName, fun _ => rfl⟩

theorem wp_phases_handleDeleteFile (user fileName : CString) :
    wp (phases md5 (.delete user fileName)) (handleDeleteFile user md5 fileName)
      (fun _ q => q.Settled) .before := by
  refine wp_phases_withDBConn fun ptr => wp_phases_withCacheConn fun cacheConn => ?_
  refine wp_quiet_bind (uses_quiet_sharedState ptr cacheConn user fileName) fun shared => ?_
  cases shared with
  | none => simp [FileOp.started, Phase.Settled]
  | some shared =>
      obtain ⟨isShared, redisHasRecord⟩ := shared
      rw [wp_bind]
      refine wp_phases_removeIfShared _ _ _ _ _ _ fun removed => ?_
      rw [wp_ite]
      refine ⟨fun _ => by simp [FileOp.started, Phase.Settled], fun _ => ?_⟩
      rw [wp_bind]
      refine wp_mono (wp_phases_removeUserFile ptr cacheConn user fileName) fun dropped q hq => ?_
      rw [wp_ite]
      rcases hq with ⟨rfl, rfl⟩ | ⟨hne, rfl⟩
      · refine ⟨fun h => absurd rfl h, fun _ => ?_⟩
        rw [wp_bind]
        refine wp_mono (wp_phases_releaseFile ptr user fileName) ?_
        rintro released _ rfl
        simp [Phase.Settled]
      · exact ⟨fun _ => by simp [Phase.Settled], fun h => absurd hne h⟩

/-- A request that has completed leaves nothing half done. -/
theorem wp_phases_prog (op : FileOp) :
    wp (phases md5 op) (op.prog md5) (fun _ q => q.Settled) .before := by
  cases op with
  | save user fileName => exact wp_phases_handleSaveFile user fileName
  | delete user fileName => exact wp_phases_handleDeleteFile user fileName

end Phases

/-! ## The interleavings -/

/-- A delete starts while its user holds the file. -/
def StartsHeld (md5 : CString) : FileOp → Server.Command → World → Prop
  | .delete user fileName, .getDBConn _, w => Holds w.db user md5 fileName
  | _, _, _ => True

/-- A request writes only while what it has read is still so: the count it changes by one,
the count 0 at which it drops the file, the missing row that it inserts.  A save whose
write changes nothing stops there. -/
def Current : FileOp → Server.Command → World → Prop
  | .save _ _, .update (.setFileCount m n), w =>
      ∀ count ∈ countsOf w.db m, n = count + 1 ∨ n = count
  | .save _ _, .update (.insertUserFile row), w => row.key ∉ w.db.userFileList.map UserFile.key
  | .delete _ _, .update (.setFileCount m n), w => ∀ count ∈ countsOf w.db m, n = count - 1
  | .delete _ _, .update (.deleteFileInfo m), w => ∀ count ∈ countsOf w.db m, count = 0
  | _, _, _ => True

/-- The requests of the threads, each command meeting `cond` where it is issued. -/
def fileSystem {ι : Type} (md5 : CString) (ops : ι → FileOp)
    (cond : FileOp → Server.Command → World → Prop) :
    System ι Server.Command Command.Reply World where
  step i c w r w' := okStep c w r w' ∧ StartsHeld md5 (ops i) c w ∧ cond (ops i) c w
  pause _ _ _ _ := False
  fault _ _ := False
  env _ _ := False

abbrev FileConfig (ι : Type) := Config ι Server.Command Command.Reply Int World

/-- One row of the file with the right count, no repeated row of a user, and no two deletes
of one row. -/
structure OpsStart {ι : Type} (md5 : CString) (ops : ι → FileOp) (cfg : FileConfig ι) : Prop where
  prog : ∀ i, cfg.prog i = (ops i).prog md5
  distinct : ∀ i j user fileName, ops i = .delete user fileName → ops j = .delete user fileName →
    i = j
  nodup : (cfg.shared.db.userFileList.map UserFile.key).Nodup
  counts : countsOf cfg.shared.db md5 = [(references cfg.shared.db md5 : Int)]

/-- The states of the interleavings. -/
def OpsReachable {ι : Type} [DecidableEq ι] (md5 : CString) (ops : ι → FileOp)
    (cond : FileOp → Server.Command → World → Prop) (cfg : FileConfig ι) : Prop :=
  ∃ init, OpsStart md5 ops init ∧ Reachable (fileSystem md5 ops cond) init cfg

/-- What is wanted in the end: the count is the number of rows, or there is neither the
file's row nor a user's. -/
structure Counted (md5 : CString) (t : Tables) : Prop where
  nodup : (t.userFileList.map UserFile.key).Nodup
  count : countsOf t md5 = [(references t md5 : Int)] ∨ (¬ Stored t md5 ∧ references t md5 = 0)

/-! ## The statements -/

/-- Writing a count replaces the counts of the file's rows. -/
theorem countsOf_setCount {t t' : Tables} {md5 : CString} {n : Int}
    (h : t'.fileInfo = setCount md5 n t.fileInfo) :
    countsOf t' md5 = (countsOf t md5).map fun _ => n := by
  unfold countsOf
  rw [h]
  induction t.fileInfo with
  | nil => rfl
  | cons row rows ih =>
      simp only [setCount, Table.setWhere, List.map_cons, List.filter_cons] at ih ⊢
      by_cases hfile : isFile md5 row
      · have hset : isFile md5 { row with count := n } = true := hfile
        simp [hfile, hset, ih]
      · simp [hfile, ih]

theorem countsOf_deleteFile {t t' : Tables} {md5 : CString}
    (h : t'.fileInfo = Table.deleteWhere (isFile md5) t.fileInfo) : countsOf t' md5 = [] := by
  rw [countsOf_eq_nil_iff, Stored, h, countP_deleteFile, if_pos rfl]
  exact Nat.lt_irrefl 0

/-- A new count affects the rows that carry another one. -/
theorem changed_pos_iff (t : Tables) (md5 : CString) (n : Int) :
    0 < Table.changed (isFile md5) (fun row => { row with count := n }) t.fileInfo ↔
      ∃ count ∈ countsOf t md5, n ≠ count := by
  rw [Table.changed, List.countP_pos_iff]
  constructor
  · rintro ⟨row, hrow, hchanged⟩
    rw [Bool.and_eq_true, decide_eq_true_eq] at hchanged
    refine ⟨row.count, List.mem_map.mpr ⟨row, List.mem_filter.mpr ⟨hrow, hchanged.1⟩, rfl⟩, ?_⟩
    rintro rfl
    exact hchanged.2 rfl
  · rintro ⟨count, hcount, hne⟩
    obtain ⟨row, hrow, rfl⟩ := List.mem_map.mp hcount
    obtain ⟨hrow, hfile⟩ := List.mem_filter.mp hrow
    refine ⟨row, hrow, ?_⟩
    rw [Bool.and_eq_true, decide_eq_true_eq]
    exact ⟨hfile, fun hsame => hne (congrArg FileInfo.count hsame)⟩

theorem references_insert {t t' : Tables} {row : UserFile}
    (h : t'.userFileList = Table.insertRow row t.userFileList) :
    references t' row.md5 = references t row.md5 + 1 := by
  rw [references, h, Table.countP_insertRow]
  simp [references]

/-! ## The invariant -/

section Invariant

variable {ι : Type} [Fintype ι]

/-- The rows, and the requests that have changed only one of the row and the count. -/
def tally (md5 : CString) (t : Tables) (q : ι → Phase) : Nat :=
  references t md5 + threadsIn q .counted + threadsIn q .deleted

structure Tallied (md5 : CString) (ops : ι → FileOp) (w : World) (q : ι → Phase) : Prop where
  nodup : (w.db.userFileList.map UserFile.key).Nodup
  held : ∀ i user fileName, ops i = .delete user fileName → q i = .holding →
    Holds w.db user md5 fileName
  count : (countsOf w.db md5 = [] ∧ tally md5 w.db q = 0) ∨
    countsOf w.db md5 = [(tally md5 w.db q : Int)]

variable {md5 : CString} {ops : ι → FileOp} {w w' : World} {q : ι → Phase} {i : ι}

/-- A command that leaves both tables alone. -/
theorem Tallied.congr (h : Tallied md5 ops w q) (hfiles : w'.db.fileInfo = w.db.fileInfo)
    (husers : w'.db.userFileList = w.db.userFileList) : Tallied md5 ops w' q := by
  have hcounts : countsOf w'.db md5 = countsOf w.db md5 := by rw [countsOf, hfiles, countsOf]
  have htally : tally md5 w'.db q = tally md5 w.db q := by
    rw [tally, references, husers, tally, references]
  refine ⟨by rw [husers]; exact h.nodup, fun j user fileName hop hq => ?_, ?_⟩
  · rw [Holds, husers]
    exact h.held j user fileName hop hq
  · rw [hcounts, htally]
    exact h.count

/-- While the tally is positive the file has its row. -/
theorem Tallied.counts_of_pos (h : Tallied md5 ops w q) (hpos : 0 < tally md5 w.db q) :
    countsOf w.db md5 = [(tally md5 w.db q : Int)] := by
  rcases h.count with ⟨_, hzero⟩ | hcounts
  · omega
  · exact hcounts

/-- The file goes when its count is 0. -/
theorem Tallied.dropFile (h : Tallied md5 ops w q)
    (hzero : ∀ count ∈ countsOf w.db md5, count = 0)
    (hfiles : w'.db.fileInfo = Table.deleteWhere (isFile md5) w.db.fileInfo)
    (husers : w'.db.userFileList = w.db.userFileList) : Tallied md5 ops w' q := by
  have htally : tally md5 w'.db q = tally md5 w.db q := by
    rw [tally, references, husers, tally, references]
  refine ⟨by rw [husers]; exact h.nodup, fun j user fileName hop hj => ?_, Or.inl ⟨?_, ?_⟩⟩
  · rw [Holds, husers]
    exact h.held j user fileName hop hj
  · exact countsOf_deleteFile hfiles
  · rw [htally]
    rcases h.count with ⟨_, hnone⟩ | hcounts
    · exact hnone
    · have hcount := hzero (tally md5 w.db q) (by simp [hcounts])
      omega

/-- A count that is written changes nothing, or it differs from the tally, which the file's
row carries. -/
theorem Tallied.writes (h : Tallied md5 ops w q) (n : Int) :
    (Table.changed (isFile md5) (fun row => { row with count := n }) w.db.fileInfo = 0 ∧
      setCount md5 n w.db.fileInfo = w.db.fileInfo) ∨
    ((∃ k, Table.changed (isFile md5) (fun row => { row with count := n }) w.db.fileInfo = k + 1) ∧
      countsOf w.db md5 = [(tally md5 w.db q : Int)] ∧ n ≠ tally md5 w.db q) := by
  rcases Nat.eq_zero_or_pos
    (Table.changed (isFile md5) (fun row => { row with count := n }) w.db.fileInfo) with hzero | hpos
  · exact Or.inl ⟨hzero, Table.setWhere_of_changed_eq_zero hzero⟩
  · obtain ⟨count, hcount, hne⟩ := (changed_pos_iff ..).mp hpos
    refine Or.inr ⟨⟨_, (Nat.succ_pred_eq_of_pos hpos).symm⟩, ?_⟩
    rcases h.count with ⟨hcounts, _⟩ | hcounts
    · simp [hcounts] at hcount
    · rw [hcounts, List.mem_singleton] at hcount
      exact ⟨hcounts, hcount ▸ hne⟩

variable [DecidableEq ι]

/-- A request that moves between phases in which nothing is half done. -/
theorem tally_of_settled {t : Tables} {p : Phase} (hq : (q i).Settled) (hp : p.Settled) :
    tally md5 t (Function.update q i p) = tally md5 t q := by
  have hcounted := threadsIn_update q i p .counted
  have hdeleted := threadsIn_update q i p .deleted
  rw [if_neg hq.1, if_neg hp.1] at hcounted
  rw [if_neg hq.2, if_neg hp.2] at hdeleted
  unfold tally
  omega

/-- A delete begins while its user holds the file. -/
theorem Tallied.begins (h : Tallied md5 ops w q) (hq : q i = .before)
    (hheld : ∀ user fileName, ops i = .delete user fileName → Holds w.db user md5 fileName) :
    Tallied md5 ops w (Function.update q i (ops i).started) := by
  have hstarted : (ops i).started.Settled := by
    cases ops i <;> simp [FileOp.started, Phase.Settled]
  have hbefore : (q i).Settled := by
    rw [hq]
    simp [Phase.Settled]
  have htally : tally md5 w.db (Function.update q i (ops i).started) = tally md5 w.db q :=
    tally_of_settled hbefore hstarted
  refine ⟨h.nodup, fun j user fileName hop hj => ?_, ?_⟩
  · by_cases hji : j = i
    · subst hji
      exact hheld user fileName hop
    · rw [Function.update_of_ne hji] at hj
      exact h.held j user fileName hop hj
  · rw [htally]
    exact h.count

/-- A request holds its row no longer than before. -/
theorem Tallied.held_update (h : Tallied md5 ops w q) {p : Phase} (hp : p ≠ .holding) {j : ι}
    {user fileName : CString} (hop : ops j = .delete user fileName)
    (hj : Function.update q i p j = .holding) : j ≠ i ∧ Holds w.db user md5 fileName := by
  by_cases hji : j = i
  · subst hji
    rw [Function.update_self] at hj
    exact absurd hj hp
  · rw [Function.update_of_ne hji] at hj
    exact ⟨hji, h.held j user fileName hop hj⟩

/-- A count is written that was read from the row as it is. -/
theorem Tallied.setCount (h : Tallied md5 ops w q) {n : Int} {p : Phase} (hp : p ≠ .holding)
    (hfiles : w'.db.fileInfo = setCount md5 n w.db.fileInfo)
    (husers : w'.db.userFileList = w.db.userFileList)
    (hstored : countsOf w.db md5 = [(tally md5 w.db q : Int)])
    (hn : n = tally md5 w.db (Function.update q i p)) :
    Tallied md5 ops w' (Function.update q i p) := by
  have htally : tally md5 w'.db (Function.update q i p) = tally md5 w.db (Function.update q i p) := by
    rw [tally, references, husers, tally, references]
  refine ⟨by rw [husers]; exact h.nodup, fun j user fileName hop hj => ?_, Or.inr ?_⟩
  · rw [Holds, husers]
    exact (h.held_update hp hop hj).2
  · rw [countsOf_setCount hfiles, hstored, htally, hn]
    rfl

/-- A save inserts the row it has counted. -/
theorem Tallied.insert (h : Tallied md5 ops w q) {row : UserFile} (hq : q i = .counted)
    (hmd5 : row.md5 = md5) (hfresh : row.key ∉ w.db.userFileList.map UserFile.key)
    (hfiles : w'.db.fileInfo = w.db.fileInfo)
    (husers : w'.db.userFileList = Table.insertRow row w.db.userFileList) :
    Tallied md5 ops w' (Function.update q i .after) := by
  have htally : tally md5 w'.db (Function.update q i .after) = tally md5 w.db q := by
    have hcounted := threadsIn_update q i .after .counted
    have hdeleted := threadsIn_update q i .after .deleted
    have hrefs := references_insert husers
    rw [if_pos hq, if_neg (by simp)] at hcounted
    rw [if_neg (by simp [hq]), if_neg (by simp)] at hdeleted
    rw [hmd5] at hrefs
    unfold tally
    omega
  have hcounts : countsOf w'.db md5 = countsOf w.db md5 := by rw [countsOf, hfiles, countsOf]
  refine ⟨?_, fun j user fileName hop hj => ?_, ?_⟩
  · rw [husers]
    exact Table.nodup_insertRow UserFile.key h.nodup hfresh
  · have hold : (user, md5, fileName) ∈ w.db.userFileList.map UserFile.key :=
      (h.held_update (by simp) hop hj).2
    rw [Holds, husers, Table.insertRow, List.map_append]
    exact List.mem_append_left _ hold
  · rw [hcounts, htally]
    exact h.count

/-- A delete takes its row. -/
theorem Tallied.take (h : Tallied md5 ops w q) {user fileName : CString}
    (hop : ops i = .delete user fileName) (hq : q i = .holding)
    (hdistinct : ∀ i j user fileName, ops i = .delete user fileName →
      ops j = .delete user fileName → i = j)
    (hfiles : w'.db.fileInfo = w.db.fileInfo)
    (husers : w'.db.userFileList =
      Table.deleteWhere (isUserFile user md5 fileName) w.db.userFileList) :
    Tallied md5 ops w' (Function.update q i .deleted) := by
  have hheld := h.held i user fileName hop hq
  have htally : tally md5 w'.db (Function.update q i .deleted) = tally md5 w.db q := by
    have hcounted := threadsIn_update q i .deleted .counted
    have hdeleted := threadsIn_update q i .deleted .deleted
    have hrefs := references_delete husers h.nodup hheld md5
    rw [if_neg (by simp [hq]), if_neg (by simp)] at hcounted
    rw [if_neg (by simp [hq]), if_pos rfl] at hdeleted
    rw [if_pos rfl] at hrefs
    unfold tally
    omega
  have hcounts : countsOf w'.db md5 = countsOf w.db md5 := by rw [countsOf, hfiles, countsOf]
  refine ⟨?_, fun j user' fileName' hop' hj => ?_, ?_⟩
  · rw [husers]
    exact Table.nodup_deleteWhere _ UserFile.key h.nodup
  · obtain ⟨hji, hold⟩ := h.held_update (by simp) hop' hj
    obtain ⟨row, hrow, hkey⟩ := List.mem_map.mp hold
    refine List.mem_map.mpr ⟨row, ?_, hkey⟩
    rw [husers]
    refine (Table.mem_deleteWhere ..).mpr ⟨hrow, fun hrow' => hji ?_⟩
    rw [isUserFile_iff, hkey] at hrow'
    cases hrow'
    exact hdistinct j i user fileName hop' hop
  · rw [hcounts, htally]
    exact h.count

/-! ## One step -/

theorem Tallied.save_update (h : Tallied md5 ops w q) {user fileName : CString} {u : Update}
    (hmay : mayUpdate md5 (.save user fileName) (q i) u)
    (hcurrent : Current (.save user fileName) (.update u) w) {r : Option Nat}
    (hstep : okStep (.update u) w r w') :
    ∃ q', updateStep (.save user fileName) u (q i) r q' ∧
      Tallied md5 ops w' (Function.update q i q') := by
  obtain ⟨n, t, hexec, rfl, rfl⟩ := hstep
  cases u with
  | setFileCount m count =>
      cases hexec
      obtain ⟨hq, rfl⟩ := hmay
      have hread : ∀ c ∈ countsOf w.db m, count = c + 1 ∨ count = c := hcurrent
      rcases h.writes count with ⟨hchanged, hsame⟩ | ⟨⟨k, hchanged⟩, hcounts, hne⟩
      · refine ⟨q i, Or.inl ⟨congrArg some hchanged, rfl⟩, ?_⟩
        rw [Function.update_eq_self]
        exact h.congr hsame rfl
      · refine ⟨.counted, Or.inr ⟨⟨k, congrArg some hchanged⟩, rfl⟩, ?_⟩
        refine h.setCount (by simp) rfl rfl hcounts ?_
        have hcounted := threadsIn_update q i .counted .counted
        have hdeleted := threadsIn_update q i .counted .deleted
        rw [if_neg (by simp [hq]), if_pos rfl] at hcounted
        rw [if_neg (by simp [hq]), if_neg (by simp)] at hdeleted
        have hcount := (hread (tally m w.db q) (by simp [hcounts])).resolve_right hne
        unfold tally at hcount ⊢
        omega
  | insertUserFile row =>
      cases hexec
      obtain ⟨hq, hkey⟩ := hmay
      have hmd5 : row.md5 = md5 := congrArg (fun key : CString × CString × CString => key.2.1) hkey
      exact ⟨.after, ⟨rfl, rfl⟩, h.insert hq hmd5 hcurrent rfl rfl⟩
  | _ => exact absurd hmay id

theorem Tallied.delete_update (h : Tallied md5 ops w q) {user fileName : CString} {u : Update}
    (hdistinct : ∀ i j user fileName, ops i = .delete user fileName →
      ops j = .delete user fileName → i = j)
    (hop : ops i = .delete user fileName) (hmay : mayUpdate md5 (.delete user fileName) (q i) u)
    (hcurrent : Current (.delete user fileName) (.update u) w) {r : Option Nat}
    (hstep : okStep (.update u) w r w') :
    ∃ q', updateStep (.delete user fileName) u (q i) r q' ∧
      Tallied md5 ops w' (Function.update q i q') := by
  obtain ⟨n, t, hexec, rfl, rfl⟩ := hstep
  cases u with
  | setFileCount m count =>
      cases hexec
      obtain ⟨hq, rfl⟩ := hmay
      have hread : ∀ c ∈ countsOf w.db m, count = c - 1 := hcurrent
      have hpos : 0 < tally m w.db q := by
        have := threadsIn_pos hq
        unfold tally
        omega
      have hcount := hread (tally m w.db q) (by simp [h.counts_of_pos hpos])
      rcases h.writes count with ⟨hchanged, _⟩ | ⟨⟨k, hchanged⟩, hcounts, _⟩
      · have haffected := (changed_pos_iff w.db m count).mpr
          ⟨tally m w.db q, by simp [h.counts_of_pos hpos], by omega⟩
        omega
      · refine ⟨.after, ⟨⟨k, congrArg some hchanged⟩, rfl⟩, ?_⟩
        refine h.setCount (by simp) rfl rfl hcounts ?_
        have hcounted := threadsIn_update q i .after .counted
        have hdeleted := threadsIn_update q i .after .deleted
        rw [if_neg (by simp [hq]), if_neg (by simp)] at hcounted
        rw [if_pos hq, if_neg (by simp)] at hdeleted
        unfold tally at hcount ⊢
        omega
  | deleteUserFile u m f =>
      cases hexec
      obtain ⟨hq, hkey⟩ := hmay
      cases hkey
      exact ⟨.deleted, ⟨rfl, rfl⟩, h.take hop hq hdistinct rfl rfl⟩
  | deleteFileInfo m =>
      cases hexec
      obtain ⟨hq, rfl⟩ := hmay
      refine ⟨q i, rfl, ?_⟩
      rw [Function.update_eq_self]
      exact h.dropFile hcurrent rfl rfl
  | deleteShareFile u m f =>
      cases hexec
      refine ⟨q i, rfl, ?_⟩
      rw [Function.update_eq_self]
      exact h.congr rfl rfl
  | _ => exact absurd hmay id

theorem Tallied.step (h : Tallied md5 ops w q)
    (hdistinct : ∀ i j user fileName, ops i = .delete user fileName →
      ops j = .delete user fileName → i = j)
    {c : Server.Command} {r : c.Reply} (hsafe : maySend md5 (ops i) (q i) c)
    (hstep : (fileSystem md5 ops Current).step i c w r w') :
    ∃ q', phaseStep md5 (ops i) c (q i) r q' ∧ Tallied md5 ops w' (Function.update q i q') := by
  obtain ⟨hok, hheld, hcurrent⟩ := hstep
  have hsame : Tallied md5 ops w (Function.update q i (q i)) := by
    rw [Function.update_eq_self]
    exact h
  cases c with
  | getDBConn pool =>
      obtain rfl : w' = w := hok
      refine ⟨_, rfl, h.begins hsafe fun user fileName hop => ?_⟩
      rw [hop] at hheld
      exact hheld
  | update u =>
      cases hop : ops i with
      | save user fileName =>
          rw [hop] at hsafe hcurrent
          exact h.save_update hsafe hcurrent hok
      | delete user fileName =>
          rw [hop] at hsafe hcurrent
          exact h.delete_update hdistinct hop hsafe hcurrent hok
  | query query =>
      obtain ⟨rows, hrows, rfl, rfl⟩ := hok
      cases query with
      | fileCount m forUpdate =>
          -- this call holds the file, so the count that it reads is not 0
          refine ⟨q i, ⟨rfl, fun hq hm => ?_⟩, hsame⟩
          have hpos : 0 < tally md5 w'.db q := by
            have := threadsIn_pos hq
            unfold tally
            omega
          have hread : rows = countsOf w'.db m := (Option.some.inj hrows).symm
          refine ⟨tally md5 w'.db q, [], ?_, Int.natCast_pos.mpr hpos⟩
          rw [hread, hm, h.counts_of_pos hpos]
      | _ => exact ⟨q i, rfl, hsame⟩
  | redis c =>
      obtain ⟨_, _, rfl⟩ := hok
      refine ⟨q i, rfl, ?_⟩
      rw [Function.update_eq_self]
      exact h.congr rfl rfl
  | execute u => exact absurd hsafe id
  | startTransaction => exact absurd hsafe id
  | commit => exact absurd hsafe id
  | rollback => exact absurd hsafe id
  | prepare =>
      obtain ⟨_, rfl⟩ := hok
      exact ⟨q i, rfl, hsame⟩
  | relDBConn pool => obtain rfl : w' = w := hok; exact ⟨q i, rfl, hsame⟩
  | getCacheConn => obtain rfl : w' = w := hok; exact ⟨q i, rfl, hsame⟩
  | relCacheConn => obtain rfl : w' = w := hok; exact ⟨q i, rfl, hsame⟩
  | sys c => obtain rfl : w' = w := hok; exact ⟨q i, rfl, hsame⟩

end Invariant

/-! ## All interleavings -/

section Interleavings

variable {ι : Type} [Fintype ι]

theorem OpsStart.simulates {md5 : CString} {ops : ι → FileOp} {cfg : FileConfig ι}
    (h : OpsStart md5 ops cfg) :
    Simulates (fun i => phases md5 (ops i)) (Tallied md5 ops) (fun _ _ q => q.Settled) cfg
      fun _ => .before := by
  have htally : tally md5 cfg.shared.db (fun _ : ι => Phase.before) =
      references cfg.shared.db md5 := by
    rw [tally, threadsIn_eq_zero (by simp), threadsIn_eq_zero (by simp)]
    rfl
  refine ⟨⟨h.nodup, ?_, Or.inr ?_⟩, fun i => ?_⟩
  · intro i user fileName _ hq
    cases hq
  · rw [htally]
    exact h.counts
  · rw [h.prog i]
    exact wp_phases_prog (ops i)

/-- Once all requests have completed, in any interleaving in which each writes only while
what it has read is still so, the count is right again. -/
theorem opsReachable_counted [DecidableEq ι] (md5 : CString) (ops : ι → FileOp) (cfg : FileConfig ι)
    (h : OpsReachable md5 ops Current cfg) (hdone : ∀ i, cfg.Completed i) :
    Counted md5 cfg.shared.db := by
  obtain ⟨init, hstart, hreach⟩ := h
  have hstep : ∀ i c w r w' (q : ι → Phase), Tallied md5 ops w q → maySend md5 (ops i) (q i) c →
      (fileSystem md5 ops Current).step i c w r w' →
      ∃ q', phaseStep md5 (ops i) c (q i) r q' ∧ Tallied md5 ops w' (Function.update q i q') :=
    fun i c w r w' q hq hsafe hs => hq.step hstart.distinct hsafe hs
  obtain ⟨q, hsim⟩ := reachable_simulates hstep (fun _ _ _ _ _ _ _ h => absurd h id)
    (fun _ _ _ _ _ _ h => absurd h id) (fun _ _ _ _ h => absurd h id) hstart.simulates hreach
  have hsettled : ∀ i, (q i).Settled := by
    intro i
    obtain ⟨a, ha⟩ := hdone i
    exact hsim.post_of_ret ha
  have htally : tally md5 cfg.shared.db q = references cfg.shared.db md5 := by
    rw [tally, threadsIn_eq_zero fun i => (hsettled i).1, threadsIn_eq_zero fun i => (hsettled i).2]
    rfl
  refine ⟨hsim.1.nodup, ?_⟩
  rcases hsim.1.count with ⟨hnone, hzero⟩ | hcounts
  · exact Or.inr ⟨(countsOf_eq_nil_iff ..).mp hnone, by omega⟩
  · rw [htally] at hcounts
    exact Or.inl hcounts

end Interleavings

/-! ## Two requests -/

instance (md5 : CString) (op : FileOp) (c : Server.Command) (w : World) :
    Decidable (StartsHeld md5 op c w) := by
  unfold StartsHeld
  split <;> infer_instance

instance (op : FileOp) (c : Server.Command) (w : World) : Decidable (Current op c w) := by
  unfold Current
  split
  · infer_instance
  · exact inferInstanceAs (Decidable (¬ Holds _ _ _ _))
  · infer_instance
  · infer_instance
  · infer_instance

/-- The machine of the samples, for the commands that meet the condition. -/
def fileReply {ι : Type} (md5 : CString) (ops : ι → FileOp)
    (cond : FileOp → Server.Command → World → Prop) [∀ op c w, Decidable (cond op c w)] (i : ι)
    (c : Server.Command) (w : World) : Option (c.Reply × World) :=
  if StartsHeld md5 (ops i) c w ∧ cond (ops i) c w then okReply sampleSys c w else none

theorem step_of_fileReply {ι : Type} {md5 : CString} {ops : ι → FileOp}
    {cond : FileOp → Server.Command → World → Prop} [∀ op c w, Decidable (cond op c w)] (i : ι)
    (c : Server.Command) (w : World) (r : c.Reply) (w' : World)
    (h : fileReply md5 ops cond i c w = some (r, w')) :
    (fileSystem md5 ops cond).step i c w r w' := by
  unfold fileReply at h
  split at h
  · exact ⟨okStep_of_okReply sampleSys c w r w' h, by assumption⟩
  · cases h

def sampleMd5 : CString := CString.lit "m"

/-- The user `o` has the file. -/
def sampleFile : World where
  db := { Tables.empty with
    fileInfo := [⟨sampleMd5, CString.empty, CString.empty, 1, CString.empty, 1⟩]
    userFileList := [newUserFile (CString.lit "o") sampleMd5 CString.empty (CString.lit "a")] }
  snapshot := none
  redis := ∅

/-- Two requests, named by a Boolean. -/
def sampleConfig (ops : Bool → FileOp) : FileConfig Bool :=
  ⟨sampleFile, fun i => (ops i).prog sampleMd5⟩

def saveAndDelete (i : Bool) : FileOp :=
  if i then .save (CString.lit "u") (CString.lit "a") else .delete (CString.lit "o") (CString.lit "a")

theorem distinct_saveAndDelete (i j : Bool) (user fileName : CString)
    (hi : saveAndDelete i = .delete user fileName) (hj : saveAndDelete j = .delete user fileName) :
    i = j := by
  cases i with
  | true => cases hi
  | false =>
      cases j with
      | true => cases hj
      | false => rfl

/-- The state after the commands of the two requests in the given order. -/
def sampleOrder (ops : Bool → FileOp) (cond : FileOp → Server.Command → World → Prop)
    [∀ op c w, Decidable (cond op c w)] (order : List Bool) : Option (FileConfig Bool) :=
  schedule (fileReply sampleMd5 ops cond) order (sampleConfig ops)

theorem opsReachable_sampleOrder {ops : Bool → FileOp}
    {cond : FileOp → Server.Command → World → Prop} [∀ op c w, Decidable (cond op c w)]
    (hdistinct : ∀ i j user fileName, ops i = .delete user fileName →
      ops j = .delete user fileName → i = j) {order : List Bool} {cfg : FileConfig Bool}
    (h : sampleOrder ops cond order = some cfg) : OpsReachable sampleMd5 ops cond cfg := by
  have hnodup : (sampleFile.db.userFileList.map UserFile.key).Nodup := by decide
  have hcounts : countsOf sampleFile.db sampleMd5 = [(references sampleFile.db sampleMd5 : Int)] := by
    decide
  exact ⟨sampleConfig ops, ⟨fun _ => rfl, hdistinct, hnodup, hcounts⟩,
    reachable_of_schedule step_of_fileReply .refl h⟩

/-- Both requests run in this order; in the end the tables are these. -/
theorem sampleOrder_completed {ops : Bool → FileOp}
    {cond : FileOp → Server.Command → World → Prop} [∀ op c w, Decidable (cond op c w)]
    {order : List Bool}
    (h : ((sampleOrder ops cond order).map fun cfg => isRet (cfg.prog false) && isRet (cfg.prog true))
      = some true) :
    ∃ cfg, sampleOrder ops cond order = some cfg ∧ ∀ i, cfg.Completed i := by
  obtain ⟨cfg, hcfg, hret⟩ := Option.map_eq_some_iff.mp h
  rw [Bool.and_eq_true] at hret
  refine ⟨cfg, hcfg, fun i => completed_of_isRet ?_⟩
  cases i with
  | false => exact hret.1
  | true => exact hret.2

/-- The delete reads the count 1 before the save and writes 0 after it. -/
def lostUpdate : List Bool :=
  List.replicate 8 false ++ List.replicate 10 true ++ List.replicate 6 false

/-- The file goes although the save has inserted a row. -/
theorem opsReachable_lostUpdate :
    ¬ ∀ (ops : Bool → FileOp) cfg, OpsReachable sampleMd5 ops (fun _ _ _ => True) cfg →
      (∀ i, cfg.Completed i) → Counted sampleMd5 cfg.shared.db := by
  intro hclaim
  obtain ⟨cfg, hcfg, hdone⟩ := @sampleOrder_completed saveAndDelete (fun _ _ _ => True) _
    lostUpdate (by decide)
  have hreach := opsReachable_sampleOrder distinct_saveAndDelete hcfg
  have hcounted := hclaim saveAndDelete cfg hreach hdone
  have hbad : (sampleOrder saveAndDelete (fun _ _ _ => True) lostUpdate).map (fun cfg =>
      (countsOf cfg.shared.db sampleMd5, references cfg.shared.db sampleMd5)) = some ([], 1) := by
    decide
  rw [hcfg] at hbad
  obtain ⟨hcounts, hrefs⟩ := Prod.mk.inj (Option.some.inj hbad)
  rcases hcounted.count with h | ⟨_, h⟩
  · rw [hcounts] at h
    cases h
  · rw [hrefs] at h
    cases h

/-- The save completes before the delete. -/
theorem opsReachable_counted_sample :
    ∃ cfg, OpsReachable sampleMd5 saveAndDelete Current cfg ∧ (∀ i, cfg.Completed i) ∧
      Counted sampleMd5 cfg.shared.db := by
  obtain ⟨cfg, hcfg, hdone⟩ := @sampleOrder_completed saveAndDelete Current _
    (List.replicate 10 true ++ List.replicate 11 false) (by decide)
  have hreach := opsReachable_sampleOrder distinct_saveAndDelete hcfg
  exact ⟨cfg, hreach, hdone, opsReachable_counted sampleMd5 saveAndDelete cfg hreach hdone⟩

end Files
end TcMuzi
