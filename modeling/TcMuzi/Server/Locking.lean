import TcMuzi.Lib.Interleaving
import TcMuzi.Lib.Transactions
import TcMuzi.Server.Command

/-!
# Transactions that wait for locks

MySQL as the interleaved handlers of a claim about transactions see it: a locking read
keeps the rows it finds and the gap it searched, and a statement waits for the locks of
other transactions.  A transaction that waits in a circle is rolled back and its statement
reports an error.  Whether a statement may fail otherwise is a parameter.  Redis and the
system answer anything.
-/

namespace TcMuzi
namespace Server

open Base Mysql Lib

/-! ## Locks -/

/-- What a locking statement searches. -/
inductive Resource
  | file (md5 : CString)
  | userFile (key : CString × CString × CString)
  | shareFile (key : CString × CString)
deriving DecidableEq

/-- The rows a search matched, the gap it searched, and a row inserted into it. -/
inductive Lock
  | row (r : Resource)
  | gap (r : Resource)
  | inserted (r : Resource)
deriving DecidableEq

/-- Gap locks do not conflict with each other. -/
def conflict : Lock → Lock → Prop
  | .row r, .row r' => r = r'
  | .gap r, .inserted r' => r = r'
  | .inserted r, .gap r' => r = r'
  | _, _ => False

theorem conflict_symm (l l' : Lock) (h : conflict l l') : conflict l' l := by
  cases l <;> cases l' <;> first | exact absurd h id | exact Eq.symm h

/-- The resource of a `SELECT … FOR UPDATE`. -/
def lockedBy : Query → Option Resource
  | .userFile user md5 fileName true => some (.userFile (user, md5, fileName))
  | .fileCount md5 true => some (.file md5)
  | .shareFilePvForUpdate md5 fileName => some (.shareFile (md5, fileName))
  | _ => none

/-- A locking read waits for rows that another transaction has locked or inserted. -/
def awaitsQuery (q : Query) : List Lock :=
  match lockedBy q with
  | some r => [.row r, .inserted r]
  | none => []

/-- It keeps the gap and the rows that it finds. -/
def takesQuery (q : Query) (found : Bool) : List Lock :=
  match lockedBy q with
  | some r => if found then [.gap r, .row r] else [.gap r]
  | none => []

/-- An `INSERT` waits for the gap, an `UPDATE` or a `DELETE` for the row. -/
def awaitsUpdate : Update → List Lock
  | .setFileCount md5 _ => [.row (.file md5), .inserted (.file md5)]
  | .setShareFilePv md5 fileName _ =>
      [.row (.shareFile (md5, fileName)), .inserted (.shareFile (md5, fileName))]
  | .deleteShareFile _ md5 fileName =>
      [.row (.shareFile (md5, fileName)), .inserted (.shareFile (md5, fileName))]
  | .insertUserFile row => [.gap (.userFile row.key)]
  | _ => []

def takesUpdate : Update → List Lock
  | .setFileCount md5 _ => [.row (.file md5)]
  | .setShareFilePv md5 fileName _ => [.row (.shareFile (md5, fileName))]
  | .deleteShareFile _ md5 fileName => [.row (.shareFile (md5, fileName))]
  | .insertUserFile row => [.inserted (.userFile row.key)]
  | _ => []

theorem awaitsQuery_of_takes {q : Query} {found : Bool} {l l' : Lock}
    (hl : l ∈ takesQuery q found) (hconflict : conflict l l') : l' ∈ awaitsQuery q := by
  unfold takesQuery at hl
  unfold awaitsQuery
  cases hr : lockedBy q with
  | none => simp [hr] at hl
  | some r =>
      have hcases : l = .gap r ∨ l = .row r := by
        cases found <;> simp [hr] at hl <;> simp [hl]
      rcases hcases with rfl | rfl <;> cases l' <;>
        first | exact absurd hconflict id | (obtain rfl : r = _ := hconflict; simp)

theorem awaitsUpdate_of_takes {u : Update} {l l' : Lock} (hl : l ∈ takesUpdate u)
    (hconflict : conflict l l') : l' ∈ awaitsUpdate u := by
  cases u with
  | setFileCount md5 count =>
      obtain rfl : l = .row (.file md5) := by simpa [takesUpdate] using hl
      cases l' with
      | row r => obtain rfl : .file md5 = r := hconflict; simp [awaitsUpdate]
      | gap r => exact absurd hconflict id
      | inserted r => exact absurd hconflict id
  | setShareFilePv md5 fileName pv =>
      obtain rfl : l = .row (.shareFile (md5, fileName)) := by simpa [takesUpdate] using hl
      cases l' with
      | row r => obtain rfl : .shareFile (md5, fileName) = r := hconflict; simp [awaitsUpdate]
      | gap r => exact absurd hconflict id
      | inserted r => exact absurd hconflict id
  | deleteShareFile user md5 fileName =>
      obtain rfl : l = .row (.shareFile (md5, fileName)) := by simpa [takesUpdate] using hl
      cases l' with
      | row r => obtain rfl : .shareFile (md5, fileName) = r := hconflict; simp [awaitsUpdate]
      | gap r => exact absurd hconflict id
      | inserted r => exact absurd hconflict id
  | insertUserFile row =>
      obtain rfl : l = .inserted (.userFile row.key) := by simpa [takesUpdate] using hl
      cases l' with
      | row r => exact absurd hconflict id
      | gap r => obtain rfl : .userFile row.key = r := hconflict; simp [awaitsUpdate]
      | inserted r => exact absurd hconflict id
  | _ => simp [takesUpdate] at hl

/-! ## The server -/

/-- The tables after a write. -/
def applyUpdate (u : Update) (t : Tables) : Tables :=
  match u.exec t with
  | some (_, t') => t'
  | none => t

abbrev DbStore (ι : Type) := Store ι Tables Update Lock

/-- MySQL, and whether the process of the calls has crashed. -/
structure DbServer (ι : Type) where
  store : DbStore ι
  crashed : Bool

abbrev DbConfig (ι : Type) (α : Type) := Config ι Server.Command Command.Reply α (DbServer ι)

section Server

variable {ι : Type} [DecidableEq ι]

/-- The blocked statement of a transaction that waits in a circle. -/
def Victim (s : DbServer ι) (i : ι) (awaits : List Lock) : Prop :=
  s.store.waiting i = some awaits ∧ s.store.Deadlocked i

/-- How a statement ends without a result: as a victim, or for a reason of its own. -/
def refuses (failing : Prop) (i : ι) (awaits : List Lock) (s s' : DbServer ι) : Prop :=
  (Victim s i awaits ∧ s' = { s with store := s.store.rollback i }) ∨
    (failing ∧ s' = { s with store := s.store.wake i })

/-- A statement is executed, or it reports an error. -/
def answers (failing : Prop) (i : ι) :
    (c : Server.Command) → DbServer ι → c.Reply → DbServer ι → Prop
  | .query q, s, r, s' =>
      (¬ s.store.Blocked i (awaitsQuery q) ∧
        ∃ rows, q.exec (s.store.view applyUpdate i) = some rows ∧ r = some rows ∧
          s' = { s with store := s.store.execute applyUpdate i (takesQuery q !rows.isEmpty) [] }) ∨
      (r = none ∧ refuses failing i (awaitsQuery q) s s')
  | .update u, s, r, s' =>
      (¬ s.store.Blocked i (awaitsUpdate u) ∧
        ∃ n t, u.exec (s.store.view applyUpdate i) = some (n, t) ∧ r = some n ∧
          s' = { s with store := s.store.execute applyUpdate i (takesUpdate u) [u] }) ∨
      (r = none ∧ refuses failing i (awaitsUpdate u) s s')
  | .startTransaction, s, r, s' =>
      r = true ∧ s' = { s with store := s.store.start applyUpdate i }
  | .commit, s, r, s' => r = true ∧ s' = { s with store := s.store.commit applyUpdate i }
  | .rollback, s, r, s' => r = true ∧ s' = { s with store := s.store.rollback i }
  | .getDBConn _, s, _, s' => s' = s
  | .relDBConn _, s, _, s' => s' = s
  | .getCacheConn, s, _, s' => s' = s
  | .relCacheConn, s, _, s' => s' = s
  | .redis _, s, _, s' => s' = s
  | .sys _, s, _, s' => s' = s
  | _, _, _, _ => False

/-- A statement that has to wait. -/
def waits (i : ι) : Server.Command → DbServer ι → DbServer ι → Prop
  | .query q, s, s' =>
      s.store.Blocked i (awaitsQuery q) ∧ s' = { s with store := s.store.wait i (awaitsQuery q) }
  | .update u, s, s' =>
      s.store.Blocked i (awaitsUpdate u) ∧ s' = { s with store := s.store.wait i (awaitsUpdate u) }
  | _, _, _ => False

/-- A call that crashes takes the process along, and MySQL rolls its transactions back. -/
def dbSystem (ι : Type) [DecidableEq ι] (failing : Prop) :
    System ι Server.Command Command.Reply (DbServer ι) where
  step i c s r s' := s.crashed = false ∧ answers failing i c s r s'
  pause i c s s' := s.crashed = false ∧ waits i c s s'
  fault s s' := s' = ⟨s.store.abortAll, true⟩
  env _ _ := False

/-- A machine that executes every statement that is not blocked. -/
def dbReply [Fintype ι] (sys : (c : SysCall) → c.Ret) (redis : Redis.Command → RedisResult)
    (i : ι) : (c : Server.Command) → DbServer ι → Option (c.Reply × DbServer ι)
  | .query q, s =>
      if s.crashed ∨ s.store.Blocked i (awaitsQuery q) then none
      else (q.exec (s.store.view applyUpdate i)).map fun rows =>
        (some rows,
          { s with store := s.store.execute applyUpdate i (takesQuery q !rows.isEmpty) [] })
  | .update u, s =>
      if s.crashed ∨ s.store.Blocked i (awaitsUpdate u) then none
      else (u.exec (s.store.view applyUpdate i)).map fun (n, _) =>
        (some n, { s with store := s.store.execute applyUpdate i (takesUpdate u) [u] })
  | .startTransaction, s =>
      if s.crashed then none
      else some (true, { s with store := s.store.start applyUpdate i })
  | .commit, s =>
      if s.crashed then none
      else some (true, { s with store := s.store.commit applyUpdate i })
  | .rollback, s =>
      if s.crashed then none else some (true, { s with store := s.store.rollback i })
  | .getDBConn _, s => if s.crashed then none else some (.conn, s)
  | .relDBConn _, s => if s.crashed then none else some ((), s)
  | .getCacheConn, s => if s.crashed then none else some (.conn, s)
  | .relCacheConn, s => if s.crashed then none else some ((), s)
  | .redis c, s => if s.crashed then none else some (redis c, s)
  | .sys c, s => if s.crashed then none else some (sys c, s)
  | _, _ => none

/-- A statement awaits what conflicts with the locks it takes. -/
theorem compatible_query {store : DbStore ι} {i : ι} {q : Query}
    (h : store.Compatible conflict) (hfree : ¬ store.Blocked i (awaitsQuery q)) (found : Bool)
    (writes : List Update) :
    (store.execute applyUpdate i (takesQuery q found) writes).Compatible conflict :=
  h.execute conflict_symm (fun _ hl _ hconflict => awaitsQuery_of_takes hl hconflict) hfree

theorem compatible_update {store : DbStore ι} {i : ι} {u : Update}
    (h : store.Compatible conflict) (hfree : ¬ store.Blocked i (awaitsUpdate u))
    (writes : List Update) :
    (store.execute applyUpdate i (takesUpdate u) writes).Compatible conflict :=
  h.execute conflict_symm (fun _ hl _ hconflict => awaitsUpdate_of_takes hl hconflict) hfree

theorem step_of_dbReply [Fintype ι] (sys : (c : SysCall) → c.Ret)
    (redis : Redis.Command → RedisResult) (failing : Prop) (i : ι) (c : Server.Command)
    (s : DbServer ι) (r : c.Reply) (s' : DbServer ι)
    (h : dbReply sys redis i c s = some (r, s')) : (dbSystem ι failing).step i c s r s' := by
  obtain ⟨store, crashed⟩ := s
  cases crashed with
  | true => cases c <;> simp [dbReply] at h
  | false =>
      refine ⟨rfl, ?_⟩
      cases c with
      | query q =>
          simp only [dbReply, Bool.false_eq_true, false_or] at h
          split at h
          · cases h
          · obtain ⟨rows, hrows, hreply⟩ := Option.map_eq_some_iff.mp h
            cases hreply
            exact Or.inl ⟨by assumption, rows, hrows, rfl, rfl⟩
      | update u =>
          simp only [dbReply, Bool.false_eq_true, false_or] at h
          split at h
          · cases h
          · obtain ⟨⟨n, t⟩, hexec, hreply⟩ := Option.map_eq_some_iff.mp h
            cases hreply
            exact Or.inl ⟨by assumption, n, t, hexec, rfl, rfl⟩
      | prepare => cases h
      | execute u => cases h
      | startTransaction => cases h; exact ⟨rfl, rfl⟩
      | commit => cases h; exact ⟨rfl, rfl⟩
      | rollback => cases h; exact ⟨rfl, rfl⟩
      | getDBConn pool => cases h; rfl
      | relDBConn pool => cases h; rfl
      | getCacheConn => cases h; rfl
      | relCacheConn => cases h; rfl
      | redis c => cases h; rfl
      | sys c => cases h; rfl

end Server

/-! ## Invariants of interleaved transactions -/

/-- Locks are compatible; while the process runs, every thread's state agrees with its
transaction and the committed tables; `Data` holds of the tables and the threads that have
committed a write, each of them once. -/
structure DbInv {ι Q : Type} [DecidableEq ι]
    (agrees : ι → Tables → Option (Txn Update Lock) → Q → Prop) (committedIn : Q → Prop)
    (Data : Tables → List ι → Prop) (s : DbServer ι) (q : ι → Q) : Prop where
  compatible : s.store.Compatible conflict
  agrees : s.crashed = false → s.store.Each agrees q
  data : Data s.store.committed s.store.successes
  once : s.store.successes.Nodup
  success : ∀ i, i ∈ s.store.successes ↔ committedIn (q i)

namespace DbInv

variable {ι Q : Type} [DecidableEq ι] {agrees : ι → Tables → Option (Txn Update Lock) → Q → Prop}
  {committedIn : Q → Prop} {Data : Tables → List ι → Prop} {s s' : DbServer ι} {q : ι → Q} {i : ι}

/-- A statement that commits nothing. -/
theorem update_local (h : DbInv agrees committedIn Data s q) (hcrash : s.crashed = false)
    {store : DbStore ι} {p : Q} (hcompatible : store.Compatible conflict)
    (hcommitted : store.committed = s.store.committed)
    (hsuccesses : store.successes = s.store.successes)
    (hself : agrees i s.store.committed (store.txns i) p)
    (hother : ∀ j, j ≠ i → store.txns j = s.store.txns j)
    (hq : ¬ committedIn (q i)) (hp : ¬ committedIn p) :
    DbInv agrees committedIn Data { s with store := store } (Function.update q i p) where
  compatible := hcompatible
  agrees _ := (h.agrees hcrash).update_local hcommitted hself hother
  data := by
    rw [hcommitted, hsuccesses]
    exact h.data
  once := by
    rw [hsuccesses]
    exact h.once
  success j := by
    rw [hsuccesses, h.success j]
    by_cases hj : j = i
    · subst hj
      rw [Function.update_self]
      exact iff_of_false hq hp
    · rw [Function.update_of_ne hj]

/-- A locking read inside a transaction. -/
theorem query (h : DbInv agrees committedIn Data s q) (hcrash : s.crashed = false) {p : Q}
    {query : Query} {found : Bool} {txn : Txn Update Lock} (htxn : s.store.txns i = some txn)
    (hfree : ¬ s.store.Blocked i (awaitsQuery query))
    (hself : agrees i s.store.committed
      (some ⟨txn.writes ++ [], takesQuery query found ++ txn.locks⟩) p)
    (hq : ¬ committedIn (q i)) (hp : ¬ committedIn p) :
    DbInv agrees committedIn Data
      { s with store := s.store.execute applyUpdate i (takesQuery query found) [] }
      (Function.update q i p) := by
  refine h.update_local hcrash (compatible_query h.compatible hfree found [])
    (Store.committed_execute htxn ..).1 (Store.committed_execute htxn ..).2 ?_
    (fun _ => Store.txns_execute_of_ne) hq hp
  rw [Store.txns_execute_self htxn]
  exact hself

/-- A write inside a transaction. -/
theorem write (h : DbInv agrees committedIn Data s q) (hcrash : s.crashed = false) {p : Q}
    {u : Update} {txn : Txn Update Lock} (htxn : s.store.txns i = some txn)
    (hfree : ¬ s.store.Blocked i (awaitsUpdate u))
    (hself : agrees i s.store.committed
      (some ⟨txn.writes ++ [u], takesUpdate u ++ txn.locks⟩) p)
    (hq : ¬ committedIn (q i)) (hp : ¬ committedIn p) :
    DbInv agrees committedIn Data
      { s with store := s.store.execute applyUpdate i (takesUpdate u) [u] }
      (Function.update q i p) := by
  refine h.update_local hcrash (compatible_update h.compatible hfree [u])
    (Store.committed_execute htxn ..).1 (Store.committed_execute htxn ..).2 ?_
    (fun _ => Store.txns_execute_of_ne) hq hp
  rw [Store.txns_execute_self htxn]
  exact hself

theorem start (h : DbInv agrees committedIn Data s q) (hcrash : s.crashed = false) {p : Q}
    (htxn : s.store.txns i = none) (hself : agrees i s.store.committed (some ⟨[], []⟩) p)
    (hq : ¬ committedIn (q i)) (hp : ¬ committedIn p) :
    DbInv agrees committedIn Data { s with store := s.store.start applyUpdate i }
      (Function.update q i p) := by
  refine h.update_local hcrash h.compatible.start (Store.committed_start htxn).1
    (Store.committed_start htxn).2 ?_ (fun _ => Store.txns_start_of_ne) hq hp
  rw [Store.txns_start_self]
  exact hself

/-- The transaction is over and has left nothing. -/
theorem rollback (h : DbInv agrees committedIn Data s q) (hcrash : s.crashed = false) {p : Q}
    (hself : agrees i s.store.committed none p) (hq : ¬ committedIn (q i))
    (hp : ¬ committedIn p) :
    DbInv agrees committedIn Data { s with store := s.store.rollback i }
      (Function.update q i p) := by
  refine h.update_local hcrash h.compatible.rollback rfl rfl ?_
    (fun _ => Store.txns_rollback_of_ne) hq hp
  rw [Store.txns_rollback_self]
  exact hself

/-- The commit of a transaction that has written. -/
theorem commit (h : DbInv agrees committedIn Data s q) (hcrash : s.crashed = false) {p : Q}
    {u : Update} {writes : List Update} {locks : List Lock}
    (htxn : s.store.txns i = some ⟨u :: writes, locks⟩) {t : Tables}
    (ht : Store.applyAll applyUpdate (u :: writes) s.store.committed = t)
    (hself : agrees i t none p) (hq : ¬ committedIn (q i)) (hp : committedIn p)
    (hkeep : ∀ j, j ≠ i → agrees j s.store.committed (s.store.txns j) (q j) →
      agrees j t (s.store.txns j) (q j))
    (hdata : Data t (i :: s.store.successes)) :
    DbInv agrees committedIn Data { s with store := s.store.commit applyUpdate i }
      (Function.update q i p) := by
  have hcommitted : (s.store.commit applyUpdate i).committed = t := by
    rw [← ht, Store.commit, htxn]
  have hsuccesses : (s.store.commit applyUpdate i).successes = i :: s.store.successes := by
    rw [Store.commit, htxn]
    rfl
  refine ⟨h.compatible.commit, fun _ => ?_, ?_, ?_, fun j => ?_⟩
  · refine (h.agrees hcrash).update ?_ (fun _ => Store.txns_commit_of_ne) fun j hj hother => ?_
    · rw [hcommitted, Store.txns_commit_self]
      exact hself
    · rw [hcommitted]
      exact hkeep j hj hother
  · rw [hcommitted, hsuccesses]
    exact hdata
  · rw [hsuccesses]
    exact List.nodup_cons.mpr ⟨fun hmem => hq ((h.success i).mp hmem), h.once⟩
  · rw [hsuccesses, List.mem_cons, h.success j]
    by_cases hj : j = i
    · subst hj
      rw [Function.update_self]
      exact iff_of_true (Or.inl rfl) hp
    · rw [Function.update_of_ne hj]
      simp [hj]

/-- The commit of a transaction that has only read. -/
theorem commit_reader (h : DbInv agrees committedIn Data s q) (hcrash : s.crashed = false) {p : Q}
    {locks : List Lock} (htxn : s.store.txns i = some ⟨[], locks⟩)
    (hself : agrees i s.store.committed none p) (hq : ¬ committedIn (q i))
    (hp : ¬ committedIn p) :
    DbInv agrees committedIn Data { s with store := s.store.commit applyUpdate i }
      (Function.update q i p) := by
  have hempty : s.store.commit applyUpdate i = s.store.rollback i := by
    rw [Store.commit, htxn]
    rfl
  rw [hempty]
  exact h.rollback hcrash hself hq hp

/-- A statement that begins or ends to wait changes nothing. -/
theorem wake (h : DbInv agrees committedIn Data s q) :
    DbInv agrees committedIn Data { s with store := s.store.wake i } q :=
  ⟨h.compatible, h.agrees, h.data, h.once, h.success⟩

theorem pause (h : DbInv agrees committedIn Data s q) {failing : Prop} {c : Server.Command}
    (hpause : (dbSystem ι failing).pause i c s s') : DbInv agrees committedIn Data s' q := by
  obtain ⟨_, hwaits⟩ := hpause
  cases c with
  | query query =>
      obtain ⟨_, rfl⟩ := hwaits
      exact ⟨h.compatible, h.agrees, h.data, h.once, h.success⟩
  | update u =>
      obtain ⟨_, rfl⟩ := hwaits
      exact ⟨h.compatible, h.agrees, h.data, h.once, h.success⟩
  | _ => exact absurd hwaits id

/-- A crash leaves what has been committed. -/
theorem fault (h : DbInv agrees committedIn Data s q) {failing : Prop}
    (hfault : (dbSystem ι failing).fault s s') : DbInv agrees committedIn Data s' q := by
  obtain rfl : s' = ⟨s.store.abortAll, true⟩ := hfault
  refine ⟨h.compatible.abortAll, fun hcrash => ?_, h.data, h.once, h.success⟩
  cases hcrash

/-- No transaction is open and none has been committed. -/
theorem initial {p : Q} (hclosed : ∀ i, s.store.txns i = none) (hfresh : s.store.successes = [])
    (hself : ∀ i, agrees i s.store.committed none p) (hp : ¬ committedIn p)
    (hdata : Data s.store.committed []) : DbInv agrees committedIn Data s fun _ => p := by
  refine ⟨?_, fun _ i => ?_, ?_, ?_, fun i => ?_⟩
  · rintro i j l l' _ _ ⟨txn, htxn, _⟩
    rw [hclosed i] at htxn
    cases htxn
  · rw [hclosed i]
    exact hself i
  · rw [hfresh]
    exact hdata
  · rw [hfresh]
    exact List.nodup_nil
  · rw [hfresh]
    exact iff_of_false List.not_mem_nil hp

end DbInv

/-- A transaction that has written nothing sees the committed tables. -/
theorem view_of_reader {ι : Type} {store : DbStore ι} {i : ι} {locks : List Lock}
    (htxn : store.txns i = some ⟨[], locks⟩) :
    store.view applyUpdate i = store.committed := by
  rw [Store.view, htxn]
  rfl

end Server
end TcMuzi
