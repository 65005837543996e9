import TcMuzi.Files.RefCount
import TcMuzi.Server.Locking

/-!
# The automaton of an instant upload

`Md5Phase` is how far a call of `handleDealMd5` has come in its transaction, as far as its
own statements and their answers tell.
-/

namespace TcMuzi
namespace Files

open Base Server Api Mysql Lib

/-! ## One call -/

structure Md5Call where
  user : CString
  md5 : CString
  fileName : CString

def Md5Call.key (call : Md5Call) : CString × CString × CString :=
  (call.user, call.md5, call.fileName)

inductive Md5Phase
  | idle
  -- in a transaction
  | begun
  -- the user has the file already
  | found
  -- the user does not have the file
  | missing
  -- the count has been read
  | counted (count : Int)
  -- it has been written
  | bumped (count : Int)
  -- the row has been inserted
  | inserted (count : Int) (row : UserFile)
  -- the transaction is over, with or without an effect
  | committed
  | closed

/-- After a write that succeeded. -/
def Md5Phase.wrote : Update → Md5Phase → Md5Phase
  | .setFileCount _ _, .counted count => .bumped count
  | .insertUserFile row, .bumped count => .inserted count row
  | _, q => q

def Md5Phase.ended : Md5Phase → Md5Phase
  | .inserted _ _ => .committed
  | _ => .closed

/-- The check of the user's row is always answered: a transaction without locks does not
wait in a circle. -/
def md5Step : (c : Server.Command) → Md5Phase → c.Reply → Md5Phase → Prop
  | .startTransaction, _, _, q' => q' = .begun
  | .commit, q, _, q' => q' = q.ended
  | .rollback, _, _, q' => q' = .closed
  | .query (.userFile _ _ _ _), _, r, q' =>
      (r = some [] ∧ q' = .missing) ∨ ((∃ row rows, r = some (row :: rows)) ∧ q' = .found)
  | .query (.fileCount _ _), _, r, q' =>
      (r = none ∧ q' = .closed) ∨ (r = some [] ∧ q' = .missing) ∨
        ∃ count counts, r = some (count :: counts) ∧ q' = .counted count
  | .update u, q, r, q' => (r = none ∧ q' = .closed) ∨ (r.isSome ∧ q' = q.wrote u)
  | _, q, _, q' => q' = q

def md5May (call : Md5Call) : Md5Phase → Server.Command → Prop
  | q, .startTransaction => q = .idle
  | q, .query (.userFile user md5 fileName forUpdate) =>
      q = .begun ∧ (user, md5, fileName) = call.key ∧ forUpdate = true
  | q, .query (.fileCount md5 forUpdate) => q = .missing ∧ md5 = call.md5 ∧ forUpdate = true
  | q, .update (.setFileCount md5 n) => ∃ count,
      q = .counted count ∧ md5 = call.md5 ∧ n = wrapInt32 (count + 1)
  | q, .update (.insertUserFile row) => ∃ count, q = .bumped count ∧ row.key = call.key
  | q, .commit => q = .found ∨ ∃ count row, q = .inserted count row
  | q, .rollback => q = .missing ∨ q = .closed
  | _, .getDBConn _ => True
  | _, .relDBConn _ => True
  | _, .sys _ => True
  | _, _ => False

def md5Phases (call : Md5Call) : Sem Server.Command Command.Reply Md5Phase where
  step := md5Step
  safe := md5May call

section Call

variable {call : Md5Call} {q : Md5Phase}

theorem wp_md5_startTransaction {ptr : Ptr} {Q : Bool → Md5Phase → Prop} (hQ : ∀ r, Q r .begun) :
    wp (md5Phases call) (startTransaction ptr) Q .idle := by
  cases ptr with
  | null => trivial
  | conn =>
      refine ⟨rfl, ?_⟩
      rintro r _ rfl
      exact hQ r

theorem wp_md5_commit {ptr : Ptr} {Q : Bool → Md5Phase → Prop}
    (hmay : q = .found ∨ ∃ count row, q = .inserted count row) (hQ : ∀ r, Q r q.ended) :
    wp (md5Phases call) (commit ptr) Q q := by
  cases ptr with
  | null => trivial
  | conn =>
      refine ⟨hmay, ?_⟩
      rintro r _ rfl
      exact hQ r

theorem wp_md5_rollback {ptr : Ptr} {Q : Bool → Md5Phase → Prop}
    (hmay : q = .missing ∨ q = .closed) (hQ : ∀ r, Q r .closed) :
    wp (md5Phases call) (rollback ptr) Q q := by
  cases ptr with
  | null => trivial
  | conn =>
      refine ⟨hmay, ?_⟩
      rintro r _ rfl
      exact hQ r

theorem wp_md5_record {ptr : Ptr} {Q : Int → Md5Phase → Prop} (hmissing : Q 0 .missing)
    (hfound : Q 1 .found) :
    wp (md5Phases call)
      (checkwhetherHaveRecord ptr (.userFile call.user call.md5 call.fileName true)) Q .begun := by
  cases ptr with
  | null => trivial
  | conn =>
      refine ⟨⟨rfl, rfl, rfl⟩, ?_⟩
      rintro r q' (⟨rfl, rfl⟩ | ⟨⟨row, rows, rfl⟩, rfl⟩)
      · exact hmissing
      · exact hfound

theorem wp_md5_getResultOneCount {ptr : Ptr} {Q : Int × Int → Md5Phase → Prop}
    (hnone : Q (1, 0) .missing) (hcount : ∀ count, Q (0, count) (.counted count)) :
    wp (md5Phases call) (getResultOneCount ptr call.md5 true 0) Q .missing := by
  cases ptr with
  | null => trivial
  | conn =>
      refine ⟨⟨rfl, rfl, rfl⟩, ?_⟩
      rintro r q' (⟨rfl, rfl⟩ | ⟨rfl, rfl⟩ | ⟨count, counts, rfl, rfl⟩)
      · -- the result set of the victim is dereferenced
        trivial
      · exact hnone
      · exact hcount count

theorem wp_md5_executeUpdate {ptr : Ptr} {u : Update} {Q : Bool → Md5Phase → Prop}
    (hmay : md5May call q (.update u)) (hfailed : Q false .closed) (hdone : Q true (q.wrote u)) :
    wp (md5Phases call) (executeUpdate ptr u false) Q q := by
  cases ptr with
  | null => trivial
  | conn =>
      refine ⟨hmay, ?_⟩
      rintro r q' (⟨rfl, rfl⟩ | ⟨hsome, rfl⟩)
      · exact hfailed
      · cases r with
        | none => cases hsome
        | some n =>
            show Q (decide (0 < n) || !false) _
            rw [Bool.not_false, Bool.or_true]
            exact hdone

theorem wp_md5_executeCreate {ptr : Ptr} {u : Update} {Q : Bool → Md5Phase → Prop}
    (hmay : md5May call q (.update u)) (hfailed : Q false .closed) (hdone : Q true (q.wrote u)) :
    wp (md5Phases call) (executeCreate ptr u) Q q := by
  cases ptr with
  | null => trivial
  | conn =>
      refine ⟨hmay, ?_⟩
      rintro r q' (⟨rfl, rfl⟩ | ⟨hsome, rfl⟩)
      · exact hfailed
      · cases r with
        | none => cases hsome
        | some n => exact hdone

/-- The transaction is at its end, or it has failed and may be rolled back. -/
theorem wp_md5_addReference (ptr : Ptr) :
    wp (md5Phases call) (addReference ptr call.user call.md5 call.fileName)
      (fun succeed q => (succeed = true ∧ ∃ count row, q = .inserted count row) ∨
        (succeed = false ∧ (q = .missing ∨ q = .closed))) .missing := by
  rw [addReference, wp_bind]
  refine wp_md5_getResultOneCount ?_ fun count => ?_
  · show wp _ (if (1 : Int) ≠ -1 ∧ (1 : Int) ≠ 1 then _ else _) _ _
    rw [if_neg (by decide)]
    exact Or.inr ⟨rfl, Or.inl rfl⟩
  · show wp _ (if (0 : Int) ≠ -1 ∧ (0 : Int) ≠ 1 then _ else _) _ _
    rw [if_pos (by decide), wp_bind]
    refine wp_md5_executeUpdate ⟨count, rfl, rfl, rfl⟩ (Or.inr ⟨rfl, Or.inr rfl⟩) ?_
    refine ⟨trivial, ?_⟩
    rintro timeStr _ rfl
    exact wp_md5_executeCreate ⟨count, rfl, rfl⟩ (Or.inr ⟨rfl, Or.inr rfl⟩)
      (Or.inl ⟨rfl, count, _, rfl⟩)

theorem wp_md5_dealMd5Transaction (ptr : Ptr) :
    wp (md5Phases call) (dealMd5Transaction ptr call.user call.md5 call.fileName)
      (fun code q => (q = .committed ∧ code = md5Ok) ∨ (q = .closed ∧ code ≠ md5Ok)) .idle := by
  rw [dealMd5Transaction, wp_bind]
  refine wp_md5_startTransaction fun _ => ?_
  rw [wp_bind]
  refine wp_md5_record ?_ ?_
  · rw [if_neg (by decide), wp_bind]
    refine wp_mono (wp_md5_addReference ptr) ?_
    rintro succeed q (⟨rfl, count, row, rfl⟩ | ⟨rfl, hq⟩)
    · rw [if_pos rfl, wp_bind]
      exact wp_md5_commit (Or.inr ⟨count, row, rfl⟩) fun _ => Or.inl ⟨rfl, rfl⟩
    · rw [if_neg (by simp), wp_bind]
      exact wp_md5_rollback hq fun _ => Or.inr ⟨rfl, by decide⟩
  · rw [if_pos rfl, wp_bind]
    exact wp_md5_commit (Or.inl rfl) fun _ => Or.inr ⟨rfl, by decide⟩

/-- A call that has returned answers 0 exactly when it has committed. -/
theorem wp_md5_handleDealMd5 :
    wp (md5Phases call) (handleDealMd5 call.user call.md5 call.fileName)
      (fun code q => (q = .committed ∧ code = md5Ok) ∨ (q = .closed ∧ code ≠ md5Ok)) .idle := by
  have hidle : ∀ c, c = .getDBConn .tuchuangMaster ∨ c = .relDBConn .tuchuangMaster →
      (md5Phases call).Idle c := by
    rintro c (rfl | rfl) q <;> exact ⟨trivial, fun _ _ hstep => hstep⟩
  exact wp_withDBConn_of_idle (hidle _ (Or.inl rfl)) (hidle _ (Or.inr rfl))
    wp_md5_dealMd5Transaction

end Call

end Files
end TcMuzi
