import TcMuzi.Redis.Sequential
import TcMuzi.Session.Failures

/-!
# Runs in which one statement may fail

The state of a run is the world and whether a statement may still fail.  The one that fails
has no effect and answers an error.  All others are answered as the tables and the keyspace
have it, which for Redis may be an error about a value of the wrong kind.
-/

namespace TcMuzi
namespace Server

open Base Redis Lib Session

/-- The answer to a command that does not fail. -/
def servedStep : (c : Command) → World → c.Reply → World → Prop
  | .query q, w, r, w' => r = q.exec w.db ∧ w' = w
  | .update u, w, r, w' =>
      r = (u.exec w.db).map Prod.fst ∧ w' = { w with db := ((u.exec w.db).map Prod.snd).getD w.db }
  | .execute u, w, r, w' =>
      r = (u.exec w.db).map Prod.fst ∧ w' = { w with db := ((u.exec w.db).map Prod.snd).getD w.db }
  | .redis c, w, r, w' =>
      r = .reply (c.exec w.redis).1 ∧ w' = withRedis w (c.exec w.redis).2
  | .getDBConn _, w, r, w' => r = .conn ∧ w' = w
  | .getCacheConn, w, r, w' => r = .conn ∧ w' = w
  | c, w, r, w' => okStep c w r w'

/-- The error that a failing statement reports; other commands do not fail. -/
def ErrorAnswer : (c : Command) → c.Reply → Prop
  | .query _, r => r = none
  | .update _, r => r = none
  | .execute _, r => r = none
  | .startTransaction, r => r = false
  | .commit, r => r = false
  | .rollback, r => r = false
  | .prepare, r => r = false
  | .redis _, r => Unserved r
  | _, _ => False

/-- The flag says whether a statement may still fail. -/
def faultStep (c : Command) (s : World × Bool) (r : c.Reply) (s' : World × Bool) : Prop :=
  (servedStep c s.1 r s'.1 ∧ s'.2 = s.2) ∨ (s.2 = true ∧ ErrorAnswer c r ∧ s' = (s.1, false))

def singleFault : Sem Command Command.Reply (World × Bool) where
  step := faultStep

section Rules

variable {α β : Type} {w : World} {b : Bool}

theorem wp_fault_issue {c : Command} {Q : c.Reply → World × Bool → Prop} :
    wp singleFault (issue c) Q (w, b) ↔
      (∀ r w', servedStep c w r w' → Q r (w', b)) ∧
        (b = true → ∀ r, ErrorAnswer c r → Q r (w, false)) := by
  constructor
  · intro h
    exact ⟨fun r w' hstep => h.2 r (w', b) (Or.inl ⟨hstep, rfl⟩),
      fun hb r herr => h.2 r (w, false) (Or.inr ⟨hb, herr, rfl⟩)⟩
  · rintro ⟨hserved, hfailed⟩
    refine ⟨trivial, ?_⟩
    rintro r ⟨w', b'⟩ (⟨hstep, rfl⟩ | ⟨hb, herr, heq⟩)
    · exact hserved r w' hstep
    · cases heq
      exact hfailed hb r herr

/-- A command that does not fail and leaves the world alone. -/
theorem wp_fault_idle {c : Command} {r : c.Reply}
    (hserved : ∀ w r' w', servedStep c w r' w' ↔ r' = r ∧ w' = w) (herr : ∀ r, ¬ ErrorAnswer c r)
    {Q : c.Reply → World × Bool → Prop} : wp singleFault (issue c) Q (w, b) ↔ Q r (w, b) := by
  rw [wp_fault_issue]
  constructor
  · intro h
    exact h.1 r w ((hserved w r w).mpr ⟨rfl, rfl⟩)
  · intro hQ
    refine ⟨fun r' w' hstep => ?_, fun _ r' hr' => absurd hr' (herr r')⟩
    obtain ⟨rfl, rfl⟩ := (hserved w r' w').mp hstep
    exact hQ

theorem wp_fault_sys {c : SysCall} {Q : c.Ret → World × Bool → Prop} :
    wp singleFault (issue (.sys c)) Q (w, b) ↔ ∀ r, Q r (w, b) := by
  rw [wp_fault_issue]
  constructor
  · exact fun h r => h.1 r w rfl
  · intro h
    refine ⟨?_, fun _ r hr => absurd hr id⟩
    rintro r w' rfl
    exact h r

theorem wp_fault_withDBConn {pool : DBInstance} {body : Ptr → Handler α}
    {Q : α → World × Bool → Prop} :
    wp singleFault (withDBConn pool body) Q (w, b) ↔ wp singleFault (body .conn) Q (w, b) := by
  have hrel : ∀ (a : α) (s : World × Bool), wp singleFault
      (relDBConn pool >>= fun _ => (return a : Handler α)) Q s ↔ Q a s := by
    rintro a ⟨w', b'⟩
    rw [wp_bind]
    refine @wp_fault_idle w' b' (.relDBConn pool) () ?_ (fun _ => id) (fun _ s => Q a s)
    exact fun _ _ _ => ⟨fun h => ⟨rfl, h⟩, fun h => h.2⟩
  rw [withDBConn, wp_bind]
  refine (@wp_fault_idle w b (.getDBConn pool) .conn (fun _ _ _ => Iff.rfl) (fun _ => id) _).trans ?_
  rw [wp_bind]
  exact ⟨fun h => wp_mono h fun a s hs => (hrel a s).mp hs,
    fun h => wp_mono h fun a s hs => (hrel a s).mpr hs⟩

theorem wp_fault_withCacheConn {body : Ptr → Handler α} {Q : α → World × Bool → Prop} :
    wp singleFault (withCacheConn body) Q (w, b) ↔ wp singleFault (body .conn) Q (w, b) := by
  have hrel : ∀ (a : α) (s : World × Bool), wp singleFault
      (relCacheConn >>= fun _ => (return a : Handler α)) Q s ↔ Q a s := by
    rintro a ⟨w', b'⟩
    rw [wp_bind]
    refine @wp_fault_idle w' b' .relCacheConn () ?_ (fun _ => id) (fun _ s => Q a s)
    exact fun _ _ _ => ⟨fun h => ⟨rfl, h⟩, fun h => h.2⟩
  rw [withCacheConn, wp_bind]
  refine (@wp_fault_idle w b .getCacheConn .conn (fun _ _ _ => Iff.rfl) (fun _ => id) _).trans ?_
  rw [wp_bind]
  exact ⟨fun h => wp_mono h fun a s hs => (hrel a s).mp hs,
    fun h => wp_mono h fun a s hs => (hrel a s).mpr hs⟩

/-- What is done after a part whose result is not read. -/
theorem wp_fault_ignore {p : Handler α} {f : α → Handler β} {Q : β → World × Bool → Prop}
    {s : World × Bool} (h : ∀ a s', wp singleFault (f a) Q s') :
    wp singleFault (p >>= f) Q s := by
  rw [wp_bind]
  exact (wp_iff_exec (fun _ _ => trivial) fun _ => trivial).mpr fun a s' _ => h a s'

/-- A run without a failure is one of those with at most one. -/
theorem wp_fault_calm {p : Handler α} {Q : α → World → Prop}
    (h : wp singleFault p (fun a s => Q a s.1) (w, true)) :
    wp singleFault p (fun a s => Q a s.1) (w, false) := by
  induction p generalizing w with
  | ret a => exact h
  | cmd c k ih =>
      refine ⟨trivial, ?_⟩
      rintro r ⟨w', b'⟩ (⟨hserved, rfl⟩ | ⟨hb, -⟩)
      · exact ih r (h.2 r (w', true) (Or.inl ⟨hserved, rfl⟩))
      · cases hb
  | fail => trivial

theorem wp_fault_executeQuery {q : Mysql.Query} {Q : Option (List q.Row) → World × Bool → Prop} :
    wp singleFault (executeQuery .conn q) Q (w, b) ↔
      Q (q.exec w.db) (w, b) ∧ (b = true → Q none (w, false)) := by
  rw [executeQuery, onConn_conn, query, wp_fault_issue]
  constructor
  · exact fun h => ⟨h.1 _ w ⟨rfl, rfl⟩, fun hb => h.2 hb none rfl⟩
  · rintro ⟨hserved, hfailed⟩
    refine ⟨?_, ?_⟩
    · rintro r w' ⟨rfl, rfl⟩
      exact hserved
    · rintro hb r rfl
      exact hfailed hb

/-- The tables after a write. -/
def withDb (w : World) (t : Mysql.Tables) : World := { w with db := t }

section Writes

variable {u : Mysql.Update} {n : Nat} {t : Mysql.Tables} (hexec : u.exec w.db = some (n, t))

include hexec

theorem wp_fault_update {Q : Option Nat → World × Bool → Prop} :
    wp singleFault (update u) Q (w, b) ↔
      Q (some n) (withDb w t, b) ∧ (b = true → Q none (w, false)) := by
  rw [update, wp_fault_issue]
  simp only [servedStep, hexec, Option.map_some, Option.getD_some]
  constructor
  · exact fun h => ⟨h.1 _ _ ⟨rfl, rfl⟩, fun hb => h.2 hb none rfl⟩
  · rintro ⟨hserved, hfailed⟩
    refine ⟨?_, ?_⟩
    · rintro r w' ⟨rfl, rfl⟩
      exact hserved
    · rintro hb r rfl
      exact hfailed hb

theorem wp_fault_executeUpdate {care : Bool} {Q : Bool → World × Bool → Prop} :
    wp singleFault (executeUpdate .conn u care) Q (w, b) ↔
      Q (decide (0 < n) || !care) (withDb w t, b) ∧ (b = true → Q false (w, false)) := by
  rw [executeUpdate, onConn_conn, wp_bind, wp_fault_update hexec]
  rfl

theorem wp_fault_executeCreate {Q : Bool → World × Bool → Prop} :
    wp singleFault (executeCreate .conn u) Q (w, b) ↔
      Q true (withDb w t, b) ∧ (b = true → Q false (w, false)) := by
  rw [executeCreate, onConn_conn, wp_bind, wp_fault_update hexec]
  rfl

end Writes

theorem wp_fault_redisCommand {c : Redis.Command} {Q : RedisResult → World × Bool → Prop} :
    wp singleFault (CacheConn.redisCommand .conn c) Q (w, b) ↔
      Q (.reply (c.exec w.redis).1) (withRedis w (c.exec w.redis).2, b) ∧
        (b = true → ∀ r, Unserved r → Q r (w, false)) := by
  rw [CacheConn.redisCommand, onConn_conn, redisCall, wp_fault_issue]
  constructor
  · exact fun h => ⟨h.1 _ _ ⟨rfl, rfl⟩, h.2⟩
  · rintro ⟨hserved, hfailed⟩
    refine ⟨?_, hfailed⟩
    rintro r w' ⟨rfl, rfl⟩
    exact hserved

end Rules

end Server
end TcMuzi
