import TcMuzi.Lib.Interleaving
import TcMuzi.Server.Locking
import TcMuzi.Server.Sequential

/-!
# Interleavings in which every command succeeds

* `okSystem`: the threads share a `World` and every SQL statement is a transaction of its
  own.
* `lockedSystem`: there are transactions, and a statement is executed once no other
  transaction keeps a lock that it awaits.

A condition may restrict the commands to states in which they do no harm.
-/

namespace TcMuzi
namespace Server

open Base Lib

/-- Every command succeeds, where it meets the condition. -/
def okSystem {ι : Type} (cond : ι → Server.Command → World → Prop) :
    System ι Server.Command Command.Reply World where
  step i c w r w' := okStep c w r w' ∧ cond i c w
  pause _ _ _ _ := False
  fault _ _ := False
  env _ _ := False

theorem okSystem_quiet {ι : Type} (cond : ι → Server.Command → World → Prop) :
    (okSystem cond).Quiet :=
  ⟨fun _ _ _ _ => id, fun _ _ => id, fun _ _ => id⟩

abbrev OkConfig (ι α : Type) := Config ι Server.Command Command.Reply α World

variable {ι α Q : Type}

/-- The machine of the samples, for the commands that meet the condition. -/
def okReplyWhen (cond : ι → Server.Command → World → Prop) [∀ i c w, Decidable (cond i c w)]
    (i : ι) (c : Server.Command) (w : World) : Option (c.Reply × World) :=
  if cond i c w then okReply sampleSys c w else none

theorem step_of_okReplyWhen (cond : ι → Server.Command → World → Prop)
    [∀ i c w, Decidable (cond i c w)] (i : ι) (c : Server.Command) (w : World) (r : c.Reply)
    (w' : World) (h : okReplyWhen cond i c w = some (r, w')) : (okSystem cond).step i c w r w' := by
  unfold okReplyWhen at h
  split at h
  · exact ⟨okStep_of_okReply sampleSys c w r w' h, by assumption⟩
  · cases h

/-- The invariant rule: only the commands have to be looked at. -/
theorem okReachable_simulates [DecidableEq ι] {cond : ι → Server.Command → World → Prop}
    {P : ι → Sem Server.Command Command.Reply Q} {Inv : World → (ι → Q) → Prop}
    {post : ι → α → Q → Prop}
    (hstep : ∀ i c w r w' q, Inv w q → (P i).safe (q i) c → cond i c w → okStep c w r w' →
      ∃ q', (P i).step c (q i) r q' ∧ Inv w' (Function.update q i q'))
    {init cfg : OkConfig ι α} {q₀ : ι → Q} (hinit : Simulates P Inv post init q₀)
    (h : Reachable (okSystem cond) init cfg) : ∃ q, Simulates P Inv post cfg q := by
  have hkeep : ∀ i c w r w' q, Inv w q → (P i).safe (q i) c → (okSystem cond).step i c w r w' →
      ∃ q', (P i).step c (q i) r q' ∧ Inv w' (Function.update q i q') :=
    fun i c w r w' q hq hsafe hs => hstep i c w r w' q hq hsafe hs.2 hs.1
  exact quiet_simulates (okSystem_quiet cond) hkeep hinit h

/-! ## With transactions and locks -/

/-- MySQL with its open transactions, and Redis. -/
structure Servers (ι : Type) where
  store : DbStore ι
  redis : Redis.Keyspace

/-- What is committed, and Redis. -/
def Servers.world (s : Servers ι) : World := ⟨s.store.committed, none, s.redis⟩

section Locked

variable [DecidableEq ι]

/-- The locks that a command awaits. -/
def awaits : Server.Command → List Lock
  | .query q => awaitsQuery q
  | .update u => awaitsUpdate u
  | _ => []

/-- A command that is executed. -/
def lockedStep (i : ι) : (c : Server.Command) → Servers ι → c.Reply → Servers ι → Prop
  | .query q, s, r, s' =>
      ∃ rows, q.exec (s.store.view applyUpdate i) = some rows ∧ r = some rows ∧
        s' = { s with store := s.store.execute applyUpdate i (takesQuery q !rows.isEmpty) [] }
  | .update u, s, r, s' =>
      ∃ n t, u.exec (s.store.view applyUpdate i) = some (n, t) ∧ r = some n ∧
        s' = { s with store := s.store.execute applyUpdate i (takesUpdate u) [u] }
  | .startTransaction, s, r, s' =>
      r = true ∧ s' = { s with store := s.store.start applyUpdate i }
  | .commit, s, r, s' => r = true ∧ s' = { s with store := s.store.commit applyUpdate i }
  | .rollback, s, r, s' => r = true ∧ s' = { s with store := s.store.rollback i }
  | .redis c, s, r, s' =>
      (c.exec s.redis).1.isError = false ∧ r = .reply (c.exec s.redis).1 ∧
        s' = { s with redis := (c.exec s.redis).2 }
  | .getDBConn _, s, _, s' => s' = s
  | .relDBConn _, s, _, s' => s' = s
  | .getCacheConn, s, _, s' => s' = s
  | .relCacheConn, s, _, s' => s' = s
  | .sys _, s, _, s' => s' = s
  | _, _, _, _ => False

/-- Every command succeeds, once it is not blocked and where it meets the condition. -/
def lockedSystem (cond : Server.Command → World → Prop) :
    System ι Server.Command Command.Reply (Servers ι) where
  step i c s r s' := ¬ s.store.Blocked i (awaits c) ∧ cond c s.world ∧ lockedStep i c s r s'
  pause _ _ _ _ := False
  fault _ _ := False
  env _ _ := False

theorem lockedSystem_quiet (cond : Server.Command → World → Prop) :
    (lockedSystem (ι := ι) cond).Quiet :=
  ⟨fun _ _ _ _ => id, fun _ _ => id, fun _ _ => id⟩

/-- What the machine of the samples answers. -/
def lockedAnswer (i : ι) : (c : Server.Command) → Servers ι → Option (c.Reply × Servers ι)
  | .query q, s =>
      (q.exec (s.store.view applyUpdate i)).map fun rows =>
        (some rows,
          { s with store := s.store.execute applyUpdate i (takesQuery q !rows.isEmpty) [] })
  | .update u, s =>
      (u.exec (s.store.view applyUpdate i)).map fun (n, _) =>
        (some n, { s with store := s.store.execute applyUpdate i (takesUpdate u) [u] })
  | .startTransaction, s => some (true, { s with store := s.store.start applyUpdate i })
  | .commit, s => some (true, { s with store := s.store.commit applyUpdate i })
  | .rollback, s => some (true, { s with store := s.store.rollback i })
  | .redis c, s =>
      if (c.exec s.redis).1.isError then none
      else some (.reply (c.exec s.redis).1, { s with redis := (c.exec s.redis).2 })
  | .getDBConn _, s => some (.conn, s)
  | .relDBConn _, s => some ((), s)
  | .getCacheConn, s => some (.conn, s)
  | .relCacheConn, s => some ((), s)
  | .sys c, s => some (sampleSys c, s)
  | _, _ => none

theorem lockedStep_of_lockedAnswer (i : ι) (c : Server.Command) (s : Servers ι) (r : c.Reply)
    (s' : Servers ι) (h : lockedAnswer i c s = some (r, s')) : lockedStep i c s r s' := by
  cases c with
  | query q =>
      obtain ⟨rows, hrows, hreply⟩ := Option.map_eq_some_iff.mp h
      cases hreply
      exact ⟨rows, hrows, rfl, rfl⟩
  | update u =>
      obtain ⟨⟨n, t⟩, hexec, hreply⟩ := Option.map_eq_some_iff.mp h
      cases hreply
      exact ⟨n, t, hexec, rfl, rfl⟩
  | redis c =>
      by_cases herr : (c.exec s.redis).1.isError
      · have hnone : lockedAnswer i (.redis c) s = none := if_pos herr
        rw [hnone] at h
        cases h
      · have hsome : lockedAnswer i (.redis c) s =
            some (.reply (c.exec s.redis).1, { s with redis := (c.exec s.redis).2 }) := if_neg herr
        rw [hsome] at h
        cases h
        exact ⟨by simpa using herr, rfl, rfl⟩
  | prepare => cases h
  | execute u => cases h
  | startTransaction => cases h; exact ⟨rfl, rfl⟩
  | commit => cases h; exact ⟨rfl, rfl⟩
  | rollback => cases h; exact ⟨rfl, rfl⟩
  | getDBConn pool => cases h; rfl
  | relDBConn pool => cases h; rfl
  | getCacheConn => cases h; rfl
  | relCacheConn => cases h; rfl
  | sys c => cases h; rfl

def lockedReply [Fintype ι] (cond : Server.Command → World → Prop)
    [∀ c w, Decidable (cond c w)] (i : ι) (c : Server.Command) (s : Servers ι) :
    Option (c.Reply × Servers ι) :=
  if ¬ s.store.Blocked i (awaits c) ∧ cond c s.world then lockedAnswer i c s else none

theorem step_of_lockedReply [Fintype ι] (cond : Server.Command → World → Prop)
    [∀ c w, Decidable (cond c w)] (i : ι) (c : Server.Command) (s : Servers ι) (r : c.Reply)
    (s' : Servers ι) (h : lockedReply cond i c s = some (r, s')) :
    (lockedSystem cond).step i c s r s' := by
  unfold lockedReply at h
  split at h
  · rename_i hready
    exact ⟨hready.1, hready.2, lockedStep_of_lockedAnswer i c s r s' h⟩
  · cases h

end Locked

end Server
end TcMuzi
