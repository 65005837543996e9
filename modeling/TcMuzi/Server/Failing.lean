import TcMuzi.Server.Sequential

/-!
# Sequential runs in which some commands fail

A command that fails has no effect and reports its error: NULL, a return value of its own,
or `err` from Redis.
-/

namespace TcMuzi
namespace Server

open Base Redis Lib

/-- How a command reports an error; the calls of the system do not. -/
def errorReply (sys : (c : SysCall) → c.Ret) (err : RedisResult) : (c : Command) → c.Reply
  | .query _ => none
  | .update _ => none
  | .execute _ => none
  | .startTransaction => false
  | .commit => false
  | .rollback => false
  | .prepare => false
  | .redis _ => err
  | .getDBConn _ => .null
  | .relDBConn _ => ()
  | .getCacheConn => .null
  | .relCacheConn => ()
  | .sys c => sys c

/-- A machine on which the commands that `fails` names fail and the others succeed. -/
def failingReply (fails : Command → Bool) (sys : (c : SysCall) → c.Ret) (err : RedisResult)
    (c : Command) (w : World) : Option (c.Reply × World) :=
  if fails c then some (errorReply sys err c, w) else okReply sys c w

/-- The tables that the other connections see. -/
def World.durable (w : World) : Mysql.Tables := w.snapshot.getD w.db

section Runs

variable {fails : Command → Bool} {sys : (c : SysCall) → c.Ret} {err : RedisResult} {α : Type}

theorem run_failing_withDBConn {pool : DBInstance} (hget : fails (.getDBConn pool) = false)
    (hrel : fails (.relDBConn pool) = false) (body : Ptr → Handler α) (w : World) :
    run (failingReply fails sys err) (withDBConn pool body) w =
      run (failingReply fails sys err) (body .conn) w := by
  have hconn : failingReply fails sys err (.getDBConn pool) w = some (.conn, w) :=
    if_neg (by simp [hget])
  rw [withDBConn, run_bind]
  show ((run _ (.cmd (Command.getDBConn pool) .ret) w).bind _) = _
  rw [run_step_of_eq hconn]
  show run _ (body .conn >>= _) w = _
  rw [run_bind]
  cases run (failingReply fails sys err) (body .conn) w with
  | none => rfl
  | some result =>
      have hback : failingReply fails sys err (.relDBConn pool) result.2 = some ((), result.2) :=
        if_neg (by simp [hrel])
      show run _ (.cmd (Command.relDBConn pool) fun _ => .ret result.1) result.2 = _
      rw [run_step_of_eq hback]
      rfl

end Runs

end Server
end TcMuzi
