import TcMuzi.Lib.Program
import TcMuzi.Mysql.Statement
import TcMuzi.Redis.Store

/-!
# What a handler can ask of its surroundings

The handlers are programs over `Command`: taking a connection from a pool and
giving it back, the calls of the MySQL C API and of hiredis on it, and the calls
of the operating system whose results they use.  `Reply` is the type of the
answer.  A handler that dereferences a null pointer or lets an exception escape
is the program `fail`.
-/

namespace TcMuzi
namespace Server

open Base

/-- The configured MySQL pools (`DBInstances`). -/
inductive DBInstance
  | tuchuangMaster
  | tuchuangSlave
deriving DecidableEq

/-- What a pool's `Get` returns: a connection or NULL. -/
inductive Ptr
  | null
  | conn
deriving DecidableEq

/-- What `fork` returns: in neither process, in the child, in the parent. -/
inductive ForkResult
  | error
  | child
  | parent
deriving DecidableEq

/-- Calls of the C library, the operating system and the short-link service. -/
inductive SysCall
  -- time, localtime and strftime
  | currentTime
  | randomString (len : Nat)
  | spawnUUID
  -- bytes of a stack buffer that was never written
  | uninitialised
  | system (cmd : CString)
  | rename (oldPath newPath : CString)
  | unlink (path : CString)
  | pipe
  | fork
  -- returns only when the program could not be started
  | execlp (file conf arg : CString)
  | readPipe (size : Nat)
  -- whether the memory was there
  | calloc (count : Int) (size : Nat)
  | getShortUrl (url : CString)

@[reducible] def SysCall.Ret : SysCall → Type
  | .currentTime => CString
  | .randomString _ => CString
  | .spawnUUID => CString
  | .uninitialised => CString
  | .system _ => Int
  | .rename _ _ => Int
  | .unlink _ => Int
  | .pipe => Int
  | .fork => ForkResult
  | .execlp .. => Unit
  | .readPipe _ => List UInt8
  | .calloc .. => Bool
  | .getShortUrl _ => Option CString

/-- How a call of hiredis ends: `CacheConn::Init` could not reconnect, the
connection broke during the command (a NULL reply), or there is a reply. -/
inductive RedisResult
  | initFailed
  | noReply
  | reply (r : Redis.Reply)

inductive Command
  | getDBConn (pool : DBInstance)
  | relDBConn (pool : DBInstance)
  -- every handler uses the cache pool "token"
  | getCacheConn
  | relCacheConn
  | query (q : Mysql.Query)
  | update (u : Mysql.Update)
  | startTransaction
  | commit
  | rollback
  -- mysql_stmt_init and mysql_stmt_prepare, then bind and execute
  | prepare
  | execute (u : Mysql.Update)
  | redis (c : Redis.Command)
  | sys (c : SysCall)

/-- The answer to a command.  A query answers NULL or a result set, a write the
number of affected rows unless `mysql_real_query` failed. -/
@[reducible] def Command.Reply : Command → Type
  | .getDBConn _ => Ptr
  | .relDBConn _ => Unit
  | .getCacheConn => Ptr
  | .relCacheConn => Unit
  | .query q => Option (List q.Row)
  | .update _ => Option Nat
  | .startTransaction => Bool
  | .commit => Bool
  | .rollback => Bool
  | .prepare => Bool
  | .execute _ => Option Nat
  | .redis _ => RedisResult
  | .sys c => c.Ret

/-- A handler, or a part of one. -/
abbrev Handler (α : Type) := Lib.Prog Command Command.Reply α

/-- Issue one command. -/
def issue (c : Command) : Handler c.Reply := Lib.Prog.issue c

/-! ## The commands with their types of answers -/

def getDBConn (pool : DBInstance) : Handler Ptr := issue (.getDBConn pool)

def relDBConn (pool : DBInstance) : Handler Unit := issue (.relDBConn pool)

def getCacheConn : Handler Ptr := issue .getCacheConn

def relCacheConn : Handler Unit := issue .relCacheConn

def query (q : Mysql.Query) : Handler (Option (List q.Row)) := issue (.query q)

def update (u : Mysql.Update) : Handler (Option Nat) := issue (.update u)

def execute (u : Mysql.Update) : Handler (Option Nat) := issue (.execute u)

def beginTransaction : Handler Bool := issue .startTransaction

def commitTransaction : Handler Bool := issue .commit

def rollbackTransaction : Handler Bool := issue .rollback

def prepare : Handler Bool := issue .prepare

def redisCall (c : Redis.Command) : Handler RedisResult := issue (.redis c)

def currentTime : Handler CString := issue (.sys .currentTime)

def randomString (len : Nat) : Handler CString := issue (.sys (.randomString len))

def spawnUUID : Handler CString := issue (.sys .spawnUUID)

def uninitialised : Handler CString := issue (.sys .uninitialised)

def system (cmd : CString) : Handler Int := issue (.sys (.system cmd))

def rename (oldPath newPath : CString) : Handler Int := issue (.sys (.rename oldPath newPath))

def unlink (path : CString) : Handler Int := issue (.sys (.unlink path))

def pipe : Handler Int := issue (.sys .pipe)

def fork : Handler ForkResult := issue (.sys .fork)

def execlp (file conf arg : CString) : Handler Unit := issue (.sys (.execlp file conf arg))

def readPipe (size : Nat) : Handler (List UInt8) := issue (.sys (.readPipe size))

def calloc (count : Int) (size : Nat) : Handler Bool := issue (.sys (.calloc count size))

def getShortUrl (url : CString) : Handler (Option CString) := issue (.sys (.getShortUrl url))

/-- A thrown exception ends the handler. -/
def orThrow {α : Type} : Option α → Handler α
  | some a => .ret a
  | none => .fail

@[simp] theorem orThrow_some {α : Type} (a : α) : orThrow (some a) = .ret a := rfl

@[simp] theorem orThrow_none {α : Type} : orThrow (none : Option α) = .fail := rfl

/-! ## Connections -/

/-- `GetDBConn` with `AUTO_REL_DBCONN`: the destructor gives the connection back
at every exit of the block; `RelDBConn(NULL)` does nothing. -/
def withDBConn {α : Type} (pool : DBInstance) (body : Ptr → Handler α) : Handler α := do
  let dbConn ← getDBConn pool
  let result ← body dbConn
  match dbConn with
  | .null => return result
  | .conn =>
      relDBConn pool
      return result

/-- `GetCacheConn("token")` with `AUTO_REL_CACHECONN`. -/
def withCacheConn {α : Type} (body : Ptr → Handler α) : Handler α := do
  let cacheConn ← getCacheConn
  let result ← body cacheConn
  match cacheConn with
  | .null => return result
  | .conn =>
      relCacheConn
      return result

/-- Where connections do not matter, neither does taking one. -/
theorem wp_withDBConn_of_idle {α σ : Type} {S : Lib.Sem Command Command.Reply σ}
    {pool : DBInstance} {body : Ptr → Handler α} {Q : α → σ → Prop} {s : σ}
    (hget : S.Idle (.getDBConn pool)) (hrel : S.Idle (.relDBConn pool))
    (hbody : ∀ ptr, Lib.wp S (body ptr) Q s) : Lib.wp S (withDBConn pool body) Q s := by
  refine ⟨(hget s).1, fun ptr s' hstep => ?_⟩
  obtain rfl := (hget s).2 ptr s' hstep
  show Lib.wp S (body ptr >>= _) Q s'
  rw [Lib.wp_bind]
  refine Lib.wp_mono (hbody ptr) fun a m hQ => ?_
  cases ptr with
  | null => exact hQ
  | conn =>
      refine ⟨(hrel m).1, fun u m' hstep => ?_⟩
      obtain rfl := (hrel m).2 u m' hstep
      exact hQ

theorem wp_withCacheConn_of_idle {α σ : Type} {S : Lib.Sem Command Command.Reply σ}
    {body : Ptr → Handler α} {Q : α → σ → Prop} {s : σ} (hget : S.Idle .getCacheConn)
    (hrel : S.Idle .relCacheConn) (hbody : ∀ ptr, Lib.wp S (body ptr) Q s) :
    Lib.wp S (withCacheConn body) Q s := by
  refine ⟨(hget s).1, fun ptr s' hstep => ?_⟩
  obtain rfl := (hget s).2 ptr s' hstep
  show Lib.wp S (body ptr >>= _) Q s'
  rw [Lib.wp_bind]
  refine Lib.wp_mono (hbody ptr) fun a m hQ => ?_
  cases ptr with
  | null => exact hQ
  | conn =>
      refine ⟨(hrel m).1, fun u m' hstep => ?_⟩
      obtain rfl := (hrel m).2 u m' hstep
      exact hQ

/-- Calling a method through a connection pointer: a NULL one is dereferenced. -/
def onConn {α : Type} (ptr : Ptr) (call : Handler α) : Handler α :=
  match ptr with
  | .null => .fail
  | .conn => call

@[simp] theorem onConn_conn {α : Type} (call : Handler α) : onConn .conn call = call := rfl

@[simp] theorem onConn_null {α : Type} (call : Handler α) : onConn .null call = .fail := rfl

/-! ## `CDBConn` -/

/-- `CDBConn::ExecuteQuery`: NULL or the result set. -/
def executeQuery (dbConn : Ptr) (q : Mysql.Query) : Handler (Option (List q.Row)) :=
  onConn dbConn (query q)

/-- `CDBConn::ExecuteUpdate`: with `careAffectedRows`, no affected row is a failure. -/
def executeUpdate (dbConn : Ptr) (u : Mysql.Update) (careAffectedRows : Bool) : Handler Bool :=
  onConn dbConn do
    let affectedRows ← update u
    match affectedRows with
    | none => return false
    | some affected => return decide (0 < affected) || !careAffectedRows

/-- `CDBConn::ExecuteCreate`, `ExecuteDrop` and `ExecutePassQuery`. -/
def executeCreate (dbConn : Ptr) (u : Mysql.Update) : Handler Bool :=
  onConn dbConn do
    let affectedRows ← update u
    return affectedRows.isSome

def executeDrop (dbConn : Ptr) (u : Mysql.Update) : Handler Bool := executeCreate dbConn u

def executePassQuery (dbConn : Ptr) (u : Mysql.Update) : Handler Bool := executeCreate dbConn u

def startTransaction (dbConn : Ptr) : Handler Bool :=
  onConn dbConn beginTransaction

def commit (dbConn : Ptr) : Handler Bool :=
  onConn dbConn commitTransaction

def rollback (dbConn : Ptr) : Handler Bool :=
  onConn dbConn rollbackTransaction

end Server
end TcMuzi
