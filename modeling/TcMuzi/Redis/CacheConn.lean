import TcMuzi.Server.Command

/-!
# `CacheConn`

The Redis commands as the handlers see them.  Each wrapper folds three outcomes
into its return value: `Init` fails, the connection breaks during the command
(hiredis answers NULL), or a reply arrives whose type the wrapper may or may not
check.  The sorted-set wrappers read the type of a NULL reply and crash.
-/

namespace TcMuzi
namespace Redis

open Base Server

/-- `reply->integer`, zero in a reply of another type. -/
def Reply.integerField : Reply → Int
  | .integer n => n
  | _ => 0

/-- `reply->str`, empty in a reply that has none. -/
def Reply.strField : Reply → CString
  | .status text => text
  | .error text => text
  | .string s => s
  | _ => CString.empty

namespace CacheConn

/-- `redisCommand` after `Init`. -/
def redisCommand (cacheConn : Ptr) (c : Redis.Command) : Handler RedisResult :=
  onConn cacheConn (redisCall c)

/-- `Get`: the empty string also when the key is missing or Redis cannot be read. -/
def get (cacheConn : Ptr) (key : CString) : Handler CString := do
  let result ← redisCommand cacheConn (.get key)
  match result with
  | .reply (.string s) => return s
  | _ => return CString.empty

/-- `Set` and `SetEx` return the text of the reply, whatever its type is. -/
def replyText (cacheConn : Ptr) (c : Redis.Command) : Handler CString := do
  let result ← redisCommand cacheConn c
  match result with
  | .reply r => return r.strField
  | _ => return CString.empty

def set (cacheConn : Ptr) (key value : CString) : Handler CString :=
  replyText cacheConn (.set key value)

def setEx (cacheConn : Ptr) (key : CString) (timeout : Nat) (value : CString) : Handler CString :=
  replyText cacheConn (.setex key timeout value)

/-- `Del`, `Hset` and `Hdel` return `reply->integer`, or a value of their own
when there is no reply. -/
def replyInteger (cacheConn : Ptr) (c : Redis.Command) (failed : Int) : Handler Int := do
  let result ← redisCommand cacheConn c
  match result with
  | .reply r => return r.integerField
  | _ => return failed

def del (cacheConn : Ptr) (key : CString) : Handler Int :=
  replyInteger cacheConn (.del key) 0

def hset (cacheConn : Ptr) (key field value : CString) : Handler Int :=
  replyInteger cacheConn (.hset key field value) (-1)

def hdel (cacheConn : Ptr) (key field : CString) : Handler Int :=
  replyInteger cacheConn (.hdel key field) (-1)

/-- `Incr` and `Decr`: the return code and the value behind the reference, which
both callers initialise to 0. -/
def addCommand (cacheConn : Ptr) (c : Redis.Command) : Handler (Int × Int) := do
  let result ← redisCommand cacheConn c
  match result with
  | .reply r => return (0, r.integerField)
  | _ => return (-1, 0)

def incr (cacheConn : Ptr) (key : CString) : Handler (Int × Int) :=
  addCommand cacheConn (.incr key)

def decr (cacheConn : Ptr) (key : CString) : Handler (Int × Int) :=
  addCommand cacheConn (.decr key)

/-- The bytes of a `RVALUES` entry. -/
def valuesIdSize : Nat := 1024

/-- `Hget` into a buffer: the value, or `none` for the return code -1. -/
def hget (cacheConn : Ptr) (key field : CString) : Handler (Option CString) := do
  let result ← redisCommand cacheConn (.hget key field)
  match result with
  | .reply (.string s) => return some (s.strncpy valuesIdSize)
  | _ => return none

/-- `ZsetExist`: 1 a member, 0 no member, -1 an error. -/
def zsetExist (cacheConn : Ptr) (key member : CString) : Handler Int := do
  let result ← redisCommand cacheConn (.zscore key member)
  match result with
  | .initFailed => return -1
  | .noReply => .fail
  | .reply .nil => return 0
  | .reply (.string _) => return 1
  | .reply _ => return -1

/-- `ZsetAdd` and `ZsetZrem`: 0 for an integer reply. -/
def zsetWrite (cacheConn : Ptr) (c : Redis.Command) : Handler Int := do
  let result ← redisCommand cacheConn c
  match result with
  | .initFailed => return -1
  | .noReply => .fail
  | .reply (.integer _) => return 0
  | .reply _ => return -1

def zsetAdd (cacheConn : Ptr) (key : CString) (score : Int) (member : CString) : Handler Int :=
  zsetWrite cacheConn (.zadd key score member)

def zsetZrem (cacheConn : Ptr) (key member : CString) : Handler Int :=
  zsetWrite cacheConn (.zrem key member)

/-- `ZsetIncr`: 0 for a string reply. -/
def zsetIncr (cacheConn : Ptr) (key member : CString) : Handler Int := do
  let result ← redisCommand cacheConn (.zincrby key member)
  match result with
  | .initFailed => return -1
  | .noReply => .fail
  | .reply (.string _) => return 0
  | .reply _ => return -1

/-- `ZsetZrevrange`: at most `endPos - fromPos + 1` members, each cut to its entry,
`none` for -1.  The comparison with the number of elements is unsigned. -/
def zsetZrevrange (cacheConn : Ptr) (key : CString) (fromPos endPos : Int) :
    Handler (Option (List CString)) := do
  let result ← redisCommand cacheConn (.zrevrange key fromPos endPos)
  let count := wrapInt32 (endPos - fromPos + 1)
  match result with
  | .initFailed => return none
  | .noReply => .fail
  | .reply (.array items) =>
      let got := if count < 0 then items else items.take count.toNat
      return some (got.map fun item => item.strncpy (valuesIdSize - 1))
  | .reply _ => return none

/-- `ZsetGetScore`: -1 also stands for a failure. -/
def zsetGetScore (cacheConn : Ptr) (key member : CString) : Handler Int := do
  let result ← redisCommand cacheConn (.zscore key member)
  match result with
  | .initFailed => return -1
  | .noReply => .fail
  | .reply (.string s) => return s.atoi
  | .reply _ => return -1

end CacheConn
end Redis
end TcMuzi
