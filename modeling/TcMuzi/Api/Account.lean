import TcMuzi.Api.Common

/-!
# `/api/reg` and `/api/login`
-/

namespace TcMuzi
namespace Api

open Base Server Redis

/-! ## Registration -/

structure RegisterMsg where
  userName : CString
  nickName : CString
  pwd : CString
  phone : CString
  email : CString

/-- An optional member: absent ones are the empty string. -/
def extractOptional (root : Json) (field : String) : Handler CString := do
  let value ← extractField root field
  return value.getD CString.empty

def decodeRegisterJson (reader : JsonReader) (postData : List UInt8) :
    Handler (Option RegisterMsg) := do
  let some root := reader postData | return none
  let some userName ← extractField root "userName" | return none
  let some nickName ← extractField root "nickName" | return none
  let some pwd ← extractField root "firstPwd" | return none
  let phone ← extractOptional root "phone"
  let email ← extractOptional root "email"
  return some ⟨userName, nickName, pwd, phone, email⟩

/-- 0 registered, 1 the insert failed, 2 the user exists.  A statement that cannot
be prepared leaves the code at 0. -/
def registerUser (msg : RegisterMsg) : Handler Int :=
  withDBConn .tuchuangMaster fun dbConn => do
    let resultSet : Option (List Mysql.UserInfo) ← executeQuery dbConn (.userByName msg.userName)
    match resultSet with
    | some (_ :: _) => return 2
    | _ =>
        let createTime ← currentTime
        let prepared ← onConn dbConn prepare
        if prepared then
          let affectedRows ← onConn dbConn (execute (.insertUser
            ⟨msg.userName, msg.nickName, msg.pwd, msg.phone, msg.email, createTime⟩))
          match affectedRows with
          | some (_ + 1) => return 0
          | _ => return 1
        else
          return 0

def apiRegisterUser (reader : JsonReader) (postData : List UInt8) : Handler Response :=
  if postData = [] then
    return (-1, some (encodeCode 1))
  else do
    let some msg ← decodeRegisterJson reader postData | return (-1, some (encodeCode 1))
    let ret ← registerUser msg
    return (0, some (encodeCode ret))

/-! ## Login -/

def decodeLoginJson (reader : JsonReader) (postData : List UInt8) :
    Handler (Option (CString × CString)) := do
  let some root := reader postData | return none
  let some userName ← extractField root "user" | return none
  let some pwd ← extractField root "pwd" | return none
  return some (userName, pwd)

def encodeLoginJson (ret : Int) (token : CString) : Json :=
  Json.withCode ret (if ret = 0 then [(CString.lit "token", .str token)] else [])

def verifyUserPassword (userName pwd : CString) : Handler Int :=
  withDBConn .tuchuangSlave fun dbConn => do
    let resultSet : Option (List CString) ← executeQuery dbConn (.passwordOf userName)
    match resultSet with
    | some (password :: _) => return if password = pwd then 0 else -1
    | _ => return -1

/-- Seconds until a token expires. -/
def tokenTimeout : Nat := 86400

/-- `setToken`: the code and the generated token.  The answer of `SetEx` is not read. -/
def setToken (userName : CString) : Handler (Int × CString) :=
  withCacheConn fun cacheConn => do
    let token ← randomString 32
    match cacheConn with
    | .conn =>
        let _ ← CacheConn.setEx cacheConn userName tokenTimeout token
        return (0, token)
    | .null => return (-1, token)

def apiUserLogin (reader : JsonReader) (postData : List UInt8) : Handler Response :=
  if postData = [] then
    return (-1, none)
  else do
    let some (userName, pwd) ← decodeLoginJson reader postData
      | return (-1, some (encodeLoginJson 1 CString.empty))
    let verified ← verifyUserPassword userName pwd
    if verified < 0 then
      return (-1, some (encodeLoginJson 1 CString.empty))
    else
      let (ret, token) ← setToken userName
      if ret < 0 then
        return (-1, some (encodeLoginJson 1 token))
      else
        return (0, some (encodeLoginJson 0 token))

end Api
end TcMuzi
