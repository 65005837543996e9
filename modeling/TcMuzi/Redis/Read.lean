import TcMuzi.Base.CString
import TcMuzi.Base.Int32

/-!
# The reply reader of hiredis

`read.c`: the bytes of a connection are appended to a buffer, and `redisReaderGetReply` reads
items from it with an explicit stack of tasks, one for every array that is being read.  An item
whose bytes are not all there is read again from its length on when more has come.

* A reply that is being built is kept by the tasks of its arrays (`ReadTask.element`) and gets
  into the element list of the array around it when it is complete; the source stores a pointer
  there when the object is created.  Nobody sees a reply before its root is complete.
* Allocations do not fail.  The positions of `sdsrange` are `int`s, so a buffer with more than
  `INT_MAX` bytes loses some of them; those of `seekNewline` are not cut down here.
* `redisReaderFeed` of the source also replaces an empty buffer that is large.
-/

namespace TcMuzi
namespace Redis
namespace Read

open Base

/-- `redisReply`. -/
inductive RedisReply
  | string (str : List UInt8)
  | array (element : List RedisReply)
  | integer (integer : Int)
  | nil
  | status (str : List UInt8)
  | error (str : List UInt8)

/-- The `type` of a task, once its byte has been read. -/
inductive ItemType
  | error
  | status
  | integer
  | string
  | array
deriving DecidableEq

/-- `redisReadTask`. -/
structure ReadTask where
  -- `none` is -1
  type : Option ItemType
  elements : Int
  idx : Int
  -- the elements that `obj`, an array, has so far
  element : List RedisReply

/-- A task whose item can be anything. -/
def ReadTask.fresh (idx : Int) : ReadTask := ⟨none, -1, idx, []⟩

/-- `sdsrange`: the bytes from `start` to `last`, negative positions from the end on. -/
def sdsrange (s : List UInt8) (start last : Int) : List UInt8 :=
  if s = [] then s
  else
    let len := wrapInt32 s.length
    let start := if start < 0 then max 0 (wrapInt32 (s.length + start)) else start
    let last := if last < 0 then max 0 (wrapInt32 (s.length + last)) else last
    if last < start ∨ len ≤ start then []
    else
      let last := if len ≤ last then wrapInt32 (s.length - 1) else last
      let newlen := if last < start then 0 else last - start + 1
      (s.drop start.toNat).take newlen.toNat

/-- `redisReader`. -/
structure RedisReader where
  -- the text of a `REDIS_ERR_PROTOCOL`
  err : Option (List UInt8)
  buf : List UInt8
  pos : Nat
  -- `rstack` from `ridx` down to 0, empty when `ridx` is -1
  rstack : List ReadTask
  reply : Option RedisReply

namespace RedisReader

def create : RedisReader := ⟨none, [], 0, [], none⟩

/-- The bytes from `pos` on. -/
def unread (r : RedisReader) : List UInt8 := r.buf.drop r.pos

/-- `__redisReaderSetError`. -/
def setError (_ : RedisReader) (str : List UInt8) : RedisReader := ⟨some str, [], 0, [], none⟩

end RedisReader

/-! ## Errors -/

/-- A digit of `%02x`. -/
def lowerHex (n : Nat) : UInt8 := UInt8.ofNat (if n < 10 then 48 + n else 87 + n)

/-- `chrtos`. -/
def chrtos (byte : UInt8) : List UInt8 :=
  if byte = 92 ∨ byte = 34 then [34, 92, byte, 34]
  else if byte = 10 then [34, 92, 110, 34]
  else if byte = 13 then [34, 92, 114, 34]
  else if byte = 9 then [34, 92, 116, 34]
  else if byte = 7 then [34, 92, 97, 34]
  else if byte = 8 then [34, 92, 98, 34]
  else if 32 ≤ byte ∧ byte ≤ 126 then [34, byte, 34]
  else [34, 92, 120, lowerHex (byte.toNat / 16), lowerHex (byte.toNat % 16), 34]

def protocolByte (byte : UInt8) : List UInt8 :=
  (CString.lit "Protocol error, got ").bytes ++ chrtos byte ++
    (CString.lit " as reply type byte").bytes

def badInteger : List UInt8 := (CString.lit "Bad integer value").bytes
def badBulkLength : List UInt8 := (CString.lit "Bad bulk string length").bytes
def bulkOutOfRange : List UInt8 := (CString.lit "Bulk string length out of range").bytes
def badMultiBulkLength : List UInt8 := (CString.lit "Bad multi-bulk length").bytes
def multiBulkOutOfRange : List UInt8 := (CString.lit "Multi-bulk length out of range").bytes
def tooDeep : List UInt8 :=
  (CString.lit "No support for nested multi bulk replies with depth > 7").bytes

/-! ## Lines and numbers -/

/-- `seekNewline`: the position of the first `\r\n`. -/
def seekNewline : List UInt8 → Option Nat
  | c :: d :: rest => if c = 13 ∧ d = 10 then some 0 else (seekNewline (d :: rest)).map (· + 1)
  | _ => none

/-- The digit loop of `string2ll`, with both tests against `ULLONG_MAX`. -/
def string2llDigits : Nat → List UInt8 → Option Nat
  | v, [] => some v
  | v, c :: p =>
      if 48 ≤ c ∧ c ≤ 57 then
        if 18446744073709551615 / 10 < v then none
        else if 18446744073709551615 - (c - 48).toNat < v * 10 then none
        else string2llDigits (v * 10 + (c - 48).toNat) p
      else none

/-- `string2ll`: `none` is `REDIS_ERR`. -/
def string2ll (s : List UInt8) : Option Int :=
  if s = [] then none
  else if s = [48] then some 0
  else
    let negative : Bool := s.head? = some 45
    match if negative then s.tail else s with
    | [] => none
    | c :: p =>
        if 49 ≤ c ∧ c ≤ 57 then
          match string2llDigits (c - 48).toNat p with
          | none => none
          | some v =>
              if negative then if 9223372036854775808 < v then none else some (-(v : Int))
              else if 9223372036854775807 < v then none else some v
        else none

/-! ## Items -/

/-- `moveToNextTask` with `cur` on top of the stack, behind its complete object: the root, when
that is complete, and the stack. -/
def moveToNextTask : RedisReply → ReadTask → List ReadTask → Option RedisReply × List ReadTask
  | obj, _, [] => (some obj, [])
  | obj, cur, prv :: rest =>
      let prv := { prv with element := prv.element ++ [obj] }
      if cur.idx = prv.elements - 1 then moveToNextTask (.array prv.element) prv rest
      else (none, { cur with type := none, elements := -1, idx := cur.idx + 1 } :: prv :: rest)

/-- The object of the current task is complete. -/
def RedisReader.complete (r : RedisReader) (obj : RedisReply) : RedisReader :=
  match r.rstack with
  | [] => r
  | cur :: rest =>
      { r with
        rstack := (moveToNextTask obj cur rest).2
        reply := (moveToNextTask obj cur rest).1 }

/-- `readLine`. -/
def readLine (r : RedisReader) : Option (List UInt8 × RedisReader) :=
  (seekNewline r.unread).map fun len => (r.unread.take len, { r with pos := r.pos + len + 2 })

/-- `processLineItem`; `true` is `REDIS_OK`. -/
def processLineItem (type : ItemType) (r : RedisReader) : Bool × RedisReader :=
  match readLine r with
  | none => (false, r)
  | some (p, r) =>
      if type = .integer then
        match string2ll p with
        | none => (false, r.setError badInteger)
        | some v => (true, r.complete (.integer v))
      else if type = .error then (true, r.complete (.error p))
      else (true, r.complete (.status p))

/-- `processBulkItem`: the two bytes behind the string are not looked at. -/
def processBulkItem (r : RedisReader) : Bool × RedisReader :=
  match seekNewline r.unread with
  | none => (false, r)
  | some s =>
      match string2ll (r.unread.take s) with
      | none => (false, r.setError badBulkLength)
      | some len =>
          if len < -1 then (false, r.setError bulkOutOfRange)
          else if len = -1 then (true, { r with pos := r.pos + (s + 2) }.complete .nil)
          else
            let bytelen := s + 2 + (len.toNat + 2)
            if r.pos + bytelen ≤ r.buf.length then
              (true, { r with pos := r.pos + bytelen }.complete
                (.string ((r.unread.drop (s + 2)).take len.toNat)))
            else (false, r)

/-- A task for the first element of an array. -/
def RedisReader.push (r : RedisReader) (elements : Int) : RedisReader :=
  match r.rstack with
  | [] => r
  | cur :: rest =>
      { r with rstack := .fresh 0 :: { cur with elements := elements, element := [] } :: rest }

/-- `processMultiBulkItem`. -/
def processMultiBulkItem (r : RedisReader) : Bool × RedisReader :=
  if r.rstack.length = 9 then (false, r.setError tooDeep)
  else
    match readLine r with
    | none => (false, r)
    | some (p, r) =>
        match string2ll p with
        | none => (false, r.setError badMultiBulkLength)
        | some elements =>
            if elements < -1 ∨ 2147483647 < elements then (false, r.setError multiBulkOutOfRange)
            else if elements = -1 then (true, r.complete .nil)
            else if 0 < elements then (true, r.push elements)
            else (true, r.complete (.array []))

/-- The type byte. -/
def itemType (byte : UInt8) : Option ItemType :=
  if byte = 45 then some .error
  else if byte = 43 then some .status
  else if byte = 58 then some .integer
  else if byte = 36 then some .string
  else if byte = 42 then some .array
  else none

def processTyped (type : ItemType) (r : RedisReader) : Bool × RedisReader :=
  match type with
  | .error => processLineItem .error r
  | .status => processLineItem .status r
  | .integer => processLineItem .integer r
  | .string => processBulkItem r
  | .array => processMultiBulkItem r

/-- `processItem`. -/
def processItem (r : RedisReader) : Bool × RedisReader :=
  match r.rstack with
  | [] => (false, r)
  | cur :: rest =>
      match cur.type with
      | some type => processTyped type r
      | none =>
          match r.unread with
          | [] => (false, r)
          | byte :: _ =>
              match itemType byte with
              | none => (false, { r with pos := r.pos + 1 }.setError (protocolByte byte))
              | some type =>
                  processTyped type
                    { r with pos := r.pos + 1, rstack := { cur with type := some type } :: rest }

/-- "Process items in reply": every item takes a byte, so there are not more of them than bytes. -/
def processItems : Nat → RedisReader → RedisReader
  | 0, r => r
  | fuel + 1, r =>
      if r.rstack = [] then r
      else
        match processItem r with
        | (true, r) => processItems fuel r
        | (false, r) => r

/-- `redisReaderFeed`. -/
def redisReaderFeed (r : RedisReader) (buf : List UInt8) : Bool × RedisReader :=
  if r.err.isSome then (false, r) else (true, { r with buf := r.buf ++ buf })

/-- `redisReaderGetReply`: the status, the reply if there is one, and the reader. -/
def redisReaderGetReply (r : RedisReader) : Bool × Option RedisReply × RedisReader :=
  if r.err.isSome then (false, none, r)
  else if r.buf.length = 0 then (true, none, r)
  else
    let r := if r.rstack = [] then { r with rstack := [.fresh (-1)] } else r
    let r := processItems (r.unread.length + 1) r
    if r.err.isSome then (false, none, r)
    else
      -- `pos` becomes an `int`
      let r := if 1024 ≤ r.pos then
          { r with buf := sdsrange r.buf (wrapInt32 r.pos) (-1), pos := 0 } else r
      if r.rstack = [] then (true, r.reply, { r with reply := none }) else (true, none, r)

end Read
end Redis
end TcMuzi
