import Mathlib.Data.List.AList
import Mathlib.Data.List.Sort
import TcMuzi.Base.CString

/-!
# The Redis keyspace

The commands that `CacheConn` issues, over a keyspace of strings, sorted sets and
hashes.  Scores are integers, since only integers are ever added.  A key whose
sorted set or hash becomes empty disappears; `SETEX` marks a key as volatile and
any later `SET` makes it persistent again.  Every command touches one key.

`zsetOf`, `hashOf` and `counterOf` read a key as one kind of value, a missing key
being an empty one; a key of another kind makes the command answer an error.
-/

namespace TcMuzi
namespace Redis

open Base

/-- Members with their scores, or fields with their values. -/
abbrev ZSet := AList fun _ : CString => Int

abbrev Hash := AList fun _ : CString => CString

inductive Value
  | str (s : CString)
  | zset (members : ZSet)
  | hash (fields : Hash)

structure Entry where
  value : Value
  -- seconds given by SETEX; `none` for a key that does not expire
  ttl : Option Nat

abbrev Keyspace := AList fun _ : CString => Entry

/-- The types of a `redisReply`. -/
inductive Reply
  | nil
  | status (text : CString)
  | error (text : CString)
  | integer (n : Int)
  | string (s : CString)
  | array (items : List CString)
deriving DecidableEq

inductive Command
  | get (key : CString)
  | set (key value : CString)
  | setex (key : CString) (seconds : Nat) (value : CString)
  | del (key : CString)
  | incr (key : CString)
  | decr (key : CString)
  | hset (key field value : CString)
  | hget (key field : CString)
  | hdel (key field : CString)
  | zscore (key member : CString)
  | zadd (key : CString) (score : Int) (member : CString)
  | zrem (key member : CString)
  | zincrby (key member : CString)
  | zrevrange (key : CString) (first last : Int)
deriving DecidableEq

/-- The key a command works on. -/
def Command.key : Command → CString
  | .get key | .set key _ | .setex key _ _ | .del key | .incr key | .decr key
  | .hset key _ _ | .hget key _ | .hdel key _ | .zscore key _ | .zadd key _ _
  | .zrem key _ | .zincrby key _ | .zrevrange key _ _ => key

def statusOk : Reply := .status (CString.lit "OK")

def wrongType : Reply :=
  .error (CString.lit "WRONGTYPE Operation against a key holding the wrong kind of value")

def notInteger : Reply := .error (CString.lit "ERR value is not an integer or out of range")

/-- The value stored at a key. -/
def valueAt (ks : Keyspace) (key : CString) : Option Value := (ks.lookup key).map (·.value)

/-- Store a value and keep the key's time to live. -/
def store (ks : Keyspace) (key : CString) (value : Value) : Keyspace :=
  ks.insert key ⟨value, (ks.lookup key).bind (·.ttl)⟩

/-- Store a sorted set; an empty one removes the key. -/
def storeZset (ks : Keyspace) (key : CString) (members : ZSet) : Keyspace :=
  if members.entries.isEmpty then ks.erase key else store ks key (.zset members)

/-- Store a hash; an empty one removes the key. -/
def storeHash (ks : Keyspace) (key : CString) (fields : Hash) : Keyspace :=
  if fields.entries.isEmpty then ks.erase key else store ks key (.hash fields)

/-- `string2ll`: the decimal form of a 64-bit integer. -/
def string2ll (s : CString) : Option Int :=
  Lib.Decimal.parse (-9223372036854775808) 9223372036854775807 s.bytes

/-- The sorted set at a key. -/
def zsetOf (ks : Keyspace) (key : CString) : Option ZSet :=
  match valueAt ks key with
  | none => some ∅
  | some (.zset members) => some members
  | some _ => none

/-- The hash at a key. -/
def hashOf (ks : Keyspace) (key : CString) : Option Hash :=
  match valueAt ks key with
  | none => some ∅
  | some (.hash fields) => some fields
  | some _ => none

/-- The number that `INCR` and `DECR` find at a key. -/
def counterOf (ks : Keyspace) (key : CString) : Except Reply Int :=
  match valueAt ks key with
  | none => .ok 0
  | some (.str s) =>
      match string2ll s with
      | some n => .ok n
      | none => .error notInteger
  | some _ => .error wrongType

/-- `INCR` and `DECR`. -/
def addTo (ks : Keyspace) (key : CString) (delta : Int) : Reply × Keyspace :=
  match counterOf ks key with
  | .error e => (e, ks)
  | .ok n =>
      if -9223372036854775808 ≤ n + delta ∧ n + delta ≤ 9223372036854775807 then
        (.integer (n + delta), store ks key (.str (CString.ofInt (n + delta))))
      else
        (notInteger, ks)

/-- The order of a sorted set: by score, members of one score by their bytes. -/
def zsetLe (a b : (_ : CString) × Int) : Prop :=
  a.2 < b.2 ∨ (a.2 = b.2 ∧ ¬ b.1.bytes < a.1.bytes)

instance : DecidableRel zsetLe := fun a b => by unfold zsetLe; infer_instance

/-- Members from the highest rank down. -/
def zsetDesc (members : ZSet) : List CString :=
  ((members.entries.insertionSort zsetLe).map (·.1)).reverse

/-- The inclusive index range of `ZREVRANGE`; negative indices count from the end. -/
def rangeOf (first last : Int) (items : List CString) : List CString :=
  let len : Int := items.length
  let first := max 0 (if first < 0 then first + len else first)
  let last := if last < 0 then last + len else last
  if last < first then [] else (items.drop first.toNat).take (last - first + 1).toNat

/-- The reply to a command and the keyspace after it. -/
def Command.exec : Command → Keyspace → Reply × Keyspace
  | .get key, ks =>
      match valueAt ks key with
      | none => (.nil, ks)
      | some (.str s) => (.string s, ks)
      | some _ => (wrongType, ks)
  | .set key value, ks => (statusOk, ks.insert key ⟨.str value, none⟩)
  | .setex key seconds value, ks =>
      if seconds = 0 then (.error (CString.lit "ERR invalid expire time in 'setex' command"), ks)
      else (statusOk, ks.insert key ⟨.str value, some seconds⟩)
  | .del key, ks => (.integer (if key ∈ ks then 1 else 0), ks.erase key)
  | .incr key, ks => addTo ks key 1
  | .decr key, ks => addTo ks key (-1)
  | .hset key field value, ks =>
      match hashOf ks key with
      | none => (wrongType, ks)
      | some fields =>
          (.integer (if field ∈ fields then 0 else 1), storeHash ks key (fields.insert field value))
  | .hget key field, ks =>
      match hashOf ks key with
      | none => (wrongType, ks)
      | some fields => ((fields.lookup field).elim .nil .string, ks)
  | .hdel key field, ks =>
      match hashOf ks key with
      | none => (wrongType, ks)
      | some fields =>
          (.integer (if field ∈ fields then 1 else 0), storeHash ks key (fields.erase field))
  | .zscore key member, ks =>
      match zsetOf ks key with
      | none => (wrongType, ks)
      | some members =>
          ((members.lookup member).elim .nil fun score => .string (CString.ofInt score), ks)
  | .zadd key score member, ks =>
      match zsetOf ks key with
      | none => (wrongType, ks)
      | some members =>
          (.integer (if member ∈ members then 0 else 1),
            storeZset ks key (members.insert member score))
  | .zrem key member, ks =>
      match zsetOf ks key with
      | none => (wrongType, ks)
      | some members =>
          (.integer (if member ∈ members then 1 else 0), storeZset ks key (members.erase member))
  | .zincrby key member, ks =>
      match zsetOf ks key with
      | none => (wrongType, ks)
      | some members =>
          let score := (members.lookup member).getD 0 + 1
          (.string (CString.ofInt score), storeZset ks key (members.insert member score))
  | .zrevrange key first last, ks =>
      match zsetOf ks key with
      | none => (wrongType, ks)
      | some members => (.array (rangeOf first last (zsetDesc members)), ks)

/-- A command succeeded when it did not answer an error. -/
def Reply.isError : Reply → Bool
  | .error _ => true
  | _ => false

/-! ## What a key holds depends on the key only -/

theorem valueAt_congr {ks ks' : Keyspace} {key : CString} (h : ks'.lookup key = ks.lookup key) :
    valueAt ks' key = valueAt ks key := by
  rw [valueAt, valueAt, h]

theorem zsetOf_congr {ks ks' : Keyspace} {key : CString} (h : ks'.lookup key = ks.lookup key) :
    zsetOf ks' key = zsetOf ks key := by
  rw [zsetOf, zsetOf, valueAt_congr h]

theorem hashOf_congr {ks ks' : Keyspace} {key : CString} (h : ks'.lookup key = ks.lookup key) :
    hashOf ks' key = hashOf ks key := by
  rw [hashOf, hashOf, valueAt_congr h]

theorem counterOf_congr {ks ks' : Keyspace} {key : CString} (h : ks'.lookup key = ks.lookup key) :
    counterOf ks' key = counterOf ks key := by
  rw [counterOf, counterOf, valueAt_congr h]

/-- The reply to a command depends on its key only. -/
theorem exec_fst_congr (c : Command) {ks ks' : Keyspace}
    (h : ks'.lookup c.key = ks.lookup c.key) : (c.exec ks').1 = (c.exec ks).1 := by
  have hzset := zsetOf_congr h
  have hhash := hashOf_congr h
  have hvalue := valueAt_congr h
  have hmem : c.key ∈ ks' ↔ c.key ∈ ks := by
    rw [← AList.lookup_isSome, ← AList.lookup_isSome, h]
  have hadd : ∀ delta, (addTo ks' c.key delta).1 = (addTo ks c.key delta).1 := by
    intro delta
    rw [addTo, addTo, counterOf_congr h]
    split
    · rfl
    · split <;> rfl
  cases c <;> simp only [Command.key] at hzset hhash hvalue hmem hadd <;>
    simp only [Command.exec, hzset, hhash, hvalue, hmem, hadd]
  case setex => split <;> rfl
  all_goals split <;> rfl

/-! ## Storing -/

theorem lookup_store_ne (ks : Keyspace) {key other : CString} (value : Value)
    (h : other ≠ key) : (store ks key value).lookup other = ks.lookup other :=
  AList.lookup_insert_ne h

theorem lookup_storeZset_ne (ks : Keyspace) {key other : CString} (members : ZSet)
    (h : other ≠ key) : (storeZset ks key members).lookup other = ks.lookup other := by
  unfold storeZset
  split
  · exact AList.lookup_erase_ne h
  · exact lookup_store_ne ks _ h

theorem lookup_storeHash_ne (ks : Keyspace) {key other : CString} (fields : Hash)
    (h : other ≠ key) : (storeHash ks key fields).lookup other = ks.lookup other := by
  unfold storeHash
  split
  · exact AList.lookup_erase_ne h
  · exact lookup_store_ne ks _ h

@[simp] theorem valueAt_store (ks : Keyspace) (key : CString) (value : Value) :
    valueAt (store ks key value) key = some value := by
  simp [valueAt, store]

/-- A stored sorted set reads back, also when it is empty. -/
@[simp] theorem zsetOf_storeZset (ks : Keyspace) (key : CString) (members : ZSet) :
    zsetOf (storeZset ks key members) key = some members := by
  unfold storeZset
  split
  · rename_i hempty
    have hentries : members = ∅ := AList.ext (List.isEmpty_iff.mp hempty)
    simp [zsetOf, valueAt, hentries]
  · simp [zsetOf]

/-- A stored hash reads back, also when it is empty. -/
@[simp] theorem hashOf_storeHash (ks : Keyspace) (key : CString) (fields : Hash) :
    hashOf (storeHash ks key fields) key = some fields := by
  unfold storeHash
  split
  · rename_i hempty
    have hentries : fields = ∅ := AList.ext (List.isEmpty_iff.mp hempty)
    simp [hashOf, valueAt, hentries]
  · simp [hashOf]

/-- A stored number in the 64-bit range reads back. -/
theorem counterOf_ofInt {ks : Keyspace} {key : CString} {n : Int}
    (hvalue : valueAt ks key = some (.str (CString.ofInt n)))
    (hlo : -9223372036854775808 ≤ n) (hhi : n ≤ 9223372036854775807) :
    counterOf ks key = .ok n := by
  have hread : string2ll (CString.ofInt n) = some n := Lib.Decimal.parse_ofInt hlo hhi
  simp only [counterOf, hvalue, hread]

theorem lookup_addTo_ne (ks : Keyspace) {key other : CString} (delta : Int) (h : other ≠ key) :
    (addTo ks key delta).2.lookup other = ks.lookup other := by
  unfold addTo
  split
  · rfl
  · split
    · exact lookup_store_ne ks _ h
    · rfl

/-- A command leaves every other key alone. -/
theorem lookup_exec_of_ne (c : Command) (ks : Keyspace) {other : CString} (h : other ≠ c.key) :
    (c.exec ks).2.lookup other = ks.lookup other := by
  have hzset := fun members => @lookup_storeZset_ne ks c.key other members h
  have hhash := fun fields => @lookup_storeHash_ne ks c.key other fields h
  have hadd := fun delta => @lookup_addTo_ne ks c.key other delta h
  cases c <;> simp only [Command.key] at h hzset hhash hadd <;> simp only [Command.exec]
  case set => exact AList.lookup_insert_ne h
  case setex =>
    split
    · rfl
    · exact AList.lookup_insert_ne h
  case del => exact AList.lookup_erase_ne h
  case incr => exact hadd 1
  case decr => exact hadd (-1)
  all_goals
    split
    all_goals simp only [hzset, hhash]

end Redis
end TcMuzi
