import TcMuzi.Api.Request
import TcMuzi.Server.Sequential

/-!
# Requests while Redis and MySQL may fail

`attempt` is the meaning of one login or token check: MySQL answers or fails, and Redis
serves the only command it is sent in one of four ways.  `unreliable` lets every command
of a request fail on its own and leaves the tables to the statements.  The rules say what
`VerifyToken`, `verifyUserPassword` and `setToken` return and store.
-/

namespace TcMuzi
namespace Session

open Base Server Redis Api Lib

/-! ## What the surroundings answer -/

/-- How Redis serves a call. -/
inductive RedisOutcome
  -- the pool has no connection
  | noConn
  -- not executed: no context, a broken connection, an error reply
  | failed
  -- executed, but the connection broke before the reply
  | lost
  | answered
deriving DecidableEq

/-- The call executed its command. -/
def RedisOutcome.Executed (o : RedisOutcome) : Prop := o = .lost ∨ o = .answered

instance (o : RedisOutcome) : Decidable o.Executed := by
  unfold RedisOutcome.Executed
  infer_instance

/-- What a command that is not executed answers. -/
def Unserved : RedisResult → Prop
  | .initFailed => True
  | .noReply => True
  | .reply r => r.isError = true

def redisStep (o : RedisOutcome) (c : Redis.Command) (ks : Keyspace) (r : RedisResult)
    (ks' : Keyspace) : Prop :=
  match o with
  | .answered => r = .reply (c.exec ks).1 ∧ ks' = (c.exec ks).2
  | .lost => r = .noReply ∧ ks' = (c.exec ks).2
  | .failed => Unserved r ∧ ks' = ks
  | .noConn => Unserved r ∧ ks' = ks

/-- `sql` says whether `SELECT` statements are answered.  `RandomString` yields as many
letters as it is asked for. -/
def attemptStep (sql : Bool) (o : RedisOutcome) : (c : Server.Command) → World → c.Reply →
    World → Prop
  | .query q, w, r, w' => w' = w ∧ r = if sql then q.exec w.db else none
  | .getCacheConn, w, r, w' => w' = w ∧ (r = .null ↔ o = .noConn)
  | .redis c, w, r, w' => ∃ ks, redisStep o c w.redis r ks ∧ w' = { w with redis := ks }
  | .sys (.randomString len), w, r, w' =>
      w' = w ∧ r.length = len ∧ ∀ b ∈ r.bytes, 97 ≤ b ∧ b ≤ 122
  | c, w, r, w' => okStep c w r w'

def attempt (sql : Bool) (o : RedisOutcome) : Sem Server.Command Command.Reply World where
  step := attemptStep sql o

/-- Any answer of any command; only Redis commands change the keyspace. -/
def unreliableStep : (c : Server.Command) → World → c.Reply → World → Prop
  | .redis c, w, r, w' => ∃ o ks, redisStep o c w.redis r ks ∧ w' = { w with redis := ks }
  | _, w, _, w' => w'.redis = w.redis

def unreliable : Sem Server.Command Command.Reply World where
  step := unreliableStep

/-! ## Rules -/

section Rules

variable {sql : Bool} {o : RedisOutcome}

theorem wp_attempt_getCacheConn {Q : Ptr → World → Prop} {w : World}
    (h : Q (if o = .noConn then .null else .conn) w) :
    wp (attempt sql o) getCacheConn Q w := by
  refine ⟨trivial, ?_⟩
  rintro ptr w' ⟨rfl, hnull⟩
  have hptr : ptr = if o = .noConn then .null else .conn := by
    split
    · exact hnull.mpr (by assumption)
    · cases ptr with
      | null => exact absurd (hnull.mp rfl) (by assumption)
      | conn => rfl
  rw [hptr]
  exact h

theorem wp_attempt_withCacheConn {α : Type} {body : Ptr → Handler α} {Q : α → World → Prop}
    {w : World}
    (h : wp (attempt sql o) (body (if o = .noConn then .null else .conn)) Q w) :
    wp (attempt sql o) (withCacheConn body) Q w := by
  rw [withCacheConn, wp_bind]
  refine wp_attempt_getCacheConn ?_
  rw [wp_bind]
  refine wp_mono h fun a w' hQ => ?_
  split
  · exact hQ
  · refine ⟨trivial, ?_⟩
    rintro r _ rfl
    exact hQ

theorem wp_attempt_withDBConn {α : Type} {pool : DBInstance} {body : Ptr → Handler α}
    {Q : α → World → Prop} {w : World} (h : ∀ ptr, wp (attempt sql o) (body ptr) Q w) :
    wp (attempt sql o) (withDBConn pool body) Q w := by
  refine ⟨trivial, ?_⟩
  rintro ptr _ rfl
  show wp (attempt sql o) (body ptr >>= _) Q _
  rw [wp_bind]
  refine wp_mono (h ptr) fun a w' hQ => ?_
  cases ptr with
  | null => exact hQ
  | conn =>
      refine ⟨trivial, ?_⟩
      rintro r _ rfl
      exact hQ

/-- A call of a NULL connection returns nothing. -/
theorem wp_attempt_onConn {α : Type} {ptr : Ptr} {call : Handler α} {Q : α → World → Prop}
    {w : World} (h : wp (attempt sql o) call Q w) :
    wp (attempt sql o) (onConn ptr call) Q w := by
  cases ptr with
  | null => trivial
  | conn => exact h

/-- What `Get` returns. -/
def readString (o : RedisOutcome) (ks : Keyspace) (key : CString) : CString :=
  if o = .answered then (stringAt ks key).elim CString.empty Prod.fst else CString.empty

/-- Only a string reply has a value. -/
def stringReply : RedisResult → CString
  | .reply (.string s) => s
  | _ => CString.empty

theorem stringReply_of_unserved {r : RedisResult} (h : Unserved r) :
    stringReply r = CString.empty := by
  cases r with
  | initFailed => rfl
  | noReply => rfl
  | reply r =>
      cases r with
      | error text => rfl
      | _ => cases h

theorem stringReply_get (ks : Keyspace) (key : CString) :
    stringReply (.reply ((Redis.Command.get key).exec ks).1) =
      (stringAt ks key).elim CString.empty Prod.fst := by
  obtain ⟨_, hreply⟩ := exec_get ks key
  rcases hstring : stringAt ks key with _ | ⟨s, ttl⟩
  · rw [hstring] at hreply
    cases hexec : ((Redis.Command.get key).exec ks).1 with
    | string s => exact absurd hexec (hreply s)
    | _ => rfl
  · rw [hstring] at hreply
    rw [hreply]
    rfl

theorem stringReply_of_redisStep {key : CString} {ks ks' : Keyspace} {r : RedisResult}
    (h : redisStep o (.get key) ks r ks') : stringReply r = readString o ks key ∧ ks' = ks := by
  cases o with
  | answered =>
      obtain ⟨rfl, rfl⟩ := h
      exact ⟨stringReply_get ks key, (exec_get ks key).1⟩
  | lost =>
      obtain ⟨rfl, rfl⟩ := h
      exact ⟨rfl, (exec_get ks key).1⟩
  | failed => exact ⟨stringReply_of_unserved h.1, h.2⟩
  | noConn => exact ⟨stringReply_of_unserved h.1, h.2⟩

theorem wp_attempt_get {key : CString} {Q : CString → World → Prop} {w : World}
    (h : Q (readString o w.redis key) w) :
    wp (attempt sql o) (CacheConn.get .conn key) Q w := by
  refine ⟨trivial, ?_⟩
  rintro r _ ⟨ks, hstep, rfl⟩
  obtain ⟨hr, rfl⟩ := stringReply_of_redisStep hstep
  rw [← hr] at h
  cases r with
  | reply r => cases r <;> exact h
  | _ => exact h

/-- `VerifyToken` compares the presented string with what `Get` returns. -/
theorem wp_attempt_verifyToken {user token : CString} {Q : Int → World → Prop} {w : World}
    (h : Q (if o ≠ .noConn ∧ readString o w.redis user = token then 0 else -1) w) :
    wp (attempt sql o) (verifyToken user token) Q w := by
  refine wp_attempt_withCacheConn ?_
  by_cases ho : o = .noConn
  · simpa [ho] using h
  · rw [if_neg ho]
    show wp (attempt sql o) (CacheConn.get .conn user >>= _) Q w
    rw [wp_bind]
    refine wp_attempt_get ?_
    simpa [ho] using h

/-- The password that a login is compared with. -/
def passwordOf (t : Mysql.Tables) (user : CString) : Option CString :=
  ((t.userInfo.filter fun row => row.userName = user).map (·.password)).head?

/-- MySQL answers, and the password is the stored one. -/
def Accepted (sql : Bool) (w : World) (user pwd : CString) : Prop :=
  sql = true ∧ passwordOf w.db user = some pwd

instance (sql : Bool) (w : World) (user pwd : CString) : Decidable (Accepted sql w user pwd) := by
  unfold Accepted
  infer_instance

theorem wp_attempt_verifyUserPassword {user pwd : CString} {Q : Int → World → Prop} {w : World}
    (h : Q (if Accepted sql w user pwd then 0 else -1) w) :
    wp (attempt sql o) (verifyUserPassword user pwd) Q w := by
  refine wp_attempt_withDBConn fun ptr => ?_
  rw [wp_bind]
  refine wp_attempt_onConn ⟨trivial, ?_⟩
  rintro r w' ⟨hw, rfl⟩
  obtain rfl : w = w' := hw.symm
  cases sql with
  | false => exact h
  | true =>
      unfold Accepted passwordOf at h
      simp only [Mysql.Query.exec, if_true]
      cases hrows : (w.db.userInfo.filter fun row => row.userName = user).map (·.password) with
      | nil => simpa [hrows] using h
      | cons password rows => simpa [hrows] using h

/-- The keyspace after `SETEX`, when it was executed. -/
def afterSetEx (o : RedisOutcome) (ks : Keyspace) (user token : CString) : Keyspace :=
  if o.Executed then ks.insert user ⟨.str token, some tokenTimeout⟩ else ks

theorem redisStep_setex {user token : CString} {ks ks' : Keyspace} {r : RedisResult}
    (h : redisStep o (.setex user tokenTimeout token) ks r ks') :
    ks' = afterSetEx o ks user token := by
  cases o with
  | answered => exact h.2
  | lost => exact h.2
  | failed => exact h.2
  | noConn => exact h.2

/-- `setToken` stores a token of 32 letters, as far as Redis executes the command. -/
theorem wp_attempt_setToken {user : CString} {Q : Int × CString → World → Prop} {w : World}
    (hnone : o = .noConn → ∀ token, Q (-1, token) w)
    (hsome : o ≠ .noConn → ∀ token, token ≠ CString.empty →
      Q (0, token) { w with redis := afterSetEx o w.redis user token }) :
    wp (attempt sql o) (setToken user) Q w := by
  refine wp_attempt_withCacheConn ?_
  refine ⟨trivial, ?_⟩
  rintro token _ ⟨rfl, hlength, _⟩
  have htoken : token ≠ CString.empty := by
    rintro rfl
    cases hlength
  by_cases ho : o = .noConn
  · simp only [ho, if_true]
    exact hnone ho token
  · simp only [ho, if_false]
    refine ⟨trivial, ?_⟩
    rintro r _ ⟨ks, hstep, rfl⟩
    rw [redisStep_setex hstep]
    cases r with
    | reply r => exact hsome ho token htoken
    | _ => exact hsome ho token htoken

end Rules

end Session
end TcMuzi
