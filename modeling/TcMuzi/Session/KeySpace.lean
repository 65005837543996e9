import TcMuzi.Session.Tokens

/-!
# Tokens and the file counters share one key space

A token is stored under the bare user name.  `KeysApart` says that the logins of a user leave
the keys of the files alone and that the other requests leave the user's token alone,
whatever fails.
-/

namespace TcMuzi
namespace Session

open Base Server Redis Api Lib

/-- The keys in which the files are recorded and counted. -/
def ReservedKey (key : CString) : Prop :=
  key = filePublicZset ∨ key = fileNameHash ∨ CounterName key

structure KeysApart (user : CString) : Prop where
  /-- A login of the user changes no key of the files. -/
  login : ∀ reader postData pwd w response w', loginMsg reader postData = some (user, pwd) →
    Exec unreliable (apiUserLogin reader postData) w response w' →
    ∀ key, ReservedKey key → w'.redis.lookup key = w.redis.lookup key
  /-- No other request changes or creates the string that `VerifyToken` reads. -/
  token : ∀ r : Request, (∀ reader postData, r ≠ .login reader postData) →
    ∀ w response w', Exec unreliable r.prog w response w' →
    stringAt w'.redis user = stringAt w.redis user

/-! ## Logins -/

theorem uses_apiUserLogin {P : Server.Command → Prop} (hlocal : ∀ c, IsLocal c → P c)
    (hconn : ∀ pool, P (.getDBConn pool) ∧ P (.relDBConn pool))
    (hcache : P .getCacheConn ∧ P .relCacheConn) {reader : JsonReader} {postData : List UInt8}
    {user pwd : CString} (hmsg : loginMsg reader postData = some (user, pwd))
    (hset : ∀ token, P (.redis (.setex user tokenTimeout token))) :
    Uses P (apiUserLogin reader postData) := by
  unfold loginMsg at hmsg
  unfold apiUserLogin
  split at hmsg
  · cases hmsg
  · rename_i hbody
    rw [if_neg hbody]
    split at hmsg
    · rename_i hdecode
      rw [hdecode, hmsg, Prog.ret_bind]
      refine uses_bind (uses_of_onDB hconn (onDB_verifyUserPassword hlocal user pwd)) fun _ => ?_
      refine uses_ite trivial (uses_bind ?_ fun _ => uses_ite trivial trivial)
      exact uses_of_onCache hcache (onCache_setToken hlocal hset)
    · cases hmsg

/-- A command on one key only. -/
def OnlyKey (key : CString) : Server.Command → Prop
  | .redis c => c.key = key
  | _ => True

theorem lookup_redisStep_of_ne {o : RedisOutcome} {c : Redis.Command} {ks ks' : Keyspace}
    {r : RedisResult} (h : redisStep o c ks r ks') {other : CString} (hne : other ≠ c.key) :
    ks'.lookup other = ks.lookup other := by
  cases o with
  | answered => rw [h.2, lookup_exec_of_ne c ks hne]
  | lost => rw [h.2, lookup_exec_of_ne c ks hne]
  | failed => rw [h.2]
  | noConn => rw [h.2]

/-- A login works on its own key. -/
theorem lookup_of_login {reader : JsonReader} {postData : List UInt8} {user pwd key : CString}
    {w w' : World} {response : Response} (hmsg : loginMsg reader postData = some (user, pwd))
    (hexec : Exec unreliable (apiUserLogin reader postData) w response w') (hne : key ≠ user) :
    w'.redis.lookup key = w.redis.lookup key := by
  have huses : Uses (OnlyKey user) (apiUserLogin reader postData) := by
    refine uses_apiUserLogin ?_ (fun _ => ⟨trivial, trivial⟩) ⟨trivial, trivial⟩ hmsg fun _ => rfl
    intro c hc
    cases c with
    | redis c => exact absurd hc id
    | _ => trivial
  have hkeep : ∀ c m r m', OnlyKey user c → m.redis.lookup key = w.redis.lookup key →
      unreliableStep c m r m' → m'.redis.lookup key = w.redis.lookup key := by
    intro c m r m' hc hm hstep
    cases c with
    | redis c =>
        obtain ⟨o, ks, hredis, rfl⟩ := hstep
        have hother : key ≠ c.key := fun heq => hne (heq.trans hc)
        exact (lookup_redisStep_of_ne hredis hother).trans hm
    | _ =>
        have hsame : m'.redis = m.redis := hstep
        rw [hsame]
        exact hm
  have hwp := wp_of_uses (S := unreliable)
    (I := fun m : World => m.redis.lookup key = w.redis.lookup key)
    (fun _ _ _ _ => trivial) hkeep (fun _ _ => trivial) huses rfl
  have hkept := wp_sound hwp hexec
  exact hkept

/-! ## A login under a reserved name -/

/-- A body that names the user. -/
def loginReader (user : CString) : JsonReader := fun _ =>
  some (.obj [(CString.lit "user", .str user), (CString.lit "pwd", .str CString.empty)])

/-- The user is registered, with an empty password. -/
def registered (user : CString) : World :=
  ⟨{ Mysql.Tables.empty with userInfo := [⟨user, user, CString.empty, CString.empty,
    CString.empty, CString.empty⟩] }, none, ∅⟩

theorem loginMsg_loginReader (user : CString) :
    loginMsg (loginReader user) [1] = some (user, CString.empty) := rfl

theorem unreliableStep_of_okStep (c : Server.Command) (w : World) (r : c.Reply) (w' : World)
    (h : okStep c w r w') : unreliableStep c w r w' := by
  cases c with
  | redis c =>
      obtain ⟨_, rfl, rfl⟩ := h
      exact ⟨.answered, _, ⟨rfl, rfl⟩, rfl⟩
  | query q =>
      obtain ⟨_, _, _, rfl⟩ := h
      rfl
  | update u =>
      obtain ⟨_, _, _, _, rfl⟩ := h
      rfl
  | execute u =>
      obtain ⟨_, _, _, _, rfl⟩ := h
      rfl
  | startTransaction => rw [h.2]; rfl
  | commit => rw [h.2]; rfl
  | rollback => rw [h.2]; rfl
  | prepare => rw [h.2]; rfl
  | getDBConn pool => rw [show w' = w from h]; rfl
  | relDBConn pool => rw [show w' = w from h]; rfl
  | getCacheConn => rw [show w' = w from h]; rfl
  | relCacheConn => rw [show w' = w from h]; rfl
  | sys c => rw [show w' = w from h]; rfl

/-- The keyspace after the token is stored. -/
def afterLogin (user : CString) : Keyspace :=
  (∅ : Keyspace).insert user ⟨.str (sampleSys (.randomString 32)), some tokenTimeout⟩

/-- The login of a registered user, in which nothing fails. -/
theorem exec_login_registered (user : CString) :
    Exec ok (apiUserLogin (loginReader user) [1]) (registered user)
      (0, some (encodeLoginJson 0 (sampleSys (.randomString 32))))
      { registered user with redis := afterLogin user } := by
  have hfound : (Mysql.Query.passwordOf user).exec (registered user).db = some [CString.empty] := by
    simp [Mysql.Query.exec, registered]
  show Exec ok (.cmd (Server.Command.getDBConn .tuchuangSlave) _) _ _ _
  refine .cmd (r := Ptr.conn) rfl ?_
  show Exec ok (.cmd (Server.Command.query (.passwordOf user)) _) _ _ _
  refine .cmd ⟨_, hfound, rfl, rfl⟩ ?_
  show Exec ok (.cmd (Server.Command.relDBConn .tuchuangSlave) _) _ _ _
  refine .cmd (r := ()) rfl ?_
  show Exec ok (.cmd Server.Command.getCacheConn _) _ _ _
  refine .cmd (r := Ptr.conn) rfl ?_
  show Exec ok (.cmd (Server.Command.sys (.randomString 32)) _) _ _ _
  refine @Exec.cmd _ _ _ _ ok _ _ _ _ _ (sampleSys (.randomString 32)) _ rfl ?_
  show Exec ok (.cmd (Server.Command.redis (.setex user tokenTimeout _)) _) _ _ _
  refine .cmd ⟨rfl, rfl, rfl⟩ ?_
  show Exec ok (.cmd Server.Command.relCacheConn _) _ _ _
  exact .cmd (r := ()) rfl (.ret _ _)

/-- It creates the key of its name. -/
theorem not_keysApart_of_reserved {user : CString} (hreserved : ReservedKey user) :
    ¬ KeysApart user := by
  intro h
  have hexec := exec_mono (T := unreliable) unreliableStep_of_okStep (exec_login_registered user)
  have hsame := h.login _ _ _ _ _ _ (loginMsg_loginReader user) hexec user hreserved
  have hold : (registered user).redis.lookup user = none := rfl
  have hnew : (afterLogin user).lookup user =
      some ⟨.str (sampleSys (.randomString 32)), some tokenTimeout⟩ := AList.lookup_insert _
  cases (hnew.symm.trans hsame).trans hold

/-! ## The condition -/

theorem keysApart_iff (user : CString) : KeysApart user ↔ ¬ ReservedKey user := by
  constructor
  · exact fun h hreserved => not_keysApart_of_reserved hreserved h
  · intro hfree
    refine ⟨fun reader postData pwd w response w' hmsg hexec key hkey => ?_, ?_⟩
    · exact lookup_of_login hmsg hexec fun heq => hfree (heq ▸ hkey)
    · intro r hr w response w' hexec
      exact sameStrings_of_request hr hexec user fun hcounter => hfree (Or.inr (Or.inr hcounter))

/-- A registration under the name of the counter of the shared files. -/
def counterMsg : RegisterMsg :=
  ⟨filePublicCount, filePublicCount, CString.empty, CString.empty, CString.empty⟩

/-- It is accepted, and a login of that user writes the counter. -/
theorem not_keysApart_filePublicCount :
    (∃ w, Exec ok (registerUser counterMsg) World.empty 0 w) ∧ ¬ KeysApart filePublicCount := by
  refine ⟨⟨((run (okReply sampleSys) (registerUser counterMsg) World.empty).map Prod.snd).getD
    World.empty, ?_⟩, not_keysApart_of_reserved (Or.inr (Or.inr ⟨CString.empty, Or.inl rfl⟩))⟩
  exact exec_of_run (okStep_of_okReply sampleSys) rfl

end Session
end TcMuzi
