import TcMuzi.Lib.Runs
import TcMuzi.Session.Failures

/-!
# Logins, tokens and their expiry

`LoginState` is the world together with what became of the last login of every user, kept
beside the program.  The steps of a run are logins, the other requests, and time.
`TokensStored` says that Redis holds exactly the tokens that are alive; it concerns the
users whose names are not keys of the file counters.
-/

namespace TcMuzi
namespace Session

open Base Server Redis Api Lib

/-! ## The last login of a user -/

/-- How the last login of a user was answered, and how many seconds ago when with code 0. -/
inductive LastLogin
  | never
  | refused
  | granted (token : CString) (age : Nat)

/-- The token of a response with code 0. -/
def grantedToken (response : Response) : Option CString :=
  match response.2 with
  | some body =>
      if body.root.code = some 0 then
        match body.root.member (CString.lit "token") with
        | some (.str token) => some token
        | _ => none
      else none
  | none => none

def LastLogin.ofResponse (response : Response) : LastLogin :=
  match grantedToken response with
  | some token => .granted token 0
  | none => .refused

def LastLogin.elapse (seconds : Nat) : LastLogin → LastLogin
  | .never => .never
  | .refused => .refused
  | .granted token age => .granted token (age + seconds)

/-- What Redis should hold for the user. -/
def LastLogin.stored : LastLogin → Option (CString × Option Nat)
  | .never => none
  | .refused => none
  | .granted token age =>
      if age < tokenTimeout then some (token, some (tokenTimeout - age)) else none

theorem stored_elapse (login : LastLogin) (seconds : Nat) :
    (login.elapse seconds).stored = login.stored.bind (elapseString seconds) := by
  cases login with
  | never => rfl
  | refused => rfl
  | granted token age =>
      unfold LastLogin.elapse LastLogin.stored
      by_cases hage : age + seconds < tokenTimeout
      · have hbefore : age < tokenTimeout := by omega
        have hleft : ¬ tokenTimeout - age ≤ seconds := by omega
        simp [hage, hbefore, hleft, elapseString, Nat.sub_add_eq]
      · by_cases hbefore : age < tokenTimeout
        · have hleft : tokenTimeout - age ≤ seconds := by omega
          simp [hage, hbefore, hleft, elapseString]
        · simp [hage, hbefore]

theorem grantedToken_granted (ret : Int) (token : CString) :
    grantedToken (ret, some (encodeLoginJson 0 token)) = some token := by
  have hne : CString.lit "code" ≠ CString.lit "token" := by decide
  simp [grantedToken, encodeLoginJson, Json.withCode, Json.code, Json.member, hne]

theorem grantedToken_refused (ret : Int) (token : CString) :
    grantedToken (ret, some (encodeLoginJson 1 token)) = none := by
  simp [grantedToken, encodeLoginJson]

/-! ## Runs -/

structure LoginState where
  world : World
  logins : CString → LastLogin

/-- The user and the password that a login names. -/
def loginMsg (reader : JsonReader) (postData : List UInt8) : Option (CString × CString) :=
  if postData = [] then none
  else
    match decodeLoginJson reader postData with
    | .ret msg => msg
    | _ => none

/-- After the answer to a login. -/
def LoginState.answer (s : LoginState) (msg : Option (CString × CString)) (response : Response)
    (w : World) : LoginState :=
  match msg with
  | none => { s with world := w }
  | some (user, _) => ⟨w, Function.update s.logins user (.ofResponse response)⟩

def LoginState.elapse (s : LoginState) (seconds : Nat) : LoginState where
  world := { s.world with redis := Redis.elapse seconds s.world.redis }
  logins user := (s.logins user).elapse seconds

inductive Event
  | login (sql : Bool) (o : RedisOutcome) (reader : JsonReader) (postData : List UInt8)
  | request (r : Request)
  | elapse (seconds : Nat)

inductive LoginStep : Event → LoginState → LoginState → Prop
  | login {sql : Bool} {o : RedisOutcome} {reader : JsonReader} {postData : List UInt8}
      {s : LoginState} {response : Response} {w : World}
      (hexec : Exec (attempt sql o) (apiUserLogin reader postData) s.world response w) :
      LoginStep (.login sql o reader postData) s (s.answer (loginMsg reader postData) response w)
  | request {r : Request} {s : LoginState} {response : Response} {w : World}
      (hr : ∀ reader postData, r ≠ .login reader postData)
      (hexec : Exec unreliable r.prog s.world response w) :
      LoginStep (.request r) s { s with world := w }
  | elapse {seconds : Nat} {s : LoginState} : LoginStep (.elapse seconds) s (s.elapse seconds)

/-- The token was given out by the last login and has not expired. -/
def Live (s : LoginState) (user token : CString) : Prop :=
  ∃ age, s.logins user = .granted token age ∧ age < tokenTimeout

/-- The names of the file counters. -/
def CounterName (user : CString) : Prop := ∃ owner, CounterKey owner user

/-- Nobody has logged in, and Redis holds counters at most. -/
def Initial (s : LoginState) : Prop :=
  ∀ user, s.logins user = .never ∧ (¬ CounterName user → stringAt s.world.redis user = none)

/-- What a login has to meet: when it is answered with code 0, Redis executed `SETEX`;
otherwise its user has no live token. -/
def Event.Kept : Event → LoginState → Prop
  | .login sql o reader postData, s =>
      ∀ user pwd, loginMsg reader postData = some (user, pwd) → ¬ CounterName user →
        (Accepted sql s.world user pwd ∧ o.Executed) ∨
          (¬ (Accepted sql s.world user pwd ∧ o ≠ .noConn) ∧ ∀ token, ¬ Live s user token)
  | .request _, _ => True
  | .elapse _, _ => True

def LoginRun (cond : Event → LoginState → Prop) : LoginState → Prop :=
  Run LoginStep Initial cond

/-! ## The invariant -/

/-- Redis holds exactly the live tokens, and none is empty. -/
structure TokensStored (s : LoginState) : Prop where
  stored : ∀ user, ¬ CounterName user → stringAt s.world.redis user = (s.logins user).stored
  nonempty : ∀ user token age, s.logins user = .granted token age → token ≠ CString.empty

theorem stored_of_live {s : LoginState} {user token : CString} (h : Live s user token) :
    ∃ left, (s.logins user).stored = some (token, left) := by
  obtain ⟨age, hlogin, hage⟩ := h
  exact ⟨_, by rw [hlogin, LastLogin.stored, if_pos hage]⟩

theorem live_of_stored {s : LoginState} {user token : CString} {left : Option Nat}
    (h : (s.logins user).stored = some (token, left)) : Live s user token := by
  cases hlogin : s.logins user with
  | never => simp [hlogin, LastLogin.stored] at h
  | refused => simp [hlogin, LastLogin.stored] at h
  | granted token' age =>
      by_cases hage : age < tokenTimeout
      · have htoken : token' = token := by
          rw [hlogin, LastLogin.stored, if_pos hage] at h
          cases h
          rfl
        exact ⟨age, by rw [hlogin, htoken], hage⟩
      · simp [hlogin, LastLogin.stored, hage] at h

theorem stored_eq_none {s : LoginState} {user : CString} (h : ∀ token, ¬ Live s user token) :
    (s.logins user).stored = none := by
  rcases hstored : (s.logins user).stored with _ | ⟨token, left⟩
  · rfl
  · exact absurd (live_of_stored hstored) (h token)

theorem tokensStored_of_initial {s : LoginState} (h : Initial s) : TokensStored s where
  stored user hname := by rw [(h user).2 hname, (h user).1, LastLogin.stored]
  nonempty user token age hlogin := by
    rw [(h user).1] at hlogin
    cases hlogin

theorem TokensStored.elapse {s : LoginState} (h : TokensStored s) (seconds : Nat) :
    TokensStored (s.elapse seconds) where
  stored user hname := by
    show stringAt (Redis.elapse seconds s.world.redis) user = ((s.logins user).elapse seconds).stored
    rw [stringAt_elapse, stored_elapse, h.stored user hname]
  nonempty user token age hlogin := by
    change (s.logins user).elapse seconds = _ at hlogin
    cases hbefore : s.logins user with
    | never => rw [hbefore] at hlogin; cases hlogin
    | refused => rw [hbefore] at hlogin; cases hlogin
    | granted token' age' =>
        rw [hbefore] at hlogin
        cases hlogin
        exact h.nonempty user token age' hbefore

/-- The same strings, except at counters. -/
def SameStrings (w w' : World) : Prop :=
  ∀ user, ¬ CounterName user → stringAt w'.redis user = stringAt w.redis user

theorem TokensStored.congr {s : LoginState} (h : TokensStored s) {w : World}
    (hw : SameStrings s.world w) : TokensStored { s with world := w } where
  stored user hname := (hw user hname).trans (h.stored user hname)
  nonempty := h.nonempty

/-! ## Logins -/

theorem wp_attempt_apiUserLogin {sql : Bool} {o : RedisOutcome} {reader : JsonReader}
    {postData : List UInt8} {Q : Response → World → Prop} {w : World}
    (hnone : loginMsg reader postData = none → ∀ response, Q response w)
    (hrefused : ∀ user pwd, loginMsg reader postData = some (user, pwd) →
      ¬ (Accepted sql w user pwd ∧ o ≠ .noConn) →
      ∀ response, grantedToken response = none → Q response w)
    (hgranted : ∀ user pwd, loginMsg reader postData = some (user, pwd) →
      Accepted sql w user pwd → o ≠ .noConn → ∀ token, token ≠ CString.empty →
      Q (0, some (encodeLoginJson 0 token))
        { w with redis := afterSetEx o w.redis user token }) :
    wp (attempt sql o) (apiUserLogin reader postData) Q w := by
  unfold apiUserLogin
  unfold loginMsg at hnone hrefused hgranted
  by_cases hempty : postData = []
  · rw [if_pos hempty]
    exact hnone (if_pos hempty) _
  rw [if_neg hempty] at hnone hrefused hgranted ⊢
  rcases ret_or_fail_of_uses (uses_decodeLoginJson reader postData) with ⟨msg, hmsg⟩ | hfail
  · rw [hmsg] at hnone hrefused hgranted ⊢
    rw [Prog.ret_bind]
    cases msg with
    | none => exact hnone rfl _
    | some msg =>
        obtain ⟨user, pwd⟩ := msg
        have hrefused := hrefused user pwd rfl
        have hgranted := hgranted user pwd rfl
        show wp (attempt sql o) (verifyUserPassword user pwd >>= _) Q w
        rw [wp_bind]
        refine wp_attempt_verifyUserPassword ?_
        by_cases hacc : Accepted sql w user pwd
        · rw [if_pos hacc, if_neg (by decide), wp_bind]
          refine wp_attempt_setToken (fun ho token => ?_) fun ho token htoken => ?_
          · show wp (attempt sql o) (if (-1 : Int) < 0 then _ else _) Q w
            rw [if_pos (by decide)]
            exact hrefused (fun h => h.2 ho) _ (grantedToken_refused _ _)
          · show wp (attempt sql o) (if (0 : Int) < 0 then _ else _) Q _
            rw [if_neg (by decide)]
            exact hgranted hacc ho token htoken
        · rw [if_neg hacc, if_pos (by decide)]
          exact hrefused (fun h => hacc h.1) _ (grantedToken_refused _ _)
  · rw [hfail]
    trivial

theorem stringAt_afterSetEx_ne (o : RedisOutcome) (ks : Keyspace) {user other : CString}
    (token : CString) (h : other ≠ user) :
    stringAt (afterSetEx o ks user token) other = stringAt ks other := by
  unfold afterSetEx
  split
  · exact stringAt_congr (AList.lookup_insert_ne h)
  · rfl

theorem answer_some (s : LoginState) (user pwd : CString) (response : Response) (w : World) :
    s.answer (some (user, pwd)) response w =
      ⟨w, Function.update s.logins user (.ofResponse response)⟩ := rfl

/-- A login that gives out a token which Redis stores. -/
theorem TokensStored.granted {s : LoginState} (h : TokensStored s) {o : RedisOutcome}
    {user pwd token : CString} (ho : ¬ CounterName user → o.Executed)
    (htoken : token ≠ CString.empty) (ret : Int) :
    TokensStored (s.answer (some (user, pwd)) (ret, some (encodeLoginJson 0 token))
      { s.world with redis := afterSetEx o s.world.redis user token }) := by
  have hlogin : LastLogin.ofResponse (ret, some (encodeLoginJson 0 token)) = .granted token 0 := by
    rw [LastLogin.ofResponse, grantedToken_granted]
  rw [answer_some, hlogin]
  constructor
  · intro other hname
    show stringAt (afterSetEx o s.world.redis user token) other =
      (Function.update s.logins user (.granted token 0) other).stored
    by_cases hother : other = user
    · subst hother
      rw [Function.update_self, afterSetEx, if_pos (ho hname)]
      exact stringAt_insert_str ..
    · rw [stringAt_afterSetEx_ne o _ token hother, Function.update_of_ne hother]
      exact h.stored other hname
  · intro other token' age hother
    change Function.update s.logins user (.granted token 0) other = _ at hother
    by_cases hself : other = user
    · subst hself
      rw [Function.update_self] at hother
      cases hother
      exact htoken
    · rw [Function.update_of_ne hself] at hother
      exact h.nonempty other token' age hother

/-- A login that is refused while its user has no live token. -/
theorem TokensStored.refused {s : LoginState} (h : TokensStored s) {user pwd : CString}
    {response : Response} (hresponse : grantedToken response = none)
    (hlive : ¬ CounterName user → ∀ token, ¬ Live s user token) :
    TokensStored (s.answer (some (user, pwd)) response s.world) := by
  have hlogin : LastLogin.ofResponse response = .refused := by
    rw [LastLogin.ofResponse, hresponse]
  rw [answer_some, hlogin]
  constructor
  · intro other hname
    show stringAt s.world.redis other = (Function.update s.logins user .refused other).stored
    by_cases hother : other = user
    · subst hother
      rw [Function.update_self, h.stored other hname, stored_eq_none (hlive hname)]
      rfl
    · rw [Function.update_of_ne hother]
      exact h.stored other hname
  · intro other token age hother
    change Function.update s.logins user .refused other = _ at hother
    by_cases hself : other = user
    · subst hself
      rw [Function.update_self] at hother
      cases hother
    · rw [Function.update_of_ne hself] at hother
      exact h.nonempty other token age hother

theorem TokensStored.login {s : LoginState} (h : TokensStored s) {sql : Bool} {o : RedisOutcome}
    {reader : JsonReader} {postData : List UInt8} {response : Response} {w : World}
    (hkept : (Event.login sql o reader postData).Kept s)
    (hexec : Exec (attempt sql o) (apiUserLogin reader postData) s.world response w) :
    TokensStored (s.answer (loginMsg reader postData) response w) := by
  have hwp : wp (attempt sql o) (apiUserLogin reader postData)
      (fun response w => TokensStored (s.answer (loginMsg reader postData) response w))
      s.world := by
    refine wp_attempt_apiUserLogin ?_ ?_ ?_
    · intro hmsg response
      rw [hmsg]
      exact h
    · intro user pwd hmsg hacc response hresponse
      rw [hmsg]
      refine h.refused hresponse fun hname => ?_
      rcases hkept user pwd hmsg hname with ⟨hok, hdone⟩ | ⟨_, hlive⟩
      · refine absurd ⟨hok, ?_⟩ hacc
        rintro rfl
        rcases hdone with hlost | hanswered
        · cases hlost
        · cases hanswered
      · exact hlive
    · intro user pwd hmsg hacc ho token htoken
      rw [hmsg]
      refine h.granted (fun hname => ?_) htoken 0
      rcases hkept user pwd hmsg hname with ⟨_, hdone⟩ | ⟨hnot, _⟩
      · exact hdone
      · exact absurd ⟨hacc, ho⟩ hnot
  exact wp_sound hwp hexec

/-! ## The other requests -/

/-- Redis commands other than `SETEX` by which the requests work. -/
def KeepsTokens : Server.Command → Prop
  | .redis c => (∃ user, FileCommand user c) ∨ ∃ key, c = .get key
  | _ => True

theorem keepsTokens_of_isLocal (c : Server.Command) (h : IsLocal c) : KeepsTokens c := by
  cases c with
  | redis c => exact absurd h id
  | _ => trivial

theorem uses_keepsTokens (r : Request) (hr : ∀ reader postData, r ≠ .login reader postData) :
    Uses KeepsTokens r.prog := by
  have hparts : PartByPart KeepsTokens KeepsTokens (Uses KeepsTokens) :=
    partByPart_uses ⟨keepsTokens_of_isLocal, fun user _ hc => Or.inl ⟨user, hc⟩⟩
      (fun key => Or.inr ⟨key, rfl⟩) ⟨trivial, trivial, trivial⟩
      (fun _ => ⟨trivial, trivial⟩) ⟨trivial, trivial⟩
  exact hparts.parts.prog r fun reader postData h => absurd h (hr reader postData)

/-- Such a command keeps every string that is not a counter. -/
theorem stringAt_exec_of_keepsTokens {c : Redis.Command} (hc : KeepsTokens (.redis c))
    (ks : Keyspace) {user : CString} (hname : ¬ CounterName user) :
    stringAt (c.exec ks).2 user = stringAt ks user := by
  rcases hc with ⟨owner, ⟨hzset, _⟩ | ⟨hhash, _⟩ | hcounter⟩ | ⟨key, rfl⟩
  · exact stringAt_exec_of_isZset hzset ks user
  · exact stringAt_exec_of_isHash hhash ks user
  · refine stringAt_congr (lookup_exec_of_ne c ks ?_)
    rintro rfl
    exact hname ⟨owner, hcounter⟩
  · rw [(exec_get ks key).1]

theorem stringAt_redisStep_of_keepsTokens {c : Redis.Command} (hc : KeepsTokens (.redis c))
    {o : RedisOutcome} {ks ks' : Keyspace} {r : RedisResult} (hstep : redisStep o c ks r ks')
    {user : CString} (hname : ¬ CounterName user) : stringAt ks' user = stringAt ks user := by
  cases o with
  | answered => rw [hstep.2]; exact stringAt_exec_of_keepsTokens hc ks hname
  | lost => rw [hstep.2]; exact stringAt_exec_of_keepsTokens hc ks hname
  | failed => rw [hstep.2]
  | noConn => rw [hstep.2]

/-- A request that is no login changes no string but counters, whatever fails. -/
theorem sameStrings_of_request {r : Request} (hr : ∀ reader postData, r ≠ .login reader postData)
    {w w' : World} {response : Response} (hexec : Exec unreliable r.prog w response w') :
    SameStrings w w' := by
  have hkeep : ∀ c m reply m', KeepsTokens c → SameStrings w m →
      unreliableStep c m reply m' → SameStrings w m' := by
    intro c m reply m' hc hm hstep user hname
    cases c with
    | redis c =>
        obtain ⟨o, ks, hredis, rfl⟩ := hstep
        exact (stringAt_redisStep_of_keepsTokens hc hredis hname).trans (hm user hname)
    | _ =>
        have hsame : m'.redis = m.redis := hstep
        rw [hsame]
        exact hm user hname
  have hwp := wp_of_uses (S := unreliable) (I := SameStrings w) (fun _ _ _ _ => trivial)
    hkeep (fun _ _ => trivial) (uses_keepsTokens r hr) fun _ _ => rfl
  have hw := wp_sound hwp hexec
  exact hw

theorem TokensStored.request {s : LoginState} (h : TokensStored s) {r : Request}
    (hr : ∀ reader postData, r ≠ .login reader postData) {response : Response} {w : World}
    (hexec : Exec unreliable r.prog s.world response w) :
    TokensStored { s with world := w } :=
  h.congr (sameStrings_of_request hr hexec)

/-- Every run whose logins meet the condition keeps the live tokens in Redis. -/
theorem tokensStored_of_loginRun {s : LoginState} (h : LoginRun Event.Kept s) :
    TokensStored s := by
  refine Run.invariant (I := TokensStored) (fun _ => tokensStored_of_initial) ?_ h
  rintro event s s' hs hkept hstep
  cases hstep with
  | login hexec => exact hs.login hkept hexec
  | request hr hexec => exact hs.request hr hexec
  | elapse => exact hs.elapse _

end Session
end TcMuzi
