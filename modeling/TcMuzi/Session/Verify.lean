import TcMuzi.Session.Tokens

/-!
# When `VerifyToken` tells the truth

`VerifiedRightly` is what a token check is for: 0 exactly for the live token of the user,
and no acceptance while Redis cannot be read.  A missing key, a failed command and an
empty presented string all read alike, so this needs the condition `Readable`.
-/

namespace TcMuzi
namespace Session

open Base Server Redis Api Lib

/-- Answered 0 exactly for the live token, and never while Redis cannot be read. -/
def VerifiedRightly (s : LoginState) (o : RedisOutcome) (user token : CString) (ret : Int) : Prop :=
  (ret = 0 ↔ Live s user token) ∧ (o ≠ .answered → ret ≠ 0)

/-- An empty string presented for a user without a live token equals the missing one, and
a live token cannot be told while Redis cannot be read. -/
def Readable (s : LoginState) (o : RedisOutcome) (user token : CString) : Prop :=
  match o with
  | .answered => token ≠ CString.empty ∨ ∃ live, Live s user live
  | .noConn => ¬ Live s user token
  | .failed => token ≠ CString.empty ∧ ¬ Live s user token
  | .lost => token ≠ CString.empty ∧ ¬ Live s user token

/-- The code of `VerifyToken`. -/
theorem ret_of_verifyToken {sql : Bool} {o : RedisOutcome} {user token : CString} {ret : Int}
    {w w' : World} (h : Exec (attempt sql o) (verifyToken user token) w ret w') :
    ret = 0 ↔ o ≠ .noConn ∧ readString o w.redis user = token := by
  have hwp : wp (attempt sql o) (verifyToken user token)
      (fun ret _ => ret = 0 ↔ o ≠ .noConn ∧ readString o w.redis user = token) w := by
    refine wp_attempt_verifyToken ?_
    by_cases hread : o ≠ .noConn ∧ readString o w.redis user = token
    · simp [hread]
    · simp [hread]
  have hret := wp_sound hwp h
  exact hret

/-- While Redis answers, the presented string is compared with the live token, or with the
empty string when there is none. -/
theorem TokensStored.readString_eq_iff {s : LoginState} (h : TokensStored s) {user : CString}
    (hname : ¬ CounterName user) (token : CString) :
    readString .answered s.world.redis user = token ↔
      Live s user token ∨ (token = CString.empty ∧ ∀ live, ¬ Live s user live) := by
  rw [readString, if_pos rfl, h.stored user hname]
  rcases hstored : (s.logins user).stored with _ | ⟨live, left⟩
  · have hnone : ∀ live, ¬ Live s user live := by
      intro live hlive
      obtain ⟨left, hsome⟩ := stored_of_live hlive
      rw [hstored] at hsome
      cases hsome
    simp [hnone, eq_comm]
  · have hlive : Live s user live := live_of_stored hstored
    constructor
    · rintro rfl
      exact Or.inl hlive
    · rintro (htoken | ⟨_, hnone⟩)
      · obtain ⟨left', hsome⟩ := stored_of_live htoken
        rw [hstored] at hsome
        cases hsome
        rfl
      · exact absurd hlive (hnone live)

/-- Without an answer of Redis nobody may be accepted, so no token may be live. -/
theorem verifiedRightly_unread {s : LoginState} {o : RedisOutcome} {user token : CString}
    {ret : Int} (ho : o ≠ .answered) :
    VerifiedRightly s o user token ret ↔ ret ≠ 0 ∧ ¬ Live s user token := by
  constructor
  · rintro ⟨hiff, hreject⟩
    exact ⟨hreject ho, fun hlive => hreject ho (hiff.mpr hlive)⟩
  · rintro ⟨hret, hlive⟩
    exact ⟨⟨fun h => absurd h hret, fun h => absurd h hlive⟩, fun _ => hret⟩

/-- One token check in a state in which Redis holds the live tokens. -/
theorem TokensStored.verifiedRightly_iff {s : LoginState} (h : TokensStored s) {sql : Bool}
    {o : RedisOutcome} {user token : CString} {ret : Int} {w : World}
    (hname : ¬ CounterName user)
    (hexec : Exec (attempt sql o) (verifyToken user token) s.world ret w) :
    VerifiedRightly s o user token ret ↔ Readable s o user token := by
  have hret := ret_of_verifyToken hexec
  cases o with
  | answered =>
      rw [h.readString_eq_iff hname] at hret
      unfold VerifiedRightly Readable
      constructor
      · rintro ⟨hiff, _⟩
        by_cases htoken : token = CString.empty
        · right
          by_contra hnone
          have hzero : ret = 0 :=
            hret.mpr ⟨by simp, Or.inr ⟨htoken, fun live hlive => hnone ⟨live, hlive⟩⟩⟩
          exact hnone ⟨token, hiff.mp hzero⟩
        · exact Or.inl htoken
      · intro hread
        refine ⟨?_, fun ho => absurd rfl ho⟩
        rw [hret]
        constructor
        · rintro ⟨_, hlive | ⟨htoken, hnone⟩⟩
          · exact hlive
          · rcases hread with hne | ⟨live, hlive⟩
            · exact absurd htoken hne
            · exact absurd hlive (hnone live)
        · exact fun hlive => ⟨by simp, Or.inl hlive⟩
  | noConn =>
      rw [verifiedRightly_unread (by simp), ne_eq, hret]
      simp [Readable]
  | failed =>
      have hread : readString .failed s.world.redis user = CString.empty := if_neg (by decide)
      rw [verifiedRightly_unread (by simp), ne_eq, hret, hread]
      simp [Readable, eq_comm]
  | lost =>
      have hread : readString .lost s.world.redis user = CString.empty := if_neg (by decide)
      rw [verifiedRightly_unread (by simp), ne_eq, hret, hread]
      simp [Readable, eq_comm]

/-! ## Runs -/

/-- After a login that is answered with code 0 and whose `SETEX` was executed, the token
is accepted. -/
theorem verifyToken_after_login {sql : Bool} {o : RedisOutcome} {reader : JsonReader}
    {postData : List UInt8} {user pwd token : CString} {code : Int} {w w' w'' : World}
    (hmsg : loginMsg reader postData = some (user, pwd)) (ho : o ≠ .failed)
    (hlogin : Exec (attempt sql o) (apiUserLogin reader postData) w
      (code, some (encodeLoginJson 0 token)) w')
    {sql' : Bool} {ret : Int}
    (hverify : Exec (attempt sql' .answered) (verifyToken user token) w' ret w'') : ret = 0 := by
  have hwp : wp (attempt sql o) (apiUserLogin reader postData)
      (fun response w' => ∀ token, grantedToken response = some token →
        readString .answered w'.redis user = token) w := by
    refine wp_attempt_apiUserLogin ?_ ?_ ?_
    · intro hnone
      rw [hnone] at hmsg
      cases hmsg
    · intro _ _ _ _ response hrefused token hgranted
      rw [hrefused] at hgranted
      cases hgranted
    · intro user' pwd' hmsg' _ hconn token' _ token hgranted
      rw [hmsg] at hmsg'
      cases hmsg'
      rw [grantedToken_granted] at hgranted
      cases hgranted
      have hexecuted : o.Executed := by
        cases o with
        | noConn => exact absurd rfl hconn
        | failed => exact absurd rfl ho
        | lost => exact Or.inl rfl
        | answered => exact Or.inr rfl
      simp [readString, afterSetEx, hexecuted]
  have hread := wp_sound hwp hlogin
  refine (ret_of_verifyToken hverify).mpr ⟨by simp, ?_⟩
  exact hread token (grantedToken_granted code token)

/-- In every run whose logins meet the condition, a token check is right exactly when Redis
can tell, and a token that was given out and stored is accepted. -/
theorem loginRun_verifiedRightly (s : LoginState) (h : LoginRun Event.Kept s) :
    (∀ sql o user token ret w, ¬ CounterName user →
      Exec (attempt sql o) (verifyToken user token) s.world ret w →
      (VerifiedRightly s o user token ret ↔ Readable s o user token)) ∧
    ∀ sql o reader postData user pwd token code w, loginMsg reader postData = some (user, pwd) →
      o ≠ .failed →
      Exec (attempt sql o) (apiUserLogin reader postData) s.world
        (code, some (encodeLoginJson 0 token)) w →
      ∀ sql' ret w', Exec (attempt sql' .answered) (verifyToken user token) w ret w' →
        ret = 0 := by
  refine ⟨fun sql o user token ret w hname hexec => ?_, ?_⟩
  · exact (tokensStored_of_loginRun h).verifiedRightly_iff hname hexec
  · intro sql o reader postData user pwd token code w hmsg ho hlogin sql' ret w' hverify
    exact verifyToken_after_login hmsg ho hlogin hverify

/-! ## A login and a check -/

/-- What `okReply` answers with the sample calls, `attempt` allows. -/
theorem attemptStep_of_okReply (c : Server.Command) (w : World) (r : c.Reply) (w' : World)
    (h : okReply sampleSys c w = some (r, w')) : attemptStep true .answered c w r w' := by
  have hok := okStep_of_okReply sampleSys c w r w' h
  cases c with
  | query q =>
      obtain ⟨rows, hrows, rfl, rfl⟩ := hok
      exact ⟨rfl, by simp [hrows]⟩
  | getCacheConn =>
      cases h
      exact ⟨rfl, by simp⟩
  | redis c =>
      obtain ⟨_, rfl, rfl⟩ := hok
      exact ⟨_, ⟨rfl, rfl⟩, rfl⟩
  | sys c =>
      cases c with
      | randomString len =>
          cases h
          have hbytes : (CString.cStr (List.replicate len 97)).bytes = List.replicate len 97 :=
            CString.bytes_cStr fun hnul => absurd (List.eq_of_mem_replicate hnul) (by decide)
          refine ⟨rfl, ?_, fun b hb => ?_⟩
          · show (CString.cStr (List.replicate len 97)).bytes.length = len
            rw [hbytes, List.length_replicate]
          · change b ∈ (CString.cStr (List.replicate len 97)).bytes at hb
            rw [hbytes] at hb
            rw [List.eq_of_mem_replicate hb]
            decide
      | _ => exact hok
  | _ => exact hok

def sampleUser : CString := CString.lit "user"
def samplePwd : CString := CString.lit "pwd"

def sampleReader : JsonReader := fun _ =>
  some (.obj [(CString.lit "user", .str sampleUser), (CString.lit "pwd", .str samplePwd)])

/-- One registered user, and nobody logged in. -/
def sampleState : LoginState where
  world :=
    { World.empty with
      db := { Mysql.Tables.empty with
        userInfo := [⟨sampleUser, CString.empty, samplePwd, CString.empty, CString.empty,
          CString.empty⟩] } }
  logins _ := .never

theorem initial_sampleState : Initial sampleState := fun _ => ⟨rfl, fun _ => rfl⟩

theorem not_counterName_sampleUser : ¬ CounterName sampleUser := by
  rintro ⟨owner, hkey⟩
  have hlong : 15 ≤ sampleUser.length := by
    rcases hkey with hpublic | hown
    · rw [hpublic]
      decide
    · have hlength : fileUserCount.length = 15 := by decide
      rw [hown, CString.length_append]
      omega
  exact absurd hlong (by decide)

/-- A sample check that returns 0. -/
theorem exec_sampleVerify {token : CString} {w : World}
    (h : (run (okReply sampleSys) (verifyToken sampleUser token) w).map Prod.fst = some 0) :
    ∃ w', Exec (attempt true .answered) (verifyToken sampleUser token) w 0 w' := by
  obtain ⟨⟨ret, w'⟩, hrun, hret⟩ := Option.map_eq_some_iff.mp h
  change ret = 0 at hret
  subst hret
  exact ⟨w', exec_of_run attemptStep_of_okReply hrun⟩

/-- The empty string is accepted for a user who has never logged in. -/
theorem verifyToken_emptyToken :
    ¬ ∀ s, LoginRun (fun _ _ => True) s → ∀ sql o user token ret w,
      Exec (attempt sql o) (verifyToken user token) s.world ret w →
      VerifiedRightly s o user token ret := by
  intro hclaim
  obtain ⟨w, hexec⟩ := @exec_sampleVerify CString.empty sampleState.world (by decide)
  have hright := hclaim sampleState (.start initial_sampleState) true .answered sampleUser
    CString.empty 0 w hexec
  obtain ⟨age, hlogin, _⟩ := hright.1.mp rfl
  cases hlogin

/-- What the sample user's login answers. -/
def sampleLogin : Option (Response × World) :=
  run (okReply sampleSys) (apiUserLogin sampleReader [1]) sampleState.world

def sampleToken : CString := CString.cStr (List.replicate 32 97)

def sampleLoggedIn : LoginState :=
  sampleState.answer (some (sampleUser, samplePwd)) (sampleLogin.getD ((0, none), World.empty)).1
    (sampleLogin.getD ((0, none), World.empty)).2

theorem loginRun_sampleLoggedIn : LoginRun Event.Kept sampleLoggedIn := by
  have hsome : sampleLogin.isSome := by decide
  obtain ⟨⟨response, w⟩, hlogin⟩ := Option.isSome_iff_exists.mp hsome
  have hmsg : loginMsg sampleReader [1] = some (sampleUser, samplePwd) := rfl
  have hexec : Exec (attempt true .answered) (apiUserLogin sampleReader [1]) sampleState.world
      response w := exec_of_run attemptStep_of_okReply hlogin
  have hkept : (Event.login true .answered sampleReader [1]).Kept sampleState := by
    intro user pwd h _
    rw [hmsg] at h
    cases h
    exact Or.inl ⟨⟨rfl, by decide⟩, Or.inr rfl⟩
  have hstep := LoginStep.login (s := sampleState) hexec
  rw [hmsg] at hstep
  have hrun : LoginRun Event.Kept
      (sampleState.answer (some (sampleUser, samplePwd)) response w) :=
    .step (.start initial_sampleState) hkept hstep
  unfold sampleLoggedIn
  rw [hlogin]
  exact hrun

/-- The sample user logs in and is accepted with the token. -/
theorem loginRun_verifiedRightly_sample :
    ∃ s w, LoginRun Event.Kept s ∧
      Exec (attempt true .answered) (verifyToken sampleUser sampleToken) s.world 0 w ∧
      VerifiedRightly s .answered sampleUser sampleToken 0 := by
  obtain ⟨w, hexec⟩ := @exec_sampleVerify sampleToken sampleLoggedIn.world (by decide)
  have hright := ((loginRun_verifiedRightly sampleLoggedIn loginRun_sampleLoggedIn).1 true
    .answered sampleUser sampleToken _ _ not_counterName_sampleUser hexec).mpr
    (Or.inl (by decide))
  exact ⟨_, _, loginRun_sampleLoggedIn, hexec, hright⟩

end Session
end TcMuzi
