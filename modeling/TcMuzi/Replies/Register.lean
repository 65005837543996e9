import TcMuzi.Lib.Interleaving
import TcMuzi.Replies.Dealfile

/-!
# Concurrent registrations

The statements of any number of registrations interleave over `user_info`.  A statement may
fail, an insert also after it was executed.  The state records which inserts were executed.
-/

namespace TcMuzi
namespace Replies

open Base Server Redis Api Session Lib

/-! ## The database -/

/-- The tables, and the writes that were executed with the request each is of. -/
structure Registry (ι : Type) where
  db : Mysql.Tables
  executed : List (ι × Mysql.Update)

section System

variable {ι : Type}

/-- A write fails without effect, or is executed; then its answer may still be lost. -/
def Writes (i : ι) (u : Mysql.Update) (g : Registry ι) (r : Option Nat) (g' : Registry ι) : Prop :=
  (r = none ∧ g' = g) ∨
    ∃ n t, u.exec g.db = some (n, t) ∧ (r = some n ∨ r = none) ∧
      g' = ⟨t, g.executed ++ [(i, u)]⟩

/-- Every call may fail. -/
def registryStep (i : ι) : (c : Server.Command) → Registry ι → c.Reply → Registry ι → Prop
  | .query q, g, r, g' => g' = g ∧ (r = none ∨ r = q.exec g.db)
  | .update u, g, r, g' => Writes i u g r g'
  | .execute u, g, r, g' => Writes i u g r g'
  | _, g, _, g' => g' = g

/-- The requests issue their commands in any order, where these meet the condition; other
requests work on other tables. -/
def registrySystem (cond : (c : Server.Command) → Registry ι → c.Reply → Registry ι → Prop) :
    System ι Server.Command Command.Reply (Registry ι) where
  step i c g r g' := registryStep i c g r g' ∧ cond c g r g'
  pause _ _ _ _ := False
  fault _ _ := False
  env g g' := g'.db.userInfo = g.db.userInfo ∧ g'.executed = g.executed

/-- The statement is prepared, and what is executed is answered. -/
def Reported : (c : Server.Command) → Registry ι → c.Reply → Registry ι → Prop
  | .prepare, _, r, _ => r = true
  | .execute _, g, r, g' => r = none → g'.executed = g.executed
  | _, _, _, _ => True

end System

/-! ## One registration -/

/-- The fields of the body. -/
def registerMsg (reader : JsonReader) (postData : List UInt8) : Option RegisterMsg :=
  if postData = [] then none
  else do
    let root ← reader postData
    let userName ← memberText root "userName"
    let nickName ← memberText root "nickName"
    let pwd ← memberText root "firstPwd"
    return ⟨userName, nickName, pwd, (memberText root "phone").getD CString.empty,
      (memberText root "email").getD CString.empty⟩

/-- The row of a registration. -/
def registerRow (msg : RegisterMsg) (createTime : CString) : Mysql.UserInfo :=
  ⟨msg.userName, msg.nickName, msg.pwd, msg.phone, msg.email, createTime⟩

/-- What a registration has done. -/
inductive Phase
  | fresh
  -- the query answered a row
  | found (q : Mysql.Query)
  | wrote (u : Mysql.Update)

/-- How a registration sees the database while the condition is met: it writes once. -/
def registering : Sem Server.Command Command.Reply Phase where
  step
    | .query q, p, r, p' =>
        ((r = none ∨ r = some []) ∧ p' = p) ∨ ((∃ row rows, r = some (row :: rows)) ∧ p' = .found q)
    | .prepare, p, r, p' => r = true ∧ p' = p
    | .execute u, p, r, p' => (r = none ∧ p' = p) ∨ ((∃ n, r = some (n + 1)) ∧ p' = .wrote u)
    | _, p, _, p' => p' = p
  safe p
    | .execute u => p = .fresh ∧ ∃ row, u = .insertUser row
    | .query _ => p = .fresh
    | .update _ => False
    | _ => True

/-- What a registration returns, by what it has done. -/
def RegisterResult (msg : RegisterMsg) (ret : Int) (p : Phase) : Prop :=
  (ret = 0 ∧ ∃ createTime, p = .wrote (.insertUser (registerRow msg createTime))) ∨
    (ret = 1 ∧ p = .fresh) ∨ (ret = 2 ∧ p = .found (.userByName msg.userName))

/-- The branch behind a query without a row. -/
theorem wp_insert (msg : RegisterMsg) :
    wp registering (do
      let createTime ← currentTime
      let prepared ← onConn .conn prepare
      if prepared then
        let affectedRows ← onConn .conn (execute (.insertUser (registerRow msg createTime)))
        match affectedRows with
        | some (_ + 1) => return (0 : Int)
        | _ => return 1
      else
        return 0) (RegisterResult msg) .fresh := by
  refine ⟨trivial, ?_⟩
  rintro createTime _ rfl
  refine ⟨trivial, ?_⟩
  rintro _ _ ⟨rfl, rfl⟩
  refine ⟨⟨rfl, _, rfl⟩, ?_⟩
  rintro _ _ (⟨rfl, rfl⟩ | ⟨⟨n, rfl⟩, rfl⟩)
  · exact Or.inr (Or.inl ⟨rfl, rfl⟩)
  · exact Or.inl ⟨rfl, createTime, rfl⟩

theorem wp_registerUser (msg : RegisterMsg) :
    wp registering (registerUser msg) (RegisterResult msg) .fresh := by
  refine wp_withDBConn_of_idle (fun _ => ⟨trivial, fun _ _ h => h⟩)
    (fun _ => ⟨trivial, fun _ _ h => h⟩) fun ptr => ?_
  cases ptr with
  | null => trivial
  | conn =>
      refine ⟨rfl, ?_⟩
      rintro _ _ (⟨rfl | rfl, rfl⟩ | ⟨⟨row, rows, rfl⟩, rfl⟩)
      · exact wp_insert msg
      · exact wp_insert msg
      · exact Or.inr (Or.inr ⟨rfl, rfl⟩)

section Fields

variable {σ α : Type} {S : Sem Server.Command Command.Reply σ} {Q : α → σ → Prop} {s : σ}

/-- Reading a field issues no command. -/
theorem wp_of_field (hfail : ∀ s, S.mayFail s) {root : Json} {field : String} {other : α}
    {k : CString → Handler α} (h : wp S ((memberText root field).elim (.ret other) k) Q s) :
    wp S (extractField root field >>= fun
      | some value => k value
      | _ => .ret other) Q s := by
  rcases extractField_eq_or_fail root field with heq | ⟨hthrows, _⟩
  · rw [heq]
    cases htext : memberText root field with
    | none =>
        rw [htext] at h
        exact h
    | some value =>
        rw [htext] at h
        exact h
  · rw [hthrows]
    exact hfail s

theorem wp_of_optional (hfail : ∀ s, S.mayFail s) {root : Json} {field : String}
    {k : CString → Handler α} (h : wp S (k ((memberText root field).getD CString.empty)) Q s) :
    wp S (extractOptional root field >>= k) Q s := by
  rw [extractOptional]
  rcases extractField_eq_or_fail root field with heq | ⟨hthrows, _⟩
  · rw [heq]
    exact h
  · rw [hthrows]
    exact hfail s

end Fields

/-- What a request answers, by what it has done. -/
def RegisterPost (reader : JsonReader) (postData : List UInt8) (response : Response) (p : Phase) :
    Prop :=
  match registerMsg reader postData with
  | none => p = .fresh ∧ codeOf response = some 1
  | some msg => ∃ ret, codeOf response = some ret ∧ RegisterResult msg ret p

/-- Decoding issues no command. -/
theorem wp_decodeRegisterJson {reader : JsonReader} {postData : List UInt8} (hne : postData ≠ [])
    {Q : Option RegisterMsg → Phase → Prop} {p : Phase} (h : Q (registerMsg reader postData) p) :
    wp registering (decodeRegisterJson reader postData) Q p := by
  have hfail : ∀ p, registering.mayFail p := fun _ => trivial
  unfold decodeRegisterJson
  rw [registerMsg, if_neg hne] at h
  cases hread : reader postData with
  | none =>
      rw [hread] at h
      exact h
  | some root =>
      rw [hread] at h
      refine wp_of_field hfail ?_
      cases huser : memberText root "userName" with
      | none => simpa [huser] using h
      | some userName =>
          refine wp_of_field hfail ?_
          cases hnick : memberText root "nickName" with
          | none => simpa [huser, hnick] using h
          | some nickName =>
              refine wp_of_field hfail ?_
              cases hpwd : memberText root "firstPwd" with
              | none => simpa [huser, hnick, hpwd] using h
              | some pwd =>
                  refine wp_of_optional hfail (wp_of_optional hfail ?_)
                  simpa [huser, hnick, hpwd] using h

theorem wp_apiRegisterUser (reader : JsonReader) (postData : List UInt8) :
    wp registering (apiRegisterUser reader postData) (RegisterPost reader postData) .fresh := by
  unfold apiRegisterUser
  split
  · rename_i hempty
    simp [RegisterPost, registerMsg, hempty]
  · rename_i hne
    rw [wp_bind]
    refine wp_decodeRegisterJson hne ?_
    unfold RegisterPost
    cases registerMsg reader postData with
    | none => exact ⟨rfl, codeOf_encodeCode ..⟩
    | some msg =>
        show wp _ (registerUser msg >>= _) _ _
        rw [wp_bind]
        refine wp_mono (wp_registerUser msg) fun ret p hresult => ?_
        exact ⟨ret, codeOf_encodeCode .., hresult⟩

/-! ## All interleavings -/

section Interleavings

variable {ι : Type}

/-- The phases of all registrations against the database. -/
structure RegistryInv (g : Registry ι) (p : ι → Phase) : Prop where
  wrote : ∀ i u, p i = .wrote u ↔ (i, u) ∈ g.executed
  stored : ∀ i row, (i, .insertUser row) ∈ g.executed → row ∈ g.db.userInfo
  found : ∀ i user, p i = .found (.userByName user) → ∃ row ∈ g.db.userInfo, row.userName = user
  once : ∀ i j row row', (i, .insertUser row) ∈ g.executed → (j, .insertUser row') ∈ g.executed →
    row.userName = row'.userName → i = j

/-- A phase that neither wrote nor found anything leaves the invariant alone. -/
theorem RegistryInv.quiet {g g' : Registry ι} {p : ι → Phase} (h : RegistryInv g p)
    (husers : g'.db.userInfo = g.db.userInfo) (hexecuted : g'.executed = g.executed) :
    RegistryInv g' p := by
  refine ⟨?_, ?_, ?_, ?_⟩
  · rw [hexecuted]
    exact h.wrote
  · rw [hexecuted, husers]
    exact h.stored
  · rw [husers]
    exact h.found
  · rw [hexecuted]
    exact h.once

variable [DecidableEq ι]

/-- A query that answered a row. -/
theorem RegistryInv.query {g : Registry ι} {p : ι → Phase} (h : RegistryInv g p) {i : ι}
    (hfresh : p i = .fresh) {q : Mysql.Query} {row : q.Row} {rows : List q.Row}
    (hexec : q.exec g.db = some (row :: rows)) :
    RegistryInv g (Function.update p i (.found q)) := by
  refine ⟨fun j u => ?_, h.stored, fun j user hj => ?_, h.once⟩
  · by_cases hji : j = i
    · subst hji
      rw [Function.update_self, ← h.wrote, hfresh]
      simp
    · rw [Function.update_of_ne hji]
      exact h.wrote j u
  · by_cases hji : j = i
    · subst hji
      rw [Function.update_self] at hj
      cases hj
      have hmem : row ∈ g.db.userInfo.filter fun row => row.userName = user := by
        rw [Option.some.inj hexec]
        exact List.mem_cons_self
      obtain ⟨hrow, hname⟩ := List.mem_filter.mp hmem
      exact ⟨row, hrow, of_decide_eq_true hname⟩
    · rw [Function.update_of_ne hji] at hj
      exact h.found j user hj

theorem exec_insertUser {row : Mysql.UserInfo} {t t' : Mysql.Tables} {n : Nat}
    (h : (Mysql.Update.insertUser row).exec t = some (n, t')) :
    n = 1 ∧ t'.userInfo = t.userInfo ++ [row] ∧ ∀ r ∈ t.userInfo, r.userName ≠ row.userName := by
  simp only [Mysql.Update.exec] at h
  split at h
  · cases h
  · rename_i hnone
    cases h
    refine ⟨rfl, rfl, fun r hr hname => hnone ?_⟩
    exact List.any_eq_true.mpr ⟨r, hr, by simp [hname]⟩

/-- An insert that was executed. -/
theorem RegistryInv.insert {g : Registry ι} {p : ι → Phase} (h : RegistryInv g p) {i : ι}
    (hfresh : p i = .fresh) {row : Mysql.UserInfo} {t : Mysql.Tables} {n : Nat}
    (hexec : (Mysql.Update.insertUser row).exec g.db = some (n, t)) :
    RegistryInv ⟨t, g.executed ++ [(i, .insertUser row)]⟩
      (Function.update p i (.wrote (.insertUser row))) := by
  obtain ⟨_, husers, hnew⟩ := exec_insertUser hexec
  have hnone : ∀ u, (i, u) ∉ g.executed := by
    intro u hu
    have hwrote := (h.wrote i u).mpr hu
    rw [hfresh] at hwrote
    cases hwrote
  refine ⟨fun j u => ?_, fun j r hmem => ?_, fun j user hj => ?_, fun j k r r' hj hk hname => ?_⟩
  · by_cases hji : j = i
    · subst hji
      simp [hnone, eq_comm]
    · rw [Function.update_of_ne hji, h.wrote]
      simp [hji]
  · rw [husers]
    rcases List.mem_append.mp hmem with hmem | hmem
    · exact List.mem_append_left _ (h.stored j r hmem)
    · cases List.mem_singleton.mp hmem
      exact List.mem_append_right _ (List.mem_singleton.mpr rfl)
  · have hne : j ≠ i := by
      rintro rfl
      rw [Function.update_self] at hj
      cases hj
    rw [Function.update_of_ne hne] at hj
    obtain ⟨r, hr, hname⟩ := h.found j user hj
    rw [husers]
    exact ⟨r, List.mem_append_left _ hr, hname⟩
  · rcases List.mem_append.mp hj with hj | hj
    · rcases List.mem_append.mp hk with hk | hk
      · exact h.once j k r r' hj hk hname
      · cases List.mem_singleton.mp hk
        exact absurd hname (hnew r (h.stored j r hj))
    · cases List.mem_singleton.mp hj
      rcases List.mem_append.mp hk with hk | hk
      · exact absurd hname.symm (hnew r' (h.stored k r' hk))
      · cases List.mem_singleton.mp hk
        rfl

theorem RegistryInv.step {g g' : Registry ι} {p : ι → Phase} {i : ι} {c : Server.Command}
    {r : c.Reply} (h : RegistryInv g p) (hsafe : registering.safe (p i) c)
    (hstep : (registrySystem Reported).step i c g r g') :
    ∃ p', registering.step c (p i) r p' ∧ RegistryInv g' (Function.update p i p') := by
  obtain ⟨hstep, hreported⟩ := hstep
  have hkeep : ∀ {g'}, g' = g → RegistryInv g' (Function.update p i (p i)) := by
    rintro _ rfl
    rw [Function.update_eq_self]
    exact h
  cases c with
  | query q =>
      obtain ⟨rfl, rfl | hexec⟩ := hstep
      · exact ⟨p i, Or.inl ⟨Or.inl rfl, rfl⟩, hkeep rfl⟩
      · cases r with
        | none => exact ⟨p i, Or.inl ⟨Or.inl rfl, rfl⟩, hkeep rfl⟩
        | some rows =>
            cases rows with
            | nil => exact ⟨p i, Or.inl ⟨Or.inr rfl, rfl⟩, hkeep rfl⟩
            | cons row rows =>
                exact ⟨.found q, Or.inr ⟨⟨row, rows, rfl⟩, rfl⟩, h.query hsafe hexec.symm⟩
  | update u => exact absurd hsafe id
  | execute u =>
      obtain ⟨hfresh, row, rfl⟩ := hsafe
      rcases hstep with ⟨rfl, rfl⟩ | ⟨n, t, hexec, hr, rfl⟩
      · exact ⟨p i, Or.inl ⟨rfl, rfl⟩, hkeep rfl⟩
      · rcases hr with rfl | rfl
        · obtain ⟨rfl, _⟩ := exec_insertUser hexec
          exact ⟨_, Or.inr ⟨⟨0, rfl⟩, rfl⟩, h.insert hfresh hexec⟩
        · exact absurd (hreported rfl) (by simp)
  | prepare => exact ⟨p i, ⟨hreported, rfl⟩, hkeep hstep⟩
  | _ => exact ⟨p i, rfl, hkeep hstep⟩

/-- What the requests answered, against the rows that were inserted. -/
structure Truthful (reader : JsonReader) (bodies : ι → List UInt8)
    (cfg : Config ι Server.Command Command.Reply Response (Registry ι)) : Prop where
  zero : ∀ i response, cfg.prog i = .ret response → (codeOf response = some 0 ↔
    ∃ msg createTime, registerMsg reader (bodies i) = some msg ∧
      (i, .insertUser (registerRow msg createTime)) ∈ cfg.shared.executed ∧
      registerRow msg createTime ∈ cfg.shared.db.userInfo)
  two : ∀ i response, cfg.prog i = .ret response → codeOf response = some 2 →
    ∃ msg, registerMsg reader (bodies i) = some msg ∧
      ∃ row ∈ cfg.shared.db.userInfo, row.userName = msg.userName
  once : ∀ i j response response' msg msg', cfg.prog i = .ret response →
    cfg.prog j = .ret response' → codeOf response = some 0 → codeOf response' = some 0 →
    registerMsg reader (bodies i) = some msg → registerMsg reader (bodies j) = some msg' →
    msg.userName = msg'.userName → i = j

/-- The requests have not begun. -/
structure RegisterStart (reader : JsonReader) (bodies : ι → List UInt8)
    (cfg : Config ι Server.Command Command.Reply Response (Registry ι)) : Prop where
  prog : ∀ i, cfg.prog i = apiRegisterUser reader (bodies i)
  executed : cfg.shared.executed = []

omit [DecidableEq ι] in
theorem RegisterStart.simulates {reader : JsonReader} {bodies : ι → List UInt8}
    {cfg : Config ι Server.Command Command.Reply Response (Registry ι)}
    (h : RegisterStart reader bodies cfg) :
    Simulates (fun _ => registering) RegistryInv (fun i => RegisterPost reader (bodies i)) cfg
      fun _ => .fresh := by
  refine ⟨⟨by simp [h.executed], by simp [h.executed], nofun, by simp [h.executed]⟩, fun i => ?_⟩
  rw [h.prog i]
  exact wp_apiRegisterUser reader (bodies i)

/-- A request that answers 0 is the one that wrote. -/
theorem RegisterPost.zero_iff {reader : JsonReader} {postData : List UInt8} {response : Response}
    {p : Phase} (h : RegisterPost reader postData response p) :
    codeOf response = some 0 ↔ ∃ msg createTime, registerMsg reader postData = some msg ∧
      p = .wrote (.insertUser (registerRow msg createTime)) := by
  unfold RegisterPost at h
  cases hmsg : registerMsg reader postData with
  | none =>
      rw [hmsg] at h
      simp [h.2]
  | some msg =>
      rw [hmsg] at h
      obtain ⟨ret, hcode, hresult⟩ := h
      rw [hcode]
      rcases hresult with ⟨rfl, createTime, rfl⟩ | ⟨rfl, rfl⟩ | ⟨rfl, rfl⟩
      · exact iff_of_true rfl ⟨msg, createTime, rfl, rfl⟩
      · simp
      · simp

theorem RegisterPost.two {reader : JsonReader} {postData : List UInt8} {response : Response}
    {p : Phase} (h : RegisterPost reader postData response p) (htwo : codeOf response = some 2) :
    ∃ msg, registerMsg reader postData = some msg ∧ p = .found (.userByName msg.userName) := by
  unfold RegisterPost at h
  cases hmsg : registerMsg reader postData with
  | none =>
      rw [hmsg] at h
      rw [h.2] at htwo
      cases htwo
  | some msg =>
      rw [hmsg] at h
      obtain ⟨ret, hcode, hresult⟩ := h
      rw [hcode] at htwo
      cases htwo
      rcases hresult with ⟨hzero, _⟩ | ⟨hone, _⟩ | ⟨_, rfl⟩
      · cases hzero
      · cases hone
      · exact ⟨msg, rfl, rfl⟩

/-- In every interleaving in which each statement is prepared and no insert is executed
unanswered, whatever else fails. -/
theorem registrations_truthful (reader : JsonReader) (bodies : ι → List UInt8)
    {init cfg : Config ι Server.Command Command.Reply Response (Registry ι)}
    (hstart : RegisterStart reader bodies init) (h : Reachable (registrySystem Reported) init cfg) :
    Truthful reader bodies cfg := by
  obtain ⟨p, hsim⟩ := reachable_simulates (fun i c g r g' p hp hsafe hstep => hp.step hsafe hstep)
    (fun _ _ _ _ _ _ _ hno => absurd hno id) (fun _ _ _ _ _ _ hno => absurd hno id)
    (fun _ _ _ hp henv => hp.quiet henv.1 henv.2) hstart.simulates h
  have hinv := hsim.1
  refine ⟨fun i response hret => ?_, fun i response hret htwo => ?_, ?_⟩
  · rw [(hsim.post_of_ret hret).zero_iff]
    constructor
    · rintro ⟨msg, createTime, hmsg, hwrote⟩
      have hexecuted := (hinv.wrote i _).mp hwrote
      exact ⟨msg, createTime, hmsg, hexecuted, hinv.stored i _ hexecuted⟩
    · rintro ⟨msg, createTime, hmsg, hexecuted, _⟩
      exact ⟨msg, createTime, hmsg, (hinv.wrote i _).mpr hexecuted⟩
  · obtain ⟨msg, hmsg, hfound⟩ := (hsim.post_of_ret hret).two htwo
    exact ⟨msg, hmsg, hinv.found i _ hfound⟩
  · intro i j response response' msg msg' hi hj hzero hzero' hmsg hmsg' hname
    obtain ⟨m, createTime, hm, hwrote⟩ := (hsim.post_of_ret hi).zero_iff.mp hzero
    obtain ⟨m', createTime', hm', hwrote'⟩ := (hsim.post_of_ret hj).zero_iff.mp hzero'
    obtain rfl := Option.some.inj (hm.symm.trans hmsg)
    obtain rfl := Option.some.inj (hm'.symm.trans hmsg')
    exact hinv.once i j _ _ ((hinv.wrote i _).mp hwrote) ((hinv.wrote j _).mp hwrote') hname

end Interleavings

/-! ## Two requests -/

/-- Both bodies register the user `u`, under different nick names. -/
def sampleRegistration : JsonReader := fun body =>
  some (.obj [(CString.lit "userName", .str (CString.lit "u")),
    (CString.lit "nickName", .str (CString.cStr body)),
    (CString.lit "firstPwd", .str (CString.lit "p"))])

def sampleBodies (second : Bool) : List UInt8 := if second then [98] else [97]

def registerInit : Config Bool Server.Command Command.Reply Response (Registry Bool) where
  shared := ⟨Mysql.Tables.empty, []⟩
  prog i := apiRegisterUser sampleRegistration (sampleBodies i)

/-- What the database of the samples answers: every statement can be prepared or none. -/
def registryReply (prepares : Bool) (i : Bool) :
    (c : Server.Command) → Registry Bool → Option (c.Reply × Registry Bool)
  | .query q, g => some (q.exec g.db, g)
  | .execute u, g =>
      match u.exec g.db with
      | some (n, t) => some (some n, ⟨t, g.executed ++ [(i, u)]⟩)
      | none => some (none, g)
  | .prepare, g => some (prepares, g)
  | .getDBConn _, g => some (.conn, g)
  | .relDBConn _, g => some ((), g)
  | .sys c, g => some (sampleSys c, g)
  | _, _ => none

theorem step_of_registryReply {prepares : Bool} {i : Bool} {c : Server.Command}
    {g g' : Registry Bool} {r : c.Reply} (h : registryReply prepares i c g = some (r, g')) :
    registryStep i c g r g' ∧ (prepares = true → Reported c g r g') := by
  cases c with
  | query q =>
      cases h
      exact ⟨⟨rfl, Or.inr rfl⟩, fun _ => trivial⟩
  | execute u =>
      simp only [registryReply] at h
      cases hexec : u.exec g.db with
      | none =>
          rw [hexec] at h
          cases h
          exact ⟨Or.inl ⟨rfl, rfl⟩, fun _ _ => rfl⟩
      | some out =>
          rw [hexec] at h
          cases h
          exact ⟨Or.inr ⟨_, _, hexec, Or.inl rfl, rfl⟩, fun _ => nofun⟩
  | prepare =>
      cases h
      exact ⟨rfl, id⟩
  | getDBConn pool => cases h; exact ⟨rfl, fun _ => trivial⟩
  | relDBConn pool => cases h; exact ⟨rfl, fun _ => trivial⟩
  | sys c => cases h; exact ⟨rfl, fun _ => trivial⟩
  | _ => cases h

/-- Both requests look the user up before either inserts it. -/
def registerOrder : List Bool :=
  [false, true, false, true, false, false, false, false, true, true, true, true]

/-- The codes of the answers of both. -/
def answers (cfg : Config Bool Server.Command Command.Reply Response (Registry Bool)) :
    Option Int × Option Int :=
  (codeAt (cfg.prog false), codeAt (cfg.prog true))
where
  codeAt : Handler Response → Option Int
    | .ret response => codeOf response
    | _ => none

/-- The second insert fails on the unique key. -/
theorem registrations_truthful_two :
    ∃ cfg, schedule (registryReply true) registerOrder registerInit = some cfg ∧
      answers cfg = (some 0, some 1) ∧ Truthful sampleRegistration sampleBodies cfg := by
  have hrun : (schedule (registryReply true) registerOrder registerInit).map answers =
      some (some 0, some 1) := by decide +kernel
  obtain ⟨cfg, hcfg, hanswers⟩ := Option.map_eq_some_iff.mp hrun
  have hallowed : ∀ i c g r g', registryReply true i c g = some (r, g') →
      (registrySystem Reported).step i c g r g' :=
    fun _ _ _ _ _ h => (step_of_registryReply h).imp_right fun hreported => hreported rfl
  have hreach := reachable_of_schedule hallowed .refl hcfg
  exact ⟨cfg, hcfg, hanswers,
    registrations_truthful sampleRegistration sampleBodies ⟨fun _ => rfl, rfl⟩ hreach⟩

/-- A registration whose statement cannot be prepared answers 0 and inserts nothing. -/
theorem not_truthful_unprepared :
    ¬ ∀ cfg, Reachable (registrySystem fun _ _ _ _ => True) registerInit cfg →
      Truthful sampleRegistration sampleBodies cfg := by
  intro h
  have hrun : (schedule (registryReply false) [false, false, false, false, false] registerInit).map
      (fun cfg => (answers cfg, cfg.shared.executed.isEmpty)) = some ((some 0, none), true) := by
    decide +kernel
  obtain ⟨cfg, hcfg, hout⟩ := Option.map_eq_some_iff.mp hrun
  have hallowed : ∀ i c g r g', registryReply false i c g = some (r, g') →
      (registrySystem fun _ _ _ _ => True).step i c g r g' :=
    fun _ _ _ _ _ hreply => ⟨(step_of_registryReply hreply).1, trivial⟩
  have htruthful := h cfg (reachable_of_schedule hallowed .refl hcfg)
  obtain ⟨hanswers, hempty⟩ := Prod.mk.inj hout
  have hcode := (Prod.mk.inj hanswers).1
  cases hprog : cfg.prog false with
  | ret response =>
      rw [hprog] at hcode
      obtain ⟨_, _, _, hmem, _⟩ := (htruthful.zero false response hprog).mp hcode
      rw [List.isEmpty_iff.mp hempty] at hmem
      cases hmem
  | cmd c k =>
      rw [hprog] at hcode
      cases hcode
  | fail =>
      rw [hprog] at hcode
      cases hcode

end Replies
end TcMuzi
