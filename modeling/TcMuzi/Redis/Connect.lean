import TcMuzi.Lib.Runs
import TcMuzi.Redis.Store

/-!
# Connecting to Redis

`CacheConn::Init` is entered before every command and does nothing while there is a context.
What a failing handshake or a command without a reply leaves behind is therefore what the
next command uses.
-/

namespace TcMuzi
namespace Redis

open Base

/-! ## The connection -/

/-- A `redisContext`, with what the server has been told on it. -/
structure Context where
  err : Bool
  authenticated : Bool
  selected : Option Nat
deriving DecidableEq

structure CacheConnConfig where
  dbIndex : Nat
  password : CString

/-- The members of a `CacheConn` that change. -/
structure CacheConnState where
  context : Option Context
  lastConnectTime : Nat
deriving DecidableEq

namespace CacheConnState

/-- The constructor. -/
def new : CacheConnState := ⟨none, 0⟩

end CacheConnState

/-- `redisConnectWithTimeout`: NULL, a context with an error, or a connection. -/
inductive Connecting
  | null
  | error
  | connected
deriving DecidableEq

/-- How the server answers a handshake; no reply is a NULL one. -/
structure Handshake where
  connecting : Connecting
  auth : Option Reply
  select : Option Reply

/-- `redisCommand`: NULL on a context with an error, which a NULL reply sets. -/
def redisCommandOn (answer : Option Reply) (context : Context) : Option Reply × Context :=
  if context.err then (none, context)
  else
    match answer with
    | none => (none, { context with err := true })
    | some reply => (some reply, context)

/-- The `AUTH` reply that ends the handshake. -/
def refused : Option Reply → Bool
  | none => true
  | some (.error _) => true
  | some _ => false

/-- A status that begins with `OK`. -/
def isOk : Option Reply → Bool
  | some (.status text) => (CString.lit "OK").bytes.isPrefixOf text.bytes
  | _ => false

/-- `AUTH`, if a password is configured; the second component is whether the handshake goes
on. -/
def authenticate (cfg : CacheConnConfig) (answer : Option Reply) (context : Context) :
    Context × Bool :=
  if cfg.password ≠ CString.empty then
    let (reply, context) := redisCommandOn answer context
    if refused reply then (context, false)
    else ({ context with authenticated := true }, true)
  else (context, true)

/-- `SELECT 0`, and the return code of `Init`. -/
def selectDb (answer : Option Reply) (context : Context) : Int × Context :=
  let (reply, context) := redisCommandOn answer context
  if isOk reply then (0, { context with selected := some 0 }) else (2, context)

/-- `Init` at a time of the clock in seconds. -/
def CacheConnState.init (cfg : CacheConnConfig) (curTime : Nat) (shake : Handshake)
    (s : CacheConnState) : Int × CacheConnState :=
  match s.context with
  | some _ => (0, s)
  | none =>
      if curTime < s.lastConnectTime + 1 then (1, s)
      else
        match shake.connecting with
        | .null => (1, ⟨none, curTime⟩)
        | .error => (1, ⟨none, curTime⟩)
        | .connected =>
            match authenticate cfg shake.auth ⟨false, false, none⟩ with
            | (context, false) => (-1, ⟨some context, curTime⟩)
            | (context, true) =>
                let (ret, context) := selectDb shake.select context
                (ret, ⟨some context, curTime⟩)

/-! ## The commands -/

inductive Method
  | isExists | del
  | get | set | setEx
  | mGet (keys : List CString)
  | incr | decr
  | hdel | hget
  -- the one that fills a buffer
  | hgetBuffer
  | hgetAll | hset | hincrBy | incrBy | hmset | hmget
  | lpush | rpush | llen | lrange
  | zsetExist | zsetAdd | zsetZrem | zsetIncr | zsetZcard | zsetZrevrange | zsetGetScore
  | flushDb
deriving DecidableEq

/-- Nothing is sent without a key. -/
def Method.sends : Method → Bool
  | .mGet keys => keys ≠ [] ∧ keys ≠ [CString.empty]
  | _ => true

/-- What becomes of a context without a reply. -/
inductive OnNull
  | frees
  | keeps
  -- the type of the reply is read
  | crashes
deriving DecidableEq

def Method.onNull : Method → OnNull
  | .hgetBuffer => .keeps
  | .zsetExist => .crashes
  | .zsetAdd => .crashes
  | .zsetZrem => .crashes
  | .zsetIncr => .crashes
  | .zsetZcard => .crashes
  | .zsetZrevrange => .crashes
  | .zsetGetScore => .crashes
  | _ => .frees

inductive Event
  | init (curTime : Nat) (shake : Handshake)
  | deInit
  | command (method : Method) (curTime : Nat) (shake : Handshake) (answer : Option Reply)

/-- What an event does: the return code of `Init` if it is called and the context behind it,
the context a command is sent on, and the connection unless the process dies. -/
structure Effect where
  initRet : Option Int := none
  context : Option Context := none
  sentOn : Option Context := none
  after : Option CacheConnState

/-- A method behind `Init`. -/
def runMethod (method : Method) (answer : Option Reply) (ret : Int) (s : CacheConnState) :
    Effect :=
  match s.context with
  | none => { initRet := some ret, after := some s }
  | some context =>
      if ret ≠ 0 ∨ method.sends = false then
        { initRet := some ret, context := some context, after := some s }
      else
        let (reply, context') := redisCommandOn answer context
        let after :=
          match reply, method.onNull with
          | some _, _ => some { s with context := some context' }
          | none, .frees => some { s with context := none }
          | none, .keeps => some { s with context := some context' }
          | none, .crashes => none
        { initRet := some ret, context := some context, sentOn := some context, after := after }

def perform (cfg : CacheConnConfig) : Event → CacheConnState → Effect
  | .init curTime shake, s =>
      let (ret, s) := s.init cfg curTime shake
      { initRet := some ret, context := s.context, after := some s }
  | .deInit, s => { after := some { s with context := none } }
  | .command method curTime shake answer, s =>
      let (ret, s) := s.init cfg curTime shake
      runMethod method answer ret s

/-- The states that a list of events goes through. -/
def states (cfg : CacheConnConfig) : List Event → CacheConnState → List CacheConnState
  | [], s => [s]
  | event :: events, s =>
      s :: match (perform cfg event s).after with
        | none => []
        | some s => states cfg events s

/-! ## Ready connections -/

/-- Connected, authenticated if there is a password, and with the configured database. -/
structure Ready (cfg : CacheConnConfig) (context : Context) : Prop where
  connected : context.err = false
  authenticated : cfg.password ≠ CString.empty → context.authenticated = true
  selected : context.selected = some cfg.dbIndex

/-- `Init` returns 0 on a ready context only, and nothing is sent on another. -/
structure Sound (cfg : CacheConnConfig) (effect : Effect) : Prop where
  init : effect.initRet = some 0 → ∃ context ∈ effect.context, Ready cfg context
  sent : ∀ context ∈ effect.sentOn, Ready cfg context

/-- The step connects. -/
def Connects (curTime : Nat) (shake : Handshake) (s : CacheConnState) : Prop :=
  s.context = none ∧ s.lastConnectTime + 1 ≤ curTime ∧ shake.connecting = .connected

/-- The answers to `AUTH` and `SELECT` with which a handshake succeeds. -/
def Accepted (cfg : CacheConnConfig) (shake : Handshake) : Prop :=
  (cfg.password ≠ CString.empty → refused shake.auth = false) ∧ isOk shake.select = true

/-- A handshake succeeds where one is made, and the method that keeps its context has a
reply. -/
def Meets (cfg : CacheConnConfig) : Event → CacheConnState → Prop
  | .init curTime shake, s => Connects curTime shake s → Accepted cfg shake
  | .deInit, _ => True
  | .command method curTime shake answer, s =>
      (Connects curTime shake s → Accepted cfg shake) ∧
        (method = .hgetBuffer → (s.init cfg curTime shake).1 = 0 → answer ≠ none)

/-- Every step of the events meets the condition where it starts. -/
def MetBy (cfg : CacheConnConfig) : List Event → CacheConnState → Prop
  | [], _ => True
  | event :: events, s =>
      Meets cfg event s ∧ ∀ s' ∈ (perform cfg event s).after, MetBy cfg events s'

/-- The invariant: a context that is there is ready. -/
def AllReady (cfg : CacheConnConfig) (s : CacheConnState) : Prop :=
  ∀ context ∈ s.context, Ready cfg context

section Init

variable {cfg : CacheConnConfig} {answer : Option Reply} {context : Context}

theorem authenticate_of_accepted
    (h : cfg.password ≠ CString.empty → refused answer = false) :
    authenticate cfg answer ⟨false, false, none⟩ =
      (⟨false, decide (cfg.password ≠ CString.empty), none⟩, true) := by
  rw [authenticate]
  by_cases hpassword : cfg.password = CString.empty
  · simp [hpassword]
  · have hanswer := h hpassword
    cases answer with
    | none => cases hanswer
    | some reply => simp [hpassword, redisCommandOn, hanswer]

theorem authenticate_of_refused (hpassword : cfg.password ≠ CString.empty)
    (h : refused answer = true) :
    ∃ context, authenticate cfg answer ⟨false, false, none⟩ = (context, false) ∧
      context.selected = none := by
  rw [authenticate, if_pos hpassword]
  cases answer with
  | none => exact ⟨⟨true, false, none⟩, by simp [redisCommandOn, refused], rfl⟩
  | some reply => exact ⟨⟨false, false, none⟩, by simp [redisCommandOn, h], rfl⟩

theorem selectDb_of_ok (context : Context) (hcontext : context.err = false) (h : isOk answer = true) :
    selectDb answer context = (0, { context with selected := some 0 }) := by
  cases answer with
  | none => cases h
  | some reply => simp [selectDb, redisCommandOn, hcontext, h]

theorem selectDb_of_not_ok (context : Context) (h : isOk answer = false) :
    ∃ context', selectDb answer context = (2, context') ∧
      context'.selected = context.selected := by
  cases herr : context.err with
  | true => exact ⟨context, by simp [selectDb, redisCommandOn, herr, isOk], rfl⟩
  | false =>
      cases answer with
      | none =>
          exact ⟨{ context with err := true }, by simp [selectDb, redisCommandOn, herr, isOk], rfl⟩
      | some reply => exact ⟨context, by simp [selectDb, redisCommandOn, herr, h], rfl⟩

variable {curTime : Nat} {shake : Handshake} {s : CacheConnState}

/-- A context that is there stays; without one a handshake is made, or not. -/
theorem init_of_context (h : s.context = some context) : s.init cfg curTime shake = (0, s) := by
  rw [CacheConnState.init, h]

theorem init_of_not_connects (hnone : s.context = none) (h : ¬ Connects curTime shake s) :
    (s.init cfg curTime shake).1 = 1 ∧ (s.init cfg curTime shake).2.context = none := by
  rw [CacheConnState.init, hnone]
  by_cases htime : curTime < s.lastConnectTime + 1
  · simp [htime, hnone]
  · cases hconnecting : shake.connecting with
    | null => simp [htime]
    | error => simp [htime]
    | connected => exact absurd ⟨hnone, by omega, hconnecting⟩ h

theorem init_of_accepted (hconnects : Connects curTime shake s) (h : Accepted cfg shake) :
    s.init cfg curTime shake =
      (0, ⟨some ⟨false, decide (cfg.password ≠ CString.empty), some 0⟩, curTime⟩) := by
  obtain ⟨hnone, htime, hconnecting⟩ := hconnects
  rw [CacheConnState.init, hnone]
  simp only [if_neg (show ¬ curTime < s.lastConnectTime + 1 by omega), hconnecting,
    authenticate_of_accepted h.1, selectDb_of_ok ⟨false, _, none⟩ rfl h.2]

/-- A handshake that fails leaves its context, on which no database is selected. -/
theorem init_of_not_accepted (hconnects : Connects curTime shake s) (h : ¬ Accepted cfg shake) :
    (s.init cfg curTime shake).1 ≠ 0 ∧
      ∃ context, (s.init cfg curTime shake).2.context = some context ∧
        context.selected = none := by
  obtain ⟨hnone, htime, hconnecting⟩ := hconnects
  rw [CacheConnState.init, hnone]
  simp only [if_neg (show ¬ curTime < s.lastConnectTime + 1 by omega), hconnecting]
  by_cases hauth : cfg.password ≠ CString.empty → refused shake.auth = false
  · have hselect : isOk shake.select = false := by
      simpa using fun hok => h ⟨hauth, hok⟩
    obtain ⟨context, heq, hselected⟩ := selectDb_of_not_ok
      ⟨false, decide (cfg.password ≠ CString.empty), none⟩ hselect
    simp only [authenticate_of_accepted hauth, heq]
    exact ⟨by decide, context, rfl, hselected⟩
  · obtain ⟨hpassword, hrefused⟩ := Classical.not_imp.mp hauth
    obtain ⟨context, heq, hselected⟩ := authenticate_of_refused hpassword
      (Bool.eq_true_of_not_eq_false hrefused)
    simp only [heq]
    exact ⟨by decide, context, rfl, hselected⟩

/-- `Init` succeeds on ready contexts only, and keeps them, when the database is the one it
selects. -/
theorem ready_of_init (hdb : cfg.dbIndex = 0) (hs : AllReady cfg s)
    (hret : (s.init cfg curTime shake).1 = 0) :
    ∃ context, (s.init cfg curTime shake).2.context = some context ∧ Ready cfg context := by
  cases hcontext : s.context with
  | some context =>
      rw [init_of_context hcontext]
      exact ⟨context, hcontext, hs context hcontext⟩
  | none =>
      by_cases hconnects : Connects curTime shake s
      · by_cases haccepted : Accepted cfg shake
        · rw [init_of_accepted hconnects haccepted]
          exact ⟨_, rfl, rfl, fun h => decide_eq_true h, by rw [hdb]⟩
        · exact absurd hret (init_of_not_accepted hconnects haccepted).1
      · rw [(init_of_not_connects hcontext hconnects).1] at hret
        cases hret

theorem allReady_init (hdb : cfg.dbIndex = 0) (hs : AllReady cfg s)
    (h : Connects curTime shake s → Accepted cfg shake) :
    AllReady cfg (s.init cfg curTime shake).2 := by
  intro context hmem
  cases hcontext : s.context with
  | some context' =>
      rw [init_of_context hcontext] at hmem
      exact hs context hmem
  | none =>
      by_cases hconnects : Connects curTime shake s
      · rw [init_of_accepted hconnects (h hconnects)] at hmem
        obtain rfl := Option.some.inj hmem
        exact ⟨rfl, fun hpassword => decide_eq_true hpassword, by rw [hdb]⟩
      · rw [(init_of_not_connects hcontext hconnects).2] at hmem
        cases hmem

end Init

section Steps

variable {cfg : CacheConnConfig} {event : Event} {s : CacheConnState}

theorem runMethod_of_ret {method : Method} {answer : Option Reply} {ret : Int} (h : ret ≠ 0) :
    runMethod method answer ret s =
      { initRet := some ret, context := s.context, after := some s } := by
  rw [runMethod]
  cases hcontext : s.context with
  | none => rfl
  | some context => simp only [if_pos (Or.inl h)]

/-- What a method does on a context without an error. -/
theorem runMethod_after {method : Method} {answer : Option Reply} {context : Context}
    (hcontext : s.context = some context) (herr : context.err = false) :
    (runMethod method answer 0 s).after =
      if answer ≠ none ∨ method.sends = false then some s
      else
        match method.onNull with
        | .frees => some { s with context := none }
        | .keeps => some { s with context := some { context with err := true } }
        | .crashes => none := by
  rw [runMethod, hcontext]
  cases hsends : method.sends with
  | false => simp
  | true =>
      cases answer with
      | none => cases method.onNull <;> simp [redisCommandOn, herr]
      | some reply =>
          obtain ⟨_, lastConnectTime⟩ := s
          obtain rfl : _ = some context := hcontext
          simp [redisCommandOn, herr]

theorem sound_runMethod {method : Method} {answer : Option Reply} {ret : Int}
    (h : ret = 0 → ∃ context, s.context = some context ∧ Ready cfg context) :
    Sound cfg (runMethod method answer ret s) := by
  by_cases hret : ret = 0
  · obtain ⟨context, hcontext, hready⟩ := h hret
    simp only [runMethod, hcontext]
    split
    case isTrue => exact ⟨fun _ => ⟨context, rfl, hready⟩, fun _ hmem => by cases hmem⟩
    case isFalse =>
      refine ⟨fun _ => ⟨context, rfl, hready⟩, fun _ hmem => ?_⟩
      obtain rfl := Option.some.inj hmem
      exact hready
  · rw [runMethod_of_ret hret]
    exact ⟨fun heq => absurd (Option.some.inj heq) hret, fun _ hmem => by cases hmem⟩

theorem sound_perform (hdb : cfg.dbIndex = 0) (hs : AllReady cfg s) (event : Event) :
    Sound cfg (perform cfg event s) := by
  cases event with
  | init curTime shake =>
      refine ⟨fun hret => ?_, fun _ hmem => by cases hmem⟩
      exact ready_of_init hdb hs (Option.some.inj hret)
  | deInit =>
      constructor
      · intro hret
        cases hret
      · intro _ hmem
        cases hmem
  | command method curTime shake answer => exact sound_runMethod (ready_of_init hdb hs)

theorem allReady_perform (hdb : cfg.dbIndex = 0) (hs : AllReady cfg s)
    (h : Meets cfg event s) : ∀ s' ∈ (perform cfg event s).after, AllReady cfg s' := by
  intro s' hafter
  cases event with
  | init curTime shake =>
      obtain rfl := Option.some.inj hafter
      exact allReady_init hdb hs h
  | deInit =>
      obtain rfl := Option.some.inj hafter
      intro context hmem
      cases hmem
  | command method curTime shake answer =>
      have hinit := allReady_init hdb hs h.1
      change (runMethod method answer (s.init cfg curTime shake).1
        (s.init cfg curTime shake).2).after = some s' at hafter
      by_cases hret : (s.init cfg curTime shake).1 = 0
      · obtain ⟨context, hcontext, hready⟩ := ready_of_init hdb hs hret
        rw [hret, runMethod_after hcontext hready.connected] at hafter
        split at hafter
        case isTrue =>
          obtain rfl := Option.some.inj hafter
          exact hinit
        case isFalse hanswer =>
          rw [not_or, not_not] at hanswer
          cases honNull : method.onNull with
          | frees =>
              rw [honNull] at hafter
              obtain rfl := Option.some.inj hafter
              intro context' hmem
              cases hmem
          | keeps =>
              have hmethod : method = .hgetBuffer := by
                revert honNull
                cases method <;> simp [Method.onNull]
              exact absurd hanswer.1 (h.2 hmethod hret)
          | crashes =>
              rw [honNull] at hafter
              cases hafter
      · rw [runMethod_of_ret hret] at hafter
        obtain rfl := Option.some.inj hafter
        exact hinit

/-- A step that does not meet the condition leaves a context that is not ready. -/
theorem not_allReady_perform (hdb : cfg.dbIndex = 0) (hs : AllReady cfg s)
    (h : ¬ Meets cfg event s) : ∃ s' ∈ (perform cfg event s).after, ¬ AllReady cfg s' := by
  have hfailed {curTime : Nat} {shake : Handshake}
      (hshake : ¬ (Connects curTime shake s → Accepted cfg shake)) :
      (s.init cfg curTime shake).1 ≠ 0 ∧ ¬ AllReady cfg (s.init cfg curTime shake).2 := by
    obtain ⟨hconnects, haccepted⟩ := Classical.not_imp.mp hshake
    obtain ⟨hret, context, hcontext, hselected⟩ := init_of_not_accepted hconnects haccepted
    refine ⟨hret, fun hall => ?_⟩
    have hready := (hall context hcontext).selected
    rw [hselected] at hready
    cases hready
  cases event with
  | init curTime shake => exact ⟨_, rfl, (hfailed h).2⟩
  | deInit => exact absurd trivial h
  | command method curTime shake answer =>
      by_cases hshake : Connects curTime shake s → Accepted cfg shake
      · have hbuffer : ¬ (method = .hgetBuffer → (s.init cfg curTime shake).1 = 0 →
            answer ≠ none) := fun hbuffer => h ⟨hshake, hbuffer⟩
        obtain ⟨rfl, hreply⟩ := Classical.not_imp.mp hbuffer
        obtain ⟨hret, hanswer⟩ := Classical.not_imp.mp hreply
        obtain ⟨context, hcontext, hready⟩ := ready_of_init hdb hs hret
        obtain rfl : answer = none := not_not.mp hanswer
        refine ⟨{ (s.init cfg curTime shake).2 with
          context := some { context with err := true } }, ?_, fun hall => ?_⟩
        · change (runMethod .hgetBuffer none (s.init cfg curTime shake).1
            (s.init cfg curTime shake).2).after = _
          rw [hret, runMethod_after hcontext hready.connected]
          rfl
        · cases (hall _ rfl).connected
      · obtain ⟨hret, hunready⟩ := hfailed hshake
        refine ⟨(s.init cfg curTime shake).2, ?_, hunready⟩
        change (runMethod method answer (s.init cfg curTime shake).1
          (s.init cfg curTime shake).2).after = _
        rw [runMethod_of_ret hret]

/-- The next `Init` returns 0 on whatever context there is. -/
theorem allReady_of_sound (h : ∀ event, Sound cfg (perform cfg event s)) : AllReady cfg s := by
  intro context hcontext
  have hinit := (h (.init 0 ⟨.null, none, none⟩)).init
  simp only [perform, init_of_context hcontext, forall_const] at hinit
  obtain ⟨context', hmem, hready⟩ := hinit
  obtain rfl := Option.some.inj (hcontext.symm.trans hmem)
  exact hready

end Steps

/-! ## Every list of events -/

section Runs

variable {cfg : CacheConnConfig}

theorem mem_states_self (cfg : CacheConnConfig) (events : List Event) (s : CacheConnState) :
    s ∈ states cfg events s := by
  cases events with
  | nil => exact List.mem_cons_self
  | cons event events => exact List.mem_cons_self

theorem allReady_new : AllReady cfg .new := by
  intro context hmem
  cases hmem

/-- The condition on every step keeps the invariant through the events. -/
theorem allReady_of_metBy (hdb : cfg.dbIndex = 0) {events : List Event} {s : CacheConnState}
    (hs : AllReady cfg s) (h : MetBy cfg events s) : ∀ s' ∈ states cfg events s, AllReady cfg s' := by
  induction events generalizing s with
  | nil =>
      intro s' hmem
      obtain rfl := List.mem_singleton.mp hmem
      exact hs
  | cons event events ih =>
      intro s' hmem
      rw [states] at hmem
      rcases List.mem_cons.mp hmem with rfl | hmem
      · exact hs
      · cases hafter : (perform cfg event s).after with
        | none =>
            rw [hafter] at hmem
            cases hmem
        | some next =>
            rw [hafter] at hmem
            exact ih (allReady_perform hdb hs h.1 next hafter) (h.2 next hafter) s' hmem

theorem metBy_of_allReady (hdb : cfg.dbIndex = 0) {events : List Event} {s : CacheConnState}
    (h : ∀ s' ∈ states cfg events s, AllReady cfg s') : MetBy cfg events s := by
  induction events generalizing s with
  | nil => trivial
  | cons event events ih =>
      have hs := h s (mem_states_self cfg _ s)
      have hnext : ∀ next ∈ (perform cfg event s).after,
          ∀ s' ∈ states cfg events next, AllReady cfg s' := by
        intro next hafter s' hmem
        refine h s' ?_
        rw [states, hafter]
        exact List.mem_cons_of_mem s hmem
      refine ⟨?_, fun next hafter => ih (hnext next hafter)⟩
      by_contra hmeets
      obtain ⟨next, hafter, hunready⟩ := not_allReady_perform hdb hs hmeets
      exact hunready (hnext next hafter next (mem_states_self cfg events next))

/-- A handshake in which the server says yes to everything. -/
def welcome : Handshake := ⟨.connected, some (.status (CString.lit "OK")),
  some (.status (CString.lit "OK"))⟩

theorem accepted_welcome : Accepted cfg welcome :=
  ⟨fun _ => rfl, by decide +kernel⟩

theorem connects_welcome : Connects 1 welcome .new := ⟨rfl, by decide, rfl⟩

/-- On every connection, through every list of events: `Init` returns 0 and commands are sent
on ready contexts only, where database 0 is configured, every handshake that is made
succeeds, and no buffer is filled without a reply. -/
theorem sound_iff (cfg : CacheConnConfig) (events : List Event) :
    (∀ s ∈ states cfg events .new, ∀ event, Sound cfg (perform cfg event s)) ↔
      cfg.dbIndex = 0 ∧ MetBy cfg events .new := by
  constructor
  · intro h
    have hdb : cfg.dbIndex = 0 := by
      have hfirst := (h .new (mem_states_self cfg events .new) (.init 1 welcome)).init
      simp only [perform, init_of_accepted connects_welcome accepted_welcome,
        forall_const] at hfirst
      obtain ⟨context, hmem, hready⟩ := hfirst
      obtain rfl := Option.some.inj hmem
      exact (Option.some.inj hready.selected).symm
    exact ⟨hdb, metBy_of_allReady hdb fun s hs => allReady_of_sound (h s hs)⟩
  · rintro ⟨hdb, hmet⟩ s hs event
    exact sound_perform hdb (allReady_of_metBy hdb allReady_new hmet s hs) event

/-- The pool with database 1 gets a connection to database 0. -/
theorem not_sound_rankingList :
    ¬ ∀ s ∈ states ⟨1, CString.empty⟩ [] .new, ∀ event,
      Sound ⟨1, CString.empty⟩ (perform ⟨1, CString.empty⟩ event s) := by
  intro h
  have hfirst := (h .new List.mem_cons_self (.init 1 welcome)).init
  rw [perform, init_of_accepted connects_welcome accepted_welcome] at hfirst
  obtain ⟨context, hmem, hready⟩ := hfirst rfl
  obtain rfl := Option.some.inj hmem
  cases hready.selected

end Runs

end Redis
end TcMuzi
