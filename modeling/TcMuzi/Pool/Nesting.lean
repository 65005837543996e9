import TcMuzi.Api.Request

/-!
# How the requests nest their connections

`nesting` is an automaton that follows one request: what it holds, and whether it has
begun a transaction that it did not end.  It allows a MySQL connection to be taken by a
request that holds nothing, a Redis connection by one that holds at most a slave
connection, and neither inside a transaction.  Every entry point follows it and ends
holding nothing.
-/

namespace TcMuzi
namespace Pool

open Base Server Redis Api Lib

/-- What a request holds, and whether it has an open transaction. -/
structure Held where
  db : Option DBInstance
  cache : Bool
  txn : Bool

def Held.nothing : Held := ⟨none, false, false⟩

/-- Where a request may take or give back a connection. -/
def mayIssue : Held → Server.Command → Prop
  | h, .getDBConn _ => h.db = none ∧ h.cache = false ∧ h.txn = false
  | h, .getCacheConn => h.db ≠ some .tuchuangMaster ∧ h.cache = false ∧ h.txn = false
  | h, .relDBConn pool => h.db = some pool
  | h, .relCacheConn => h.cache = true
  | _, _ => True

def dbOf (pool : DBInstance) : Ptr → Option DBInstance
  | .null => none
  | .conn => some pool

def cacheOf : Ptr → Bool
  | .null => false
  | .conn => true

/-- A transaction is open from a successful start to a successful end. -/
def openAfter : (c : Server.Command) → c.Reply → Bool → Bool
  | .startTransaction, started, txn => txn || started
  | .commit, ended, txn => txn && !ended
  | .rollback, ended, txn => txn && !ended
  | _, _, txn => txn

def heldAfter : (c : Server.Command) → c.Reply → Held → Held
  | .getDBConn pool, ptr, h => { h with db := dbOf pool ptr }
  | .relDBConn _, _, h => { h with db := none }
  | .getCacheConn, ptr, h => { h with cache := cacheOf ptr }
  | .relCacheConn, _, h => { h with cache := false }
  | c, r, h => { h with txn := openAfter c r h.txn }

def nesting : Sem Server.Command Command.Reply Held where
  step c h r h' := h' = heldAfter c r h
  safe := mayIssue

/-! ## Commands that take no connection -/

/-- Commands of a handler's body: SQL statements, system calls, Redis commands. -/
def Plain (c : Server.Command) : Prop :=
  IsLocal c ∨ RedisOnly c

/-- The same inside a transaction. -/
def InTransaction (c : Server.Command) : Prop :=
  Plain c ∨ c = .startTransaction ∨ c = .commit ∨ c = .rollback

theorem plain_of_isLocal (c : Server.Command) (h : IsLocal c) : Plain c := Or.inl h

theorem plain_redis (c : Redis.Command) : Plain (.redis c) := Or.inr trivial

theorem plain_fileCommand (user : CString) (c : Redis.Command) (_ : FileCommand user c) :
    Plain (.redis c) :=
  plain_redis c

theorem inTransaction_of_isLocal (c : Server.Command) (h : IsLocal c) : InTransaction c :=
  Or.inl (Or.inl h)

theorem inTransaction_fileCommand (user : CString) (c : Redis.Command) (_ : FileCommand user c) :
    InTransaction (.redis c) :=
  Or.inl (plain_redis c)

theorem inTransaction_commands :
    InTransaction .startTransaction ∧ InTransaction .commit ∧ InTransaction .rollback :=
  ⟨Or.inr (Or.inl rfl), Or.inr (Or.inr (Or.inl rfl)), Or.inr (Or.inr (Or.inr rfl))⟩

/-- Commands that keep the connections, and `T` of the transaction. -/
structure Steady (T : Bool → Prop) (P : Server.Command → Prop) : Prop where
  may : ∀ c h, P c → mayIssue h c
  db : ∀ c r h, P c → (heldAfter c r h).db = h.db
  cache : ∀ c r h, P c → (heldAfter c r h).cache = h.cache
  txn : ∀ c r h, P c → T h.txn → T (heldAfter c r h).txn

theorem mayIssue_of_plain {c : Server.Command} (hc : Plain c) (h : Held) : mayIssue h c := by
  cases c <;> first | trivial | exact absurd hc (by simp [Plain, IsLocal, RedisOnly])

theorem heldAfter_of_plain {c : Server.Command} (hc : Plain c) (r : c.Reply) (h : Held) :
    heldAfter c r h = h := by
  cases c <;> first | rfl | exact absurd hc (by simp [Plain, IsLocal, RedisOnly])

theorem steady_plain : Steady (· = false) Plain where
  may _ h hc := mayIssue_of_plain hc h
  db _ r h hc := by rw [heldAfter_of_plain hc]
  cache _ r h hc := by rw [heldAfter_of_plain hc]
  txn _ r h hc htxn := by rwa [heldAfter_of_plain hc]

theorem steady_inTransaction : Steady (fun _ => True) InTransaction where
  may _ h := by
    rintro (hplain | rfl | rfl | rfl)
    · exact mayIssue_of_plain hplain h
    all_goals trivial
  db _ r h := by
    rintro (hplain | rfl | rfl | rfl)
    · rw [heldAfter_of_plain hplain]
    all_goals rfl
  cache _ r h := by
    rintro (hplain | rfl | rfl | rfl)
    · rw [heldAfter_of_plain hplain]
    all_goals rfl
  txn _ _ _ _ _ := trivial

/-! ## Taking connections -/

section Connections

variable {α β : Type} {T : Bool → Prop} {P : Server.Command → Prop}

theorem wp_getDBConn {pool : DBInstance} {Q : Ptr → Held → Prop}
    (h : ∀ ptr, Q ptr ⟨dbOf pool ptr, false, false⟩) :
    wp nesting (getDBConn pool) Q Held.nothing := by
  refine ⟨⟨rfl, rfl, rfl⟩, ?_⟩
  rintro ptr h' rfl
  exact h ptr

theorem wp_relDBConn {pool : DBInstance} {Q : Unit → Held → Prop} {h : Held}
    (hheld : h.db = some pool) (hQ : Q () { h with db := none }) :
    wp nesting (relDBConn pool) Q h := by
  refine ⟨hheld, ?_⟩
  rintro _ h' rfl
  exact hQ

theorem wp_getCacheConn {Q : Ptr → Held → Prop} {h : Held} (hdb : h.db ≠ some .tuchuangMaster)
    (hcache : h.cache = false) (htxn : h.txn = false)
    (hQ : ∀ ptr, Q ptr { h with cache := cacheOf ptr }) : wp nesting getCacheConn Q h := by
  refine ⟨⟨hdb, hcache, htxn⟩, ?_⟩
  rintro ptr h' rfl
  exact hQ ptr

theorem wp_relCacheConn {Q : Unit → Held → Prop} {h : Held} (hheld : h.cache = true)
    (hQ : Q () { h with cache := false }) : wp nesting relCacheConn Q h := by
  refine ⟨hheld, ?_⟩
  rintro _ h' rfl
  exact hQ

/-- The body of a handler keeps the connections. -/
theorem wp_of_steady (hP : Steady T P) {p : Handler α} (hp : Uses P p) {h : Held} (hT : T h.txn) :
    wp nesting p (fun _ h' => h'.db = h.db ∧ h'.cache = h.cache ∧ T h'.txn) h := by
  have hI : (fun h' : Held => h'.db = h.db ∧ h'.cache = h.cache ∧ T h'.txn) h := ⟨rfl, rfl, hT⟩
  refine wp_of_uses (fun c h' hc _ => hP.may c h' hc) ?_ (fun _ _ => trivial) hp hI
  rintro c h' r h'' hc ⟨hdb, hcache, htxn⟩ rfl
  exact ⟨(hP.db c r h' hc).trans hdb, (hP.cache c r h' hc).trans hcache, hP.txn c r h' hc htxn⟩

/-- The Redis connection is given back at the end of its block. -/
theorem wp_withCacheConn (hP : Steady T P) {body : Ptr → Handler α}
    (hbody : ∀ ptr, Uses P (body ptr)) {h : Held} (hdb : h.db ≠ some .tuchuangMaster)
    (hcache : h.cache = false) (htxn : h.txn = false) (hT : T false) :
    wp nesting (withCacheConn body) (fun _ h' => h'.db = h.db ∧ h'.cache = false ∧ T h'.txn) h := by
  rw [withCacheConn, wp_bind]
  refine wp_getCacheConn hdb hcache htxn fun ptr => ?_
  rw [wp_bind]
  refine wp_mono (wp_of_steady hP (hbody ptr) (htxn ▸ hT)) ?_
  rintro a h' ⟨hdb', hcache', htxn'⟩
  cases ptr with
  | null => exact ⟨hdb', hcache', htxn'⟩
  | conn =>
      show wp nesting (relCacheConn >>= _) _ h'
      rw [wp_bind]
      exact wp_relCacheConn hcache' ⟨hdb', rfl, htxn'⟩

/-- The MySQL connection is given back at the end of its block. -/
theorem wp_withDBConn {pool : DBInstance} {body : Ptr → Handler α}
    (hbody : ∀ ptr, wp nesting (body ptr)
      (fun _ h' => h'.db = dbOf pool ptr ∧ h'.cache = false ∧ T h'.txn)
      ⟨dbOf pool ptr, false, false⟩) :
    wp nesting (withDBConn pool body) (fun _ h' => h'.db = none ∧ h'.cache = false ∧ T h'.txn)
      Held.nothing := by
  rw [withDBConn, wp_bind]
  refine wp_getDBConn fun ptr => ?_
  rw [wp_bind]
  refine wp_mono (hbody ptr) ?_
  rintro a h' ⟨hdb', hcache', htxn'⟩
  cases ptr with
  | null => exact ⟨hdb', hcache', htxn'⟩
  | conn =>
      show wp nesting (relDBConn pool >>= _) _ h'
      rw [wp_bind]
      exact wp_relDBConn hdb' ⟨rfl, hcache', htxn'⟩

/-- From holding nothing to holding nothing, whatever becomes of a transaction. -/
def Returns (T : Bool → Prop) (p : Handler α) : Prop :=
  wp nesting p (fun _ h => h.db = none ∧ h.cache = false ∧ T h.txn) Held.nothing

theorem returns_of_onDB (hP : Steady T P) (hT : T false) {pool : DBInstance} {p : Handler α}
    (h : OnDB P pool p) : Returns T p := by
  obtain ⟨body, rfl, hbody⟩ := h
  exact wp_withDBConn fun ptr => wp_of_steady (h := ⟨dbOf pool ptr, false, false⟩) hP (hbody ptr) hT

theorem returns_of_onCache (hP : Steady T P) (hT : T false) {p : Handler α} (h : OnCache P p) :
    Returns T p := by
  obtain ⟨body, rfl, hbody⟩ := h
  exact wp_withCacheConn hP hbody (by simp [Held.nothing]) rfl rfl hT

theorem returns_of_onSlaveAndCache (hP : Steady T P) (hT : T false) {p : Handler α}
    (h : OnSlaveAndCache P p) : Returns T p := by
  obtain ⟨body, rfl, hbody⟩ := h
  refine wp_withDBConn fun ptr => wp_withCacheConn hP (hbody ptr) ?_ rfl rfl hT
  cases ptr <;> simp [dbOf]

/-! ## One part of a request after another -/

/-- A part that ends holding nothing and outside a transaction. -/
abbrev Rests (p : Handler α) : Prop := Returns (· = false) p

theorem rests_of_uses {p : Handler α} (h : Uses Plain p) : Rests p :=
  wp_of_steady (h := Held.nothing) steady_plain h rfl

theorem returns_ret (hT : T false) (a : α) : Returns T (.ret a) := ⟨rfl, rfl, hT⟩

/-- After such a part the request goes on as from the start. -/
theorem Rests.bind {p : Handler α} {k : α → Handler β} (hp : Rests p)
    (hk : ∀ a, Returns T (k a)) : Returns T (p >>= k) := by
  rw [Returns, wp_bind]
  refine wp_mono hp ?_
  rintro a ⟨db, cache, txn⟩ ⟨hdb, hcache, htxn⟩
  simp only at hdb hcache htxn
  subst hdb hcache htxn
  exact hk a

theorem rests_of_onDB {pool : DBInstance} {p : Handler α} (h : OnDB Plain pool p) : Rests p :=
  returns_of_onDB steady_plain rfl h

theorem rests_of_onCache {p : Handler α} (h : OnCache Plain p) : Rests p :=
  returns_of_onCache steady_plain rfl h

theorem rests_of_onSlaveAndCache {p : Handler α} (h : OnSlaveAndCache Plain p) : Rests p :=
  returns_of_onSlaveAndCache steady_plain rfl h

/-! ## The entry points -/

/-- A request that ends holding nothing. -/
abbrev Finishes (p : Handler Response) : Prop := Returns (fun _ => True) p

theorem finishes_of_onDB {pool : DBInstance} {p : Handler α} (f : α → Response)
    (h : OnDB InTransaction pool p) : Finishes (p >>= fun a => .ret (f a)) := by
  rw [Finishes, Returns, wp_bind]
  exact returns_of_onDB steady_inTransaction trivial h

theorem finishes_of_onSlaveAndCache {p : Handler α} (f : α → Response)
    (h : OnSlaveAndCache InTransaction p) : Finishes (p >>= fun a => .ret (f a)) := by
  rw [Finishes, Returns, wp_bind]
  exact returns_of_onSlaveAndCache steady_inTransaction trivial h

theorem partByPart_finishes : PartByPart Plain InTransaction Finishes where
  allows := ⟨plain_of_isLocal, plain_fileCommand⟩
  get _ := plain_redis _
  last := ⟨inTransaction_of_isLocal, inTransaction_fileCommand⟩
  transaction := inTransaction_commands
  ret := returns_ret trivial
  plain hp hk := Rests.bind (rests_of_uses hp) hk
  onDB hp hk := Rests.bind (rests_of_onDB hp) hk
  onCache hp hk := Rests.bind (rests_of_onCache hp) hk
  onSlaveAndCache hp hk := Rests.bind (rests_of_onSlaveAndCache hp) hk
  lastDB := finishes_of_onDB
  lastSlaveAndCache := finishes_of_onSlaveAndCache

/-- Every request takes its connections in the order of the automaton. -/
theorem finishes_prog (request : Request) : Finishes request.prog :=
  partByPart_finishes.parts.prog request fun reader postData _ =>
    partByPart_finishes.parts.userLogin (fun _ _ => plain_redis _) reader postData

end Connections

end Pool
end TcMuzi
