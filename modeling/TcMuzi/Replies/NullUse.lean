import TcMuzi.Replies.Dealfile
import TcMuzi.Server.Nulls

/-!
# Null connections that are used

A pool may answer NULL.  Which handler uses the connection, and when, depends on what it is
doing: `missing` names the answers after which a null connection is called.  A run of a
request is spoiled by such an answer, or by a null answer that is used itself.
-/

namespace TcMuzi
namespace Replies

open Base Server Redis Api Session Lib

/-! ## What a request is doing -/

/-- The handlers that can go on without one of their connections, and the others. -/
inductive Work
  | plain
  | upload
  | share
  | delete
  | sharesCount
  | sharesList
  | ranking
  | cancel
  | save
  | pv
deriving DecidableEq

/-- The connections that the request holds and what it has seen. -/
structure Seen where
  db : Option Ptr
  cache : Option Ptr
  -- an upload has come to its second tool
  unlinked : Bool
  -- a null answer is used
  spoiled : Bool
  -- the output of the second tool is not what it should be
  threw : Bool
deriving DecidableEq

def Seen.start : Seen := ⟨none, none, false, false, false⟩

/-- `cacheGetCount` of the reply is 0. -/
def readsZero : RedisResult → Bool
  | .reply (.string s) => decide (s = CString.empty) || decide (s.atoll = 0)
  | _ => true

/-- What is written before the cache connection is called for the first time. -/
def writesLast : Work → Mysql.Update → Bool
  | .cancel, .setSharedStatus .. => true
  | .share, .insertShareFile _ => true
  | .save, .insertUserFile _ => true
  | .pv, .setShareFilePv .. => true
  | _, _ => false

/-- After this answer a null connection is called. -/
def missing (work : Work) (q : Seen) : (c : Server.Command) → c.Reply → Bool
  | .getDBConn _, .null =>
      decide (work ≠ .upload ∧ work ≠ .share ∧ work ≠ .delete ∧ work ≠ .sharesCount)
  | .getCacheConn, .null =>
      match work with
      | .delete => q.db.isSome
      | .sharesCount => true
      | .sharesList => true
      | .share => decide (q.db = some .null)
      | _ => false
  | .query (.shareFile ..), some (_ :: _) => decide (work = .share ∧ q.cache = some .null)
  | .update u, some _ => writesLast work u && decide (q.cache = some .null)
  | .redis (.zscore ..), .reply r =>
      decide (q.db = some .null) &&
        match work, r with
        | .share, .nil => true
        | .delete, .nil => true
        | .delete, .string _ => true
        | _, _ => false
  | .redis (.get _), result =>
      decide (work = .sharesCount ∧ q.db = some .null) && readsZero result
  | .sys (.calloc ..), true => decide (work = .ranking ∧ q.cache = some .null)
  | .sys (.execlp ..), _ => decide (work = .upload ∧ q.db = some .null) && q.unlinked
  | .sys (.readPipe _), _ => decide (work = .upload ∧ q.db = some .null) && q.unlinked
  | _, _ => false

/-- The address in the output of `fdfs_file_info` and the end of its line are found. -/
def readsAddress (output : List UInt8) : Bool :=
  let source := (CString.lit "source ip address: ").bytes
  match strstr source (CString.cStr output).bytes with
  | some found => (strstr [10] (found.drop source.length)).isSome
  | none => false

/-- The connections after an answer. -/
def Seen.move (work : Work) (q : Seen) : (c : Server.Command) → c.Reply → Seen
  | .getDBConn _, ptr => { q with db := some ptr }
  | .relDBConn _, _ => { q with db := none }
  | .getCacheConn, ptr => { q with cache := some ptr }
  | .relCacheConn, _ => { q with cache := none }
  | .sys (.unlink _), _ => { q with unlinked := q.unlinked || decide (work = .upload) }
  | .sys (.readPipe _), output =>
      { q with threw := q.threw || (q.unlinked && !readsAddress output) }
  | _, _ => q

def Seen.after (work : Work) (q : Seen) (c : Server.Command) (r : c.Reply) : Seen :=
  let q' := q.move work c r
  { q' with spoiled := q.spoiled || strikes c r || missing work q c r }

/-- The buffer that the URL leaves unwritten holds `cmd`. -/
def StandsFor (cmd : CString) : (c : Server.Command) → c.Reply → Prop
  | .sys .uninitialised, text => text = cmd
  | _, _ => True

/-- Every other command answers anything. -/
def backends (work : Work) (cmd : CString) : Sem Server.Command Command.Reply Seen where
  step c q r q' := q' = q.after work c r ∧ StandsFor cmd c r
  mayFail q := q.spoiled = true ∨ q.threw = true

/-! ## Rules -/

/-- The program returned a value with `P`, unspoiled. -/
def Clear {α : Type} (P : α → Prop) (a : α) (q : Seen) : Prop :=
  q.spoiled = false ∧ q.threw = false ∧ P a

/-- It holds no connection any more. -/
def AtStart {α : Type} (P : α → Prop) (a : α) (q : Seen) : Prop := q = .start ∧ P a

/-- No answer to the program lets it return. -/
def Dead {α : Type} (p : Handler α) : Prop :=
  wp anyAnswers p (fun _ _ => False) ()

section Rules

variable {α β : Type} {work : Work} {cmd : CString} {q : Seen}

/-- A spoiled program never returns. -/
theorem wp_of_dead {p : Handler α} {Q : α → Seen → Prop} (h : Dead p) (hq : q.spoiled = true) :
    wp (backends work cmd) p Q q := by
  induction p generalizing q with
  | ret a => exact absurd h id
  | cmd c k ih =>
      refine ⟨trivial, ?_⟩
      rintro r _ ⟨rfl, _⟩
      exact ih r (h.2 r () trivial) (by simp [Seen.after, hq])
  | fail => exact Or.inl hq

/-- Between its connections a program that is sound stays where it is. -/
theorem wp_of_sound {p : Handler α} {P : α → Prop} (h : Sound p P) (hwork : work ≠ .upload)
    (hq : q.spoiled = false ∧ q.unlinked = false ∧ q.threw = false)
    (hmiss : ∀ c r, IsBody c → ∀ b, missing work { q with spoiled := b } c r = false) :
    wp (backends work cmd) p (fun a q' => q' = q ∧ P a) q := by
  have hsim := wp_of_simulation (T := backends work cmd)
    (fun b q' => q' = { q with spoiled := b }) (fun _ _ _ _ _ => trivial) ?_
    (fun b q' hrel hb => Or.inl (by rw [hrel]; exact hb)) (t := q) (by simp [← hq.1]) h
  · refine wp_mono hsim ?_
    rintro a q' ⟨b, rfl, rfl, hP⟩
    refine ⟨?_, hP⟩
    rw [← hq.1]
  · rintro c b q' r q'' rfl hbody ⟨rfl, _⟩
    refine ⟨b || strikes c r, rfl, ?_⟩
    have hmove : ({ q with spoiled := b } : Seen).move work c r = { q with spoiled := b } := by
      cases c with
      | sys c => cases c <;> simp [Seen.move, hwork, hq]
      | getDBConn pool => exact absurd hbody id
      | relDBConn pool => exact absurd hbody id
      | getCacheConn => exact absurd hbody id
      | relCacheConn => exact absurd hbody id
      | _ => rfl
    rw [Seen.after, hmove, hmiss c r hbody b]
    simp

/-- With real connections nothing is missing. -/
theorem missing_of_real (hdb : q.db ≠ some .null) (hcache : q.cache ≠ some .null)
    {c : Server.Command} {r : c.Reply} (hbody : IsBody c) (b : Bool) :
    missing work { q with spoiled := b } c r = false := by
  unfold missing
  split <;> simp_all [IsBody]

/-- A plain handler uses its connections at once. -/
theorem missing_of_plain {c : Server.Command} {r : c.Reply} (hbody : IsBody c) :
    missing .plain q c r = false := by
  unfold missing
  split <;> simp_all [IsBody, writesLast]

theorem after_relDBConn (pool : DBInstance) (u : Unit) :
    q.after work (.relDBConn pool) u = { q with db := none } := by
  simp [Seen.after, Seen.move, strikes, missing]

theorem after_relCacheConn (u : Unit) :
    q.after work .relCacheConn u = { q with cache := none } := by
  simp [Seen.after, Seen.move, strikes, missing]

/-- Taking a connection and giving it back. -/
theorem wp_backends_withDBConn {pool : DBInstance} {body : Ptr → Handler α} {Q : α → Seen → Prop}
    (hnull : wp (backends work cmd) (body .null) Q (q.after work (.getDBConn pool) .null))
    (hconn : wp (backends work cmd) (body .conn) (fun a q' => Q a { q' with db := none })
      (q.after work (.getDBConn pool) .conn)) :
    wp (backends work cmd) (withDBConn pool body) Q q := by
  refine ⟨trivial, ?_⟩
  rintro ptr _ ⟨rfl, _⟩
  show wp _ (body ptr >>= _) Q _
  rw [wp_bind]
  cases ptr with
  | null => exact hnull
  | conn =>
      refine wp_mono hconn fun a q' hQ => ⟨trivial, ?_⟩
      rintro u _ ⟨rfl, _⟩
      show Q a (q'.after work (.relDBConn pool) u)
      rw [after_relDBConn]
      exact hQ

theorem wp_backends_withCacheConn {body : Ptr → Handler α} {Q : α → Seen → Prop}
    (hnull : wp (backends work cmd) (body .null) Q (q.after work .getCacheConn .null))
    (hconn : wp (backends work cmd) (body .conn) (fun a q' => Q a { q' with cache := none })
      (q.after work .getCacheConn .conn)) :
    wp (backends work cmd) (withCacheConn body) Q q := by
  refine ⟨trivial, ?_⟩
  rintro ptr _ ⟨rfl, _⟩
  show wp _ (body ptr >>= _) Q _
  rw [wp_bind]
  cases ptr with
  | null => exact hnull
  | conn =>
      refine wp_mono hconn fun a q' hQ => ⟨trivial, ?_⟩
      rintro u _ ⟨rfl, _⟩
      show Q a (q'.after work .relCacheConn u)
      rw [after_relCacheConn]
      exact hQ

/-- The state in which a part of a handler holds its connections. -/
def held (db cache : Option Ptr) : Seen := ⟨db, cache, false, false, false⟩

theorem wp_real {p : Handler α} {P : α → Prop} (h : Sound p P) (hwork : work ≠ .upload)
    {db cache : Option Ptr} (hdb : db ≠ some .null) (hcache : cache ≠ some .null) :
    wp (backends work cmd) p (fun a q' => q' = held db cache ∧ P a) (held db cache) :=
  wp_of_sound h hwork ⟨rfl, rfl, rfl⟩ fun _ _ hbody b => missing_of_real hdb hcache hbody b

theorem wp_onDB {p : Handler α} {P : α → Prop} (h : Sound p P) (hwork : work ≠ .upload) :
    wp (backends work cmd) p (fun a q' => q' = held (some .conn) none ∧ P a)
      (held (some .conn) none) :=
  wp_real h hwork (by decide) (by decide)

theorem wp_onCache {p : Handler α} {P : α → Prop} (h : Sound p P) (hwork : work ≠ .upload) :
    wp (backends work cmd) p (fun a q' => q' = held none (some .conn) ∧ P a)
      (held none (some .conn)) :=
  wp_real h hwork (by decide) (by decide)

/-- A plain handler of MySQL. -/
theorem wp_plain {pool : DBInstance} {body : Ptr → Handler α} {P : α → Prop}
    (hnull : Dead (body .null)) (hconn : Sound (body .conn) P) :
    wp (backends .plain cmd) (withDBConn pool body) (AtStart P) .start := by
  refine wp_backends_withDBConn (wp_of_dead hnull rfl) ?_
  refine wp_mono (wp_onDB hconn (by decide)) ?_
  rintro a _ ⟨rfl, hP⟩
  exact ⟨rfl, hP⟩

/-- One that takes a connection of Redis besides, without using it. -/
theorem wp_plain_besides {pool : DBInstance} {body : Ptr → Handler α} {P : α → Prop}
    (hnull : Dead (body .null)) (hconn : Sound (body .conn) P) :
    wp (backends .plain cmd) (withDBConn pool fun dbConn => withCacheConn fun _ => body dbConn)
      (Clear P) .start := by
  have hdead : Dead (withCacheConn fun _ => body .null) := by
    refine ⟨trivial, fun ptr _ _ => ?_⟩
    show wp _ (body .null >>= _) _ _
    rw [wp_bind]
    exact wp_mono hnull fun _ _ hno => absurd hno id
  refine wp_backends_withDBConn (wp_of_dead hdead rfl) (wp_backends_withCacheConn ?_ ?_)
  · refine wp_mono (wp_of_sound hconn (by decide) ⟨rfl, rfl, rfl⟩
      fun c r hbody b => missing_of_plain hbody) ?_
    rintro a _ ⟨rfl, hP⟩
    exact ⟨rfl, rfl, hP⟩
  · refine wp_mono (wp_of_sound hconn (by decide) ⟨rfl, rfl, rfl⟩
      fun c r hbody b => missing_of_plain hbody) ?_
    rintro a _ ⟨rfl, hP⟩
    exact ⟨rfl, rfl, hP⟩

end Rules

end Replies
end TcMuzi
