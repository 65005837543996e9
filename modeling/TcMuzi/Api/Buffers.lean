import TcMuzi.Api.Request
import TcMuzi.Api.SqlText

/-!
# What the handlers print into buffers

A statement is printed into `sql_cmd`, and the member of a file into `fileid`, before it is
sent.  `Stays` says that all texts of a part of a handler fit, whatever is answered within
the limits of what the server calls.
-/

namespace TcMuzi
namespace Api

open Base Server Redis Lib Mysql

/-! ## The buffers -/

/-- The other texts are strings of `FormatString`. -/
def IsPrinted : Query → Prop
  | .passwordOf _ => False
  | .userByName _ => False
  | .userFilesCount _ => False
  | .shareFilesCount => False
  | .userFileListPage .. => False
  | .shareFileListPage .. => False
  | .sharePicturesCount _ => False
  | _ => True

/-- The member or field that is built in `fileid`. -/
def fileidMember : Redis.Command → Option CString
  | .zscore _ member => some member
  | .zadd _ _ member => some member
  | .zrem _ member => some member
  | .zincrby _ member => some member
  | .hset _ field _ => some field
  | .hget _ field => some field
  | .hdel _ field => some field
  | _ => none

/-- `sql_cmd` has 512 bytes and `fileid` 1024.  `/api/md5` inserts its row with `snprintf`. -/
def InBounds (isMd5 : Bool) : Server.Command → Prop
  | .query q => IsPrinted q → q.format.sql.length < 512
  | .update (.insertUser _) => True
  | .update (.insertUserFile row) =>
      isMd5 = true ∨ ∀ f ∈ (Update.insertUserFile row).formats, f.sql.length < 512
  | .update u => ∀ f ∈ u.formats, f.sql.length < 512
  | .redis c => ∀ member ∈ fileidMember c, member.length < 1024
  | _ => True

/-! ## The answers -/

/-- The longest values that come from outside. -/
structure Limits where
  -- a `filemd5` in MySQL
  filemd5 : Nat
  -- a file id that `fdfs_upload_file` prints
  fileid : Nat
  -- a link of the short-link service
  shortUrl : Nat
  fileid_pos : 0 < fileid
  fileid_le : fileid ≤ 512

def UsualRow (limits : Limits) : (q : Query) → q.Row → Prop
  | .fileCount .., count => IsInt32 count
  | .userFilePv .., pv => IsInt32 pv
  | .shareFilePvForUpdate .., pv => IsInt32 pv
  | .sharePicture _, row => IsInt32 row.pv ∧ row.filemd5.length ≤ limits.filemd5
  | _, _ => True

/-- What is answered.  The file is unlinked after `fdfs_upload_file` and before
`fdfs_file_info`, so an output in front of it is a file id. -/
def Usual (limits : Limits) (unlinked : Bool) : (c : Server.Command) → c.Reply → Prop
  | .query q, rows => ∀ row ∈ rows.getD [], UsualRow limits q row
  | .sys .currentTime, time => time.length = 19
  | .sys .spawnUUID, id => id.length = 36
  | .sys (.readPipe size), output => output.length ≤ size ∧
      (unlinked = false → (trimSpace (CString.cStr output)).length ≤ limits.fileid)
  | .sys (.getShortUrl _), url => ∀ short ∈ url, short.length ≤ limits.shortUrl
  | _, _ => True

/-- Whether the file has been unlinked. -/
def nextUnlinked (unlinked : Bool) : Server.Command → Bool
  | .sys (.unlink _) => true
  | _ => unlinked

/-- Every text fits where it is printed. -/
def buffers (isMd5 : Bool) (limits : Limits) : Sem Server.Command Server.Command.Reply Bool where
  step c unlinked r after := Usual limits unlinked c r ∧ after = nextUnlinked unlinked c
  safe _ c := InBounds isMd5 c

/-- All texts fit, and what is returned satisfies `R`. -/
def Stays (isMd5 : Bool) (limits : Limits) {α : Type} (p : Handler α) (R : α → Prop) : Prop :=
  ∀ unlinked, wp (buffers isMd5 limits) p (fun a _ => R a) unlinked

/-! ## Lengths -/

/-- The bytes of the longest text of a statement. -/
def textLength (u : Update) : Nat :=
  (List.zipWith (· + ·) u.templateLengths (u.formats.map Format.printed)).foldr max 0

section Lengths

variable {isMd5 : Bool}

theorem inBounds_query {q : Query} (h : q.templateLength + q.format.printed < 512) :
    InBounds isMd5 (.query q) :=
  fun _ => (Query.length_sql q).trans_lt h

theorem length_of_query {q : Query} (h : InBounds isMd5 (.query q)) (hq : IsPrinted q) :
    q.templateLength + q.format.printed < 512 :=
  (Query.length_sql q).symm.trans_lt (h hq)

theorem formats_fit_iff (u : Update) :
    (∀ f ∈ u.formats, f.sql.length < 512) ↔ textLength u < 512 := by
  rw [textLength, ← Update.length_sql]
  induction u.formats with
  | nil => simp
  | cons f fs ih =>
      rw [List.forall_mem_cons, ih, List.map_cons, List.foldr_cons, Nat.max_lt]

theorem inBounds_update {u : Update} (h : textLength u < 512) : InBounds isMd5 (.update u) := by
  have hformats := (formats_fit_iff u).mpr h
  cases u with
  | insertUser row => trivial
  | insertUserFile row => exact Or.inr hformats
  | _ => exact hformats

theorem inBounds_redis {c : Redis.Command} {md5 filename : CString}
    (hmember : fileidMember c = some (fileidOf md5 filename))
    (h : md5.length + filename.length < 1024) : InBounds isMd5 (.redis c) := by
  intro member hmem
  rw [hmember] at hmem
  obtain rfl := Option.some.inj hmem
  rwa [fileidOf, CString.length_append]

/-- A `%d` prints at most eleven bytes. -/
theorem digits_le {n : Int} (hlow : -9999999999 ≤ n) (hhigh : n ≤ 9999999999) :
    digits n ≤ 11 := by
  show (Decimal.ofInt n).length ≤ 11
  cases n with
  | ofNat k =>
      rw [Int.ofNat_eq_natCast] at hhigh
      have hdigits : (Nat.toDigits 10 k).length ≤ 10 := by
        rw [Nat.length_toDigits_le_iff (by omega) (by omega)]
        omega
      rw [Decimal.ofInt, Decimal.ofNat, List.length_map]
      omega
  | negSucc k =>
      have hdigits : (Nat.toDigits 10 (k + 1)).length ≤ 10 := by
        rw [Nat.length_toDigits_le_iff (by omega) (by omega)]
        omega
      rw [Decimal.ofInt, Decimal.ofNat, List.length_cons, List.length_map]
      omega

theorem digits_wrapInt32_le (n : Int) : digits (wrapInt32 n) ≤ 11 := by
  obtain ⟨hlow, hhigh⟩ := isInt32_wrapInt32 n
  exact digits_le (by omega) (by omega)

end Lengths

theorem digits_zero : digits 0 = 1 := by decide

theorem digits_one : digits 1 = 1 := by decide

/-! ## Rules -/

section Rules

variable {isMd5 : Bool} {limits : Limits} {α β : Type}

theorem stays_ret {R : α → Prop} {a : α} (h : R a) : Stays isMd5 limits (.ret a) R :=
  fun _ => h

theorem stays_bind {p : Handler α} {f : α → Handler β} {R : α → Prop} {T : β → Prop}
    (hp : Stays isMd5 limits p R) (hf : ∀ a, R a → Stays isMd5 limits (f a) T) :
    Stays isMd5 limits (p >>= f) T := by
  intro unlinked
  rw [wp_bind]
  exact wp_mono (hp unlinked) fun a after ha => hf a ha after

theorem stays_ite {c : Prop} [Decidable c] {p q : Handler α} {R : α → Prop}
    (hp : c → Stays isMd5 limits p R) (hq : ¬ c → Stays isMd5 limits q R) :
    Stays isMd5 limits (if c then p else q) R := by
  split
  · exact hp ‹_›
  · exact hq ‹_›

/-- A part whose texts do not depend on an answer. -/
theorem stays_of_uses {p : Handler α} (h : Uses (InBounds isMd5) p) :
    Stays isMd5 limits p fun _ => True := by
  intro unlinked
  exact wp_of_uses (fun _ _ hc _ => hc) (fun _ _ _ _ _ _ _ => trivial) (fun _ _ => trivial) h
    trivial

theorem stays_issue {c : Server.Command} {R : c.Reply → Prop} (hin : InBounds isMd5 c)
    (h : ∀ unlinked r, Usual limits unlinked c r → R r) : Stays isMd5 limits (issue c) R :=
  fun unlinked => ⟨hin, fun r _ hstep => h unlinked r hstep.1⟩

theorem stays_onConn {ptr : Ptr} {call : Handler α} {R : α → Prop}
    (h : Stays isMd5 limits call R) : Stays isMd5 limits (onConn ptr call) R := by
  cases ptr with
  | null => exact fun _ => trivial
  | conn => exact h

theorem stays_withDBConn {pool : DBInstance} {body : Ptr → Handler α} {R : α → Prop}
    (h : ∀ ptr, Stays isMd5 limits (body ptr) R) : Stays isMd5 limits (withDBConn pool body) R := by
  refine stays_bind (stays_issue (c := .getDBConn pool) trivial fun _ _ _ => trivial)
    fun ptr (_ : True) => stays_bind (h ptr) fun a ha => ?_
  cases ptr with
  | null => exact stays_ret ha
  | conn =>
      exact stays_bind (stays_issue (c := .relDBConn pool) trivial fun _ _ _ => trivial)
        fun _ (_ : True) => stays_ret ha

theorem stays_withCacheConn {body : Ptr → Handler α} {R : α → Prop}
    (h : ∀ ptr, Stays isMd5 limits (body ptr) R) : Stays isMd5 limits (withCacheConn body) R := by
  refine stays_bind (stays_issue (c := .getCacheConn) trivial fun _ _ _ => trivial)
    fun ptr (_ : True) => stays_bind (h ptr) fun a ha => ?_
  cases ptr with
  | null => exact stays_ret ha
  | conn =>
      exact stays_bind (stays_issue (c := .relCacheConn) trivial fun _ _ _ => trivial)
        fun _ (_ : True) => stays_ret ha

theorem stays_executeQuery {ptr : Ptr} {q : Query} (hin : InBounds isMd5 (.query q)) :
    Stays isMd5 limits (executeQuery ptr q) fun rows =>
      ∀ row ∈ rows.getD [], UsualRow limits q row :=
  stays_onConn (stays_issue hin fun _ _ h => h)

theorem stays_executeUpdate {ptr : Ptr} {u : Update} {careAffectedRows : Bool}
    (hin : InBounds isMd5 (.update u)) :
    Stays isMd5 limits (executeUpdate ptr u careAffectedRows) fun _ => True := by
  refine stays_of_uses (uses_onConn (uses_bind ((uses_issue ..).mpr hin) fun affected => ?_))
  cases affected <;> trivial

theorem stays_executeCreate {ptr : Ptr} {u : Update} (hin : InBounds isMd5 (.update u)) :
    Stays isMd5 limits (executeCreate ptr u) fun _ => True :=
  stays_of_uses (uses_onConn (uses_bind ((uses_issue ..).mpr hin) fun _ => trivial))

theorem stays_currentTime : Stays isMd5 limits currentTime fun time => time.length = 19 :=
  stays_issue trivial fun _ _ h => h

theorem stays_checkwhetherHaveRecord {ptr : Ptr} {q : Query} (hin : InBounds isMd5 (.query q)) :
    Stays isMd5 limits (checkwhetherHaveRecord ptr q) fun _ => True := by
  refine stays_bind (stays_executeQuery hin) fun rows _ => ?_
  split <;> exact stays_ret trivial

/-- The count is 0 or was read. -/
theorem stays_getResultOneCount {ptr : Ptr} {md5 : CString} {forUpdate : Bool}
    (hin : InBounds isMd5 (.query (.fileCount md5 forUpdate))) :
    Stays isMd5 limits (getResultOneCount ptr md5 forUpdate 0) fun result => IsInt32 result.2 := by
  refine stays_bind (stays_executeQuery hin) fun rows hrows => ?_
  split
  · exact fun _ => trivial
  · exact stays_ret (show IsInt32 0 by decide)
  · exact stays_ret (hrows _ List.mem_cons_self)

theorem stays_getResultOneStatus {ptr : Ptr} {user md5 fileName : CString} {status : Int}
    (hin : InBounds isMd5 (.query (.sharedStatus user md5 fileName))) :
    Stays isMd5 limits (getResultOneStatus ptr user md5 fileName status) fun _ => True := by
  refine stays_bind (stays_executeQuery hin) fun rows _ => ?_
  split
  · exact fun _ => trivial
  · exact stays_ret trivial
  · exact stays_ret trivial

theorem stays_cacheSetCount {ptr : Ptr} {key : CString} {count : Int} :
    Stays isMd5 limits (cacheSetCount ptr key count) fun _ => True :=
  stays_of_uses (uses_bind (uses_replyText nofun) fun _ => trivial)

theorem stays_cacheIncrCount {ptr : Ptr} {key : CString} :
    Stays isMd5 limits (cacheIncrCount ptr key) fun _ => True :=
  stays_of_uses (uses_bind (uses_addCommand nofun) fun _ => trivial)

theorem stays_cacheDecrCount {ptr : Ptr} {key : CString} :
    Stays isMd5 limits (cacheDecrCount ptr key) fun _ => True := by
  refine stays_bind (stays_of_uses (uses_addCommand nofun)) fun _ _ => ?_
  refine stays_ite (fun _ => stays_ret trivial) fun _ => ?_
  refine stays_ite (fun _ => ?_) fun _ => stays_ret trivial
  exact stays_bind stays_cacheSetCount fun _ _ => stays_ret trivial

theorem stays_verifyToken (user token : CString) :
    Stays isMd5 limits (verifyToken user token) fun ret => ret = 0 ∨ ret = -1 := by
  refine stays_withCacheConn fun cacheConn => ?_
  cases cacheConn with
  | null => exact stays_ret (Or.inr rfl)
  | conn =>
      refine stays_bind (stays_of_uses (uses_get nofun)) fun tmpToken _ => stays_ret ?_
      split
      · exact Or.inl rfl
      · exact Or.inr rfl

end Rules

end Api
end TcMuzi

