import TcMuzi.Api.UploadBounds
import TcMuzi.Base.Scans
import TcMuzi.Http.OnRead

/-!
# Which requests stay inside the buffers

The value of `cmd`, the suffix and the new path of an upload, and the texts of all handlers.
`Exactly` is the condition under which the texts of a part of a request fit; it is assembled
as the request is, from the conditions of the handlers and the fields the request reads.
-/

namespace TcMuzi
namespace Api

open Base Server Redis Lib Mysql

variable {limits : Limits} {unlinked : Bool}

/-! ## Requests without a text that is too long -/

theorem stays_registerUser (msg : RegisterMsg) :
    Stays false limits (registerUser msg) fun _ => True := by
  refine stays_withDBConn fun ptr => stays_bind (stays_executeQuery nofun) fun rows _ => ?_
  split
  · exact stays_ret trivial
  · refine stays_bind stays_currentTime fun _ _ => ?_
    refine stays_bind (stays_of_uses (uses_onConn ⟨trivial, fun _ => trivial⟩)) fun prepared _ => ?_
    refine stays_ite (fun _ => ?_) fun _ => stays_ret trivial
    refine stays_bind (stays_of_uses (uses_onConn ⟨trivial, fun _ => trivial⟩)) fun affected _ => ?_
    split <;> exact stays_ret trivial

theorem stays_apiRegisterUser (reader : JsonReader) (postData : List UInt8) :
    Stays false limits (apiRegisterUser reader postData) fun _ => True := by
  refine stays_ite (fun _ => stays_ret trivial) fun _ => ?_
  refine stays_bind (stays_of_uses (uses_decodeRegisterJson reader postData)) fun msg _ => ?_
  cases msg with
  | none => exact stays_ret trivial
  | some msg => exact stays_bind (stays_registerUser msg) fun _ _ => stays_ret trivial

theorem stays_verifyUserPassword (userName pwd : CString) :
    Stays false limits (verifyUserPassword userName pwd) fun _ => True := by
  refine stays_withDBConn fun ptr => stays_bind (stays_executeQuery nofun) fun rows _ => ?_
  split <;> exact stays_ret trivial

theorem stays_setToken (userName : CString) :
    Stays false limits (setToken userName) fun _ => True := by
  refine stays_withCacheConn fun cacheConn => ?_
  refine stays_bind (stays_issue (c := .sys (.randomString 32)) trivial fun _ _ _ => trivial)
    fun token (_ : True) => ?_
  cases cacheConn with
  | null => exact stays_ret trivial
  | conn => exact stays_bind (stays_of_uses (uses_replyText nofun)) fun _ _ => stays_ret trivial

theorem stays_apiUserLogin (reader : JsonReader) (postData : List UInt8) :
    Stays false limits (apiUserLogin reader postData) fun _ => True := by
  refine stays_ite (fun _ => stays_ret trivial) fun _ => ?_
  refine stays_bind (stays_of_uses (uses_decodeLoginJson reader postData)) fun msg _ => ?_
  cases msg with
  | none => exact stays_ret trivial
  | some msg =>
      obtain ⟨userName, pwd⟩ := msg
      refine stays_bind (stays_verifyUserPassword userName pwd) fun verified _ => ?_
      refine stays_ite (fun _ => stays_ret trivial) fun _ => ?_
      refine stays_bind (stays_setToken userName) fun (ret, token) _ => ?_
      exact stays_ite (fun _ => stays_ret trivial) fun _ => stays_ret trivial

theorem stays_parseCmd (url : List UInt8) : Stays false limits (parseCmd url) fun _ => True := by
  refine stays_of_uses ?_
  unfold parseCmd
  split
  · trivial
  · exact (uses_issue ..).mpr trivial

theorem stays_getUserFilesCount (ptr : Ptr) (userName : CString) :
    Stays false limits (getUserFilesCount ptr userName) fun _ => True := by
  refine stays_bind (stays_bind (stays_executeQuery nofun) fun _ _ =>
    stays_ret (R := fun _ => True) trivial) fun (ret, count) _ => stays_ret trivial

theorem stays_getUserFileList (cmd userName : CString) (start count : Int) :
    Stays false limits (getUserFileList cmd userName start count) fun _ => True := by
  refine stays_withDBConn fun ptr => stays_withCacheConn fun _ => ?_
  refine stays_bind (stays_getUserFilesCount ptr userName) fun (ret, total) _ => ?_
  refine stays_ite (fun _ => stays_ret trivial) fun _ => ?_
  refine stays_ite (fun _ => stays_ret trivial) fun _ => ?_
  refine stays_ite (fun _ => ?_) fun _ => stays_ret trivial
  refine stays_bind (stays_executeQuery nofun) fun rows _ => ?_
  split <;> exact stays_ret trivial

theorem stays_apiMyfiles (reader : JsonReader) (url postData : List UInt8) :
    Stays false limits (apiMyfiles reader url postData) fun _ => True := by
  refine stays_bind (stays_parseCmd url) fun cmd _ => stays_ite (fun _ => ?_) fun _ => ?_
  · refine stays_bind (stays_of_uses (uses_decodeCountJson reader postData)) fun msg _ => ?_
    cases msg with
    | none => exact stays_ret trivial
    | some msg =>
        obtain ⟨userName, token⟩ := msg
        refine stays_bind (stays_verifyToken userName token) fun _ _ => ?_
        refine stays_ite (fun _ => ?_) fun _ => stays_ret trivial
        have hcount : Stays false limits (handleUserFilesCount userName) fun _ => True :=
          stays_withDBConn fun ptr => stays_withCacheConn fun _ =>
            stays_getUserFilesCount ptr userName
        exact stays_bind hcount fun (_, _) _ => stays_ret trivial
  · refine stays_bind (stays_of_uses (uses_decodeFileslistJson reader postData)) fun msg _ => ?_
    cases msg with
    | none => exact stays_ret trivial
    | some msg =>
        refine stays_bind (stays_verifyToken msg.userName msg.token) fun _ _ => ?_
        refine stays_ite (fun _ => ?_) fun _ => stays_ret trivial
        exact stays_bind (stays_getUserFileList cmd msg.userName msg.start msg.count)
          fun _ _ => stays_ret trivial

theorem stays_getShareFilesCount (ptr cacheConn : Ptr) :
    Stays false limits (getShareFilesCount ptr cacheConn) fun _ => True := by
  refine stays_bind (stays_bind (stays_of_uses (uses_get nofun)) fun _ _ =>
    stays_ret (R := fun _ => True) trivial) fun (_, fileCount) _ => ?_
  refine stays_ite (fun _ => ?_) fun _ => stays_ret trivial
  refine stays_bind (stays_bind (stays_executeQuery nofun) fun _ _ =>
    stays_ret (R := fun _ => True) trivial) fun (ret, count) _ => ?_
  refine stays_ite (fun _ => stays_ret trivial) fun _ => ?_
  exact stays_bind stays_cacheSetCount fun _ _ => stays_ret trivial

theorem stays_handleGetShareFilelist (start count : Int) :
    Stays false limits (handleGetShareFilelist start count) fun _ => True := by
  refine stays_withDBConn fun ptr => stays_withCacheConn fun cacheConn => ?_
  refine stays_bind (stays_getShareFilesCount ptr cacheConn) fun (ret, total) _ => ?_
  refine stays_ite (fun _ => stays_ret trivial) fun _ => ?_
  refine stays_ite (fun _ => stays_ret trivial) fun _ => ?_
  refine stays_bind (stays_executeQuery nofun) fun rows _ => ?_
  split <;> exact stays_ret trivial

/-- The members of the ranking are cut to their entries. -/
theorem stays_zsetZrevrange (ptr : Ptr) (key : CString) (first last : Int) :
    Stays false limits (CacheConn.zsetZrevrange ptr key first last) fun values =>
      ∀ vs ∈ values, ∀ v ∈ vs, v.length < 1024 := by
  refine stays_bind (stays_of_uses (uses_redisCommand nofun)) fun result _ => ?_
  dsimp only
  split
  · exact stays_ret nofun
  · exact fun _ => trivial
  · refine stays_ret fun vs hvs v hv => ?_
    obtain rfl := Option.some.inj hvs
    obtain ⟨item, _, rfl⟩ := List.mem_map.mp hv
    exact Nat.lt_succ_of_le (List.length_take_le ..)
  · exact stays_ret nofun

theorem stays_rankingFiles (ptr : Ptr) {values : List CString}
    (hvalues : ∀ v ∈ values, v.length < 1024) :
    Stays false limits (rankingFiles ptr values) fun _ => True := by
  induction values with
  | nil => exact stays_ret trivial
  | cons value values ih =>
      have hvalue : value.length < 1024 := hvalues value List.mem_cons_self
      have hmember : ∀ c, fileidMember c = some value → InBounds false (.redis c) := by
        intro c hc member hmem
        rw [hc] at hmem
        obtain rfl := Option.some.inj hmem
        exact hvalue
      refine stays_bind (stays_of_uses (uses_hget (hmember _ rfl))) fun filename _ => ?_
      cases filename with
      | none => exact stays_ret trivial
      | some filename =>
          refine stays_bind (stays_of_uses (uses_zsetGetScore (hmember _ rfl))) fun score _ => ?_
          refine stays_ite (fun _ => stays_ret trivial) fun _ => ?_
          refine stays_bind (ih fun v hv => hvalues v (List.mem_cons_of_mem _ hv)) fun files _ => ?_
          cases files <;> exact stays_ret trivial

theorem stays_handleGetRankingFilelist (start count : Int) :
    Stays false limits (handleGetRankingFilelist start count) fun _ => True := by
  refine stays_withCacheConn fun cacheConn => ?_
  refine stays_bind (stays_issue (c := .sys (.calloc count CacheConn.valuesIdSize)) trivial
    fun _ _ _ => trivial) fun allocated (_ : True) => ?_
  refine stays_ite (fun _ => ?_) fun _ => stays_ret trivial
  refine stays_bind (stays_zsetZrevrange cacheConn _ _ _) fun values hvalues => ?_
  cases values with
  | none => exact stays_ret trivial
  | some values =>
      refine stays_bind (stays_rankingFiles cacheConn (hvalues values rfl)) fun files _ => ?_
      cases files <;> exact stays_ret trivial

theorem stays_apiSharefile (reader : JsonReader) (url postData : List UInt8) :
    Stays false limits (apiSharefile reader url postData) fun _ => True := by
  refine stays_bind (stays_parseCmd url) fun cmd _ => stays_ite (fun _ => ?_) fun _ => ?_
  · have hcount : Stays false limits handleGetSharefilesCount fun _ => True :=
      stays_withDBConn fun ptr => stays_withCacheConn fun cacheConn =>
        stays_getShareFilesCount ptr cacheConn
    exact stays_bind hcount fun (_, _) _ => stays_ret trivial
  · split
    · refine stays_bind (stays_of_uses (uses_extractFieldAsInt ..)) fun count _ => ?_
      cases count with
      | none => exact stays_ret trivial
      | some count =>
          refine stays_bind (stays_of_uses (uses_extractFieldAsInt ..)) fun start _ => ?_
          cases start with
          | none => exact stays_ret trivial
          | some start =>
              refine stays_ite (fun _ => ?_) fun _ => stays_ite (fun _ => ?_) fun _ =>
                stays_ret trivial
              · exact stays_bind (stays_handleGetShareFilelist start count) fun _ _ =>
                  stays_ret trivial
              · exact stays_bind (stays_handleGetRankingFilelist start count) fun _ _ =>
                  stays_ret trivial
    · exact stays_ret trivial

/-! ## Requests -/

/-- The value of `cmd` that the URL has. -/
def urlCmd (url : List UInt8) : Option CString :=
  queryParseKeyValue (CString.cStr url) (CString.lit "cmd")

/-- The URL has no `cmd`, or one with a value below 20 bytes. -/
def CmdFits (url : List UInt8) : Prop :=
  strstr (CString.lit "cmd").bytes (CString.cStr url).bytes = none ∨
    ∃ value, urlCmd url = some value ∧ value.length < 20

/-- What `cmd` can hold after the URL was parsed. -/
def MayHold (url : List UInt8) (cmd : CString) : Prop :=
  ∀ value, urlCmd url = some value → cmd = value

/-- A member that is not null. -/
def Has (root : Json) (field : String) (value : CString) : Prop :=
  extractField root field = .ret (some value)

def HasInt (root : Json) (field : String) (value : Int) : Prop :=
  extractFieldAsInt root field = .ret (some value)

namespace Request

def isMd5 : Request → Bool
  | .md5 .. => true
  | _ => false

/-- The URL that is searched for `cmd`. -/
def cmdUrl : Request → Option (List UInt8)
  | .myfiles _ url _ => some url
  | .dealfile _ url _ => some url
  | .sharefiles _ url _ => some url
  | .sharepic _ url _ => some url
  | .dealsharefile _ url _ => some url
  | _ => none

/-- The parts of a file that is renamed. -/
def renamed : Request → Option (List Part)
  | .upload _ postData split => (uploadOf postData split).map Prod.fst
  | _ => none

end Request

/-- What the handler of a route is called with. -/
def requestOf (reader : JsonReader) (cfg : UploadConfig) (task : Http.Task) : Request :=
  let url := task.url.bytes
  let postData := task.content.bytes
  match task.route with
  | .register => .register reader postData
  | .login => .login reader postData
  | .myfiles => .myfiles reader url postData
  | .md5 => .md5 reader postData
  | .upload => .upload cfg postData task.boundary
  | .dealfile => .dealfile reader url postData
  | .sharefiles => .sharefiles reader url postData
  | .sharepic => .sharepic reader url postData
  | .dealsharefile => .dealsharefile reader url postData

/-- `new_file_path`. -/
def newFilePath (parts : List Part) : CString :=
  uploadField parts "file_path" ++ CString.lit "." ++ getFileSuffix (uploadField parts "file_name")

/-- Every write of the request stays inside its buffer, and every scan inside its text. -/
structure StaysInside (limits : Limits) (request : Request) : Prop where
  cmd : ∀ url, request.cmdUrl = some url → ScanFits (CString.cStr url) (CString.lit "cmd") 20
  fileName : ∀ parts, request.renamed = some parts →
    lastDot (uploadField parts "file_name").bytes (uploadField parts "file_name").length ≤
      (uploadField parts "file_name").length
  suffix : ∀ parts, request.renamed = some parts →
    (getFileSuffix (uploadField parts "file_name")).length < 8
  path : ∀ parts, request.renamed = some parts → (newFilePath parts).length < 128
  texts : StaysFrom request.isMd5 limits false request.prog

section Exactly

variable {isMd5 : Bool} {α : Type}

/-- The texts fit exactly under this condition. -/
def Exactly (isMd5 : Bool) (limits : Limits) (p : Handler α) (φ : Prop) : Prop :=
  ∀ unlinked, StaysFrom isMd5 limits unlinked p ↔ φ

theorem exactly_ret (a : α) : Exactly isMd5 limits (.ret a) True := fun _ => Iff.rfl

theorem exactly_of_stays {p : Handler α} (h : Stays isMd5 limits p fun _ => True) :
    Exactly isMd5 limits p True := fun unlinked => iff_true_intro (h unlinked)

theorem exactly_ite {c : Prop} [Decidable c] {p q : Handler α} {φ : Prop}
    (hp : c → Exactly isMd5 limits p φ) (hq : ¬ c → Exactly isMd5 limits q φ) :
    Exactly isMd5 limits (if c then p else q) φ := by
  split
  · exact hp ‹_›
  · exact hq ‹_›

theorem exactly_congr {p : Handler α} {φ ψ : Prop} (h : φ ↔ ψ) (hp : Exactly isMd5 limits p φ) :
    Exactly isMd5 limits p ψ := fun unlinked => (hp unlinked).trans h

theorem exactly_bind {β : Type} {p : Handler β} {f : β → Handler α} {φ : Prop}
    (hp : Exactly isMd5 limits p φ) (hf : ∀ b, Stays isMd5 limits (f b) fun _ => True) :
    Exactly isMd5 limits (p >>= f) φ := by
  intro unlinked
  rw [StaysFrom, wp_bind]
  have hrest : (fun b after => wp (buffers isMd5 limits) (f b) (fun _ _ => True) after) =
      fun _ _ => True := by
    funext b after
    exact eq_true (hf b after)
  rw [hrest]
  exact hp unlinked

/-- What is returned prints nothing. -/
theorem exactly_bind_ret {β : Type} {p : Handler β} {φ : Prop} (hp : Exactly isMd5 limits p φ)
    (f : β → α) : Exactly isMd5 limits (p >>= fun b => .ret (f b)) φ :=
  exactly_bind hp fun _ => stays_ret trivial

/-- A value that is there or not. -/
theorem exactly_of_some {β : Type} {o : Option β} {p : Handler α} {φ : β → Prop}
    (hnone : o = none → Stays isMd5 limits p fun _ => True)
    (hsome : ∀ b, o = some b → Exactly isMd5 limits p (φ b)) :
    Exactly isMd5 limits p (∀ b, o = some b → φ b) := by
  cases o with
  | none => exact exactly_congr (by simp) (exactly_of_stays (hnone rfl))
  | some b => exact exactly_congr (by simp) (hsome b rfl)

/-- Without a value the request is answered. -/
theorem exactly_some_or {β : Type} {p : Handler (Option β)} (hp : Uses (fun _ => False) p)
    {k : Option β → Handler α} {other : α} {φ : β → Prop} (hnone : k none = .ret other)
    (hk : ∀ b, Exactly isMd5 limits (k (some b)) (φ b)) :
    Exactly isMd5 limits (p >>= k) (∀ b, p = .ret (some b) → φ b) := by
  intro unlinked
  rw [StaysFrom, wp_bind_of_uses_false fun _ => trivial]
  · constructor
    · exact fun h b hb => (hk b unlinked).mp (h (some b) hb)
    · intro h b hb
      cases b with
      | none =>
          rw [hnone]
          trivial
      | some b => exact (hk b unlinked).mpr (h b hb)
  · exact hp

theorem exactly_parseCmd {url : List UInt8} {k : CString → Handler α} {φ : CString → Prop}
    (hk : ∀ cmd, Exactly isMd5 limits (k cmd) (φ cmd)) :
    Exactly isMd5 limits (parseCmd url >>= k) (∀ cmd, MayHold url cmd → φ cmd) := by
  intro unlinked
  unfold parseCmd
  cases hcmd : queryParseKeyValue (CString.cStr url) (CString.lit "cmd") with
  | some value =>
      have hvalue : MayHold url value := fun other hother =>
        Option.some.inj (hcmd.symm.trans hother)
      refine (hk value unlinked).trans ⟨fun h cmd hmay => ?_, fun h => h value hvalue⟩
      rw [hmay value hcmd]
      exact h
  | none =>
      -- the buffer was not initialised
      have hany : ∀ cmd, MayHold url cmd := fun cmd value hvalue =>
        nomatch hcmd.symm.trans hvalue
      constructor
      · exact fun h cmd _ => (hk cmd _).mp (h.2 cmd _ ⟨trivial, rfl⟩)
      · exact fun h => ⟨trivial, fun cmd after _ => (hk cmd after).mpr (h cmd (hany cmd))⟩

/-- Some answer of Redis is the token, so the check does not restrict what comes behind it. -/
theorem exactly_verifyToken {user token : CString} {k : Int → Handler α} {φ : Prop}
    (hk : Exactly isMd5 limits (k 0) φ) (hother : Exactly isMd5 limits (k (-1)) True) :
    Exactly isMd5 limits (verifyToken user token >>= k) φ := by
  intro unlinked
  constructor
  · intro h
    have hget := (h.2 .conn _ ⟨trivial, rfl⟩).2 (.reply (.string token)) _ ⟨trivial, rfl⟩
    have hret : StaysFrom isMd5 limits unlinked (k (if token = token then 0 else -1)) :=
      hget.2 () _ ⟨trivial, rfl⟩
    rw [if_pos rfl] at hret
    exact (hk unlinked).mp hret
  · intro h
    rw [StaysFrom, wp_bind]
    refine wp_mono (stays_verifyToken user token unlinked) fun ret after hret => ?_
    obtain rfl | rfl := hret
    · exact (hk after).mpr h
    · exact (hother after).mpr trivial

end Exactly

/-! ## The texts of the requests -/

/-- By the bytes of the user, the md5 and the file name together.  A deletion is bounded by its
longest query, the others by a row they write. -/
def DealfileFits (cmd : CString) (length : Nat) : Prop :=
  (cmd = CString.lit "share" → length ≤ 398) ∧ (cmd = CString.lit "del" → length ≤ 423) ∧
    (cmd = CString.lit "pv" → length ≤ 421)

def DealsharefileFits (cmd : CString) (msg : DealsharefileMsg) : Prop :=
  (cmd = CString.lit "cancel" →
    msg.userName.length + msg.md5.length + msg.filename.length ≤ 420) ∧
  (cmd = CString.lit "save" →
    msg.userName.length + msg.md5.length + msg.filename.length ≤ 382) ∧
  (cmd = CString.lit "pv" → msg.md5.length + msg.filename.length ≤ 434)

def PictureShareFits (root : Json) : Prop :=
  ∀ user, Has root "user" user → ∀ token, Has root "token" token → ∀ md5, Has root "md5" md5 →
    ∀ filename, Has root "filename" filename →
      user.length + md5.length + filename.length ≤ 330

def PictureNormalFits (root : Json) : Prop :=
  ∀ user, Has root "user" user → ∀ token, Has root "token" token →
    ∀ start, HasInt root "start" start → ∀ count, HasInt root "count" count →
      user.length + digits start + digits count ≤ 181

def PictureCancelFits (root : Json) : Prop :=
  ∀ user, Has root "user" user → ∀ urlmd5, Has root "urlmd5" urlmd5 →
    user.length + urlmd5.length ≤ 447

def SharepicFits (limits : Limits) (cmd : CString) (root : Json) : Prop :=
  (cmd = CString.lit "share" → PictureShareFits root) ∧
  (cmd = CString.lit "browse" → ∀ urlmd5, Has root "urlmd5" urlmd5 →
    urlmd5.length ≤ 419 ∧ limits.filemd5 ≤ 472) ∧
  (cmd = CString.lit "normal" → PictureNormalFits root) ∧
  (cmd = CString.lit "cancel" → PictureCancelFits root)

/-- The lengths of what is printed into the texts. -/
def TextsFit (limits : Limits) : Request → Prop
  | .md5 reader postData => ∀ msg, decodeMd5Json reader postData = .ret (some msg) →
      msg.user.length + msg.md5.length + msg.fileName.length ≤ 424
  | .upload cfg postData split => ∀ parts size, uploadOf postData split = some (parts, size) →
      UploadFits limits cfg parts size
  | .dealfile reader url postData => ∀ cmd, MayHold url cmd →
      ∀ root, reader postData = some root → ∀ user, Has root "user" user →
        ∀ token, Has root "token" token → ∀ filename, Has root "filename" filename →
          ∀ md5, Has root "md5" md5 →
            DealfileFits cmd (user.length + md5.length + filename.length)
  | .sharepic reader url postData => ∀ cmd, MayHold url cmd →
      ∀ root, reader postData = some root → SharepicFits limits cmd root
  | .dealsharefile reader url postData => ∀ cmd, MayHold url cmd →
      ∀ msg, decodeDealsharefileJson reader postData = .ret (some msg) → DealsharefileFits cmd msg
  | _ => True

section Conditions

variable {reader : JsonReader} {url postData : List UInt8}

theorem exactly_apiMd5 : Exactly true limits (apiMd5 reader postData)
    (TextsFit limits (.md5 reader postData)) := by
  refine exactly_some_or (uses_decodeMd5Json reader postData) rfl fun msg => ?_
  refine exactly_verifyToken ?_ (exactly_ret _)
  exact exactly_bind_ret (fun _ => handleDealMd5_iff) _

theorem stays_dealfileTail {cmd : CString} (hcmd : cmd ≠ CString.lit "share")
    (user md5 filename : CString) :
    Stays false limits (dealfileTail cmd user md5 filename) fun _ => True := by
  rw [dealfileTail, if_neg hcmd]
  exact stays_ret trivial

theorem exactly_apiDealfile : Exactly false limits (apiDealfile reader url postData)
    (TextsFit limits (.dealfile reader url postData)) := by
  refine exactly_parseCmd fun cmd => ?_
  refine exactly_of_some (fun hroot => ?_) fun root hroot => ?_
  · rw [hroot]
    exact stays_ret trivial
  rw [hroot]
  refine exactly_some_or (uses_extractField root "user") rfl fun user => ?_
  refine exactly_some_or (uses_extractField root "token") rfl fun token => ?_
  refine exactly_some_or (uses_extractField root "filename") rfl fun filename => ?_
  refine exactly_some_or (uses_extractField root "md5") rfl fun md5 => ?_
  refine exactly_ite (fun hdel => ?_) fun hdel => exactly_ite (fun hpv => ?_) fun hpv => ?_
  · -- only a deletion checks the token
    subst hdel
    refine exactly_verifyToken ?_ (exactly_of_stays (stays_ret trivial))
    refine exactly_congr ?_ (exactly_bind (fun _ => handleDeleteFile_iff) fun _ => ?_)
    · exact ⟨fun h => ⟨fun heq => absurd heq (by decide), fun _ => h,
        fun heq => absurd heq (by decide)⟩, fun h => h.2.1 rfl⟩
    · exact stays_dealfileTail (by decide) user md5 filename
  · subst hpv
    refine exactly_congr ?_ (exactly_bind (fun _ => handlePvUserFile_iff) fun _ => ?_)
    · exact ⟨fun h => ⟨fun heq => absurd heq (by decide), fun heq => absurd heq hdel,
        fun _ => h⟩, fun h => h.2.2 rfl⟩
    · exact stays_dealfileTail (by decide) user md5 filename
  · by_cases hshare : cmd = CString.lit "share"
    · subst hshare
      refine exactly_congr ?_ (exactly_bind_ret (fun _ => handleShareFile_iff) _)
      exact ⟨fun h => ⟨fun _ => h, fun heq => absurd heq hdel, fun heq => absurd heq hpv⟩,
        fun h => h.1 rfl⟩
    · refine exactly_congr ?_ (exactly_of_stays (stays_dealfileTail hshare user md5 filename))
      exact iff_of_true trivial
        ⟨fun heq => absurd heq hshare, fun heq => absurd heq hdel, fun heq => absurd heq hpv⟩

theorem exactly_apiDealsharefile : Exactly false limits (apiDealsharefile reader url postData)
    (TextsFit limits (.dealsharefile reader url postData)) := by
  refine exactly_parseCmd fun cmd => ?_
  refine exactly_some_or (uses_decodeDealsharefileJson reader postData) rfl fun msg => ?_
  refine exactly_bind_ret ?_ _
  refine exactly_ite (fun hcancel => ?_) fun hcancel =>
    exactly_ite (fun hsave => ?_) fun hsave => exactly_ite (fun hpv => ?_) fun hpv => ?_
  · subst hcancel
    refine exactly_congr ?_ fun _ => handleCancelShareFile_iff
    exact ⟨fun h => ⟨fun _ => h, fun heq => absurd heq (by decide),
      fun heq => absurd heq (by decide)⟩, fun h => h.1 rfl⟩
  · subst hsave
    refine exactly_congr ?_ fun _ => handleSaveFile_iff
    exact ⟨fun h => ⟨fun heq => absurd heq hcancel, fun _ => h,
      fun heq => absurd heq (by decide)⟩, fun h => h.2.1 rfl⟩
  · subst hpv
    refine exactly_congr ?_ fun _ => handlePvFile_iff
    exact ⟨fun h => ⟨fun heq => absurd heq hcancel, fun heq => absurd heq hsave,
      fun _ => h⟩, fun h => h.2.2 rfl⟩
  · refine exactly_congr ?_ (exactly_ret _)
    exact iff_of_true trivial
      ⟨fun heq => absurd heq hcancel, fun heq => absurd heq hsave, fun heq => absurd heq hpv⟩

theorem exactly_sharePictureShare (root : Json) :
    Exactly false limits (sharePictureShare root) (PictureShareFits root) := by
  refine exactly_some_or (uses_extractField root "user") rfl fun user => ?_
  refine exactly_some_or (uses_extractField root "token") rfl fun token => ?_
  refine exactly_some_or (uses_extractField root "md5") rfl fun md5 => ?_
  refine exactly_some_or (uses_extractField root "filename") rfl fun filename => ?_
  refine exactly_verifyToken ?_ (exactly_of_stays (stays_ret trivial))
  exact exactly_bind_ret (fun _ => handleSharePicture_iff) _

theorem exactly_sharePictureBrowse (root : Json) :
    Exactly false limits (sharePictureBrowse root) (∀ urlmd5, Has root "urlmd5" urlmd5 →
      urlmd5.length ≤ 419 ∧ limits.filemd5 ≤ 472) := by
  refine exactly_some_or (uses_extractField root "urlmd5") rfl fun urlmd5 => ?_
  exact exactly_bind_ret (fun _ => handleBrowsePicture_iff) _

theorem exactly_sharePictureNormal (root : Json) :
    Exactly false limits (sharePictureNormal root) (PictureNormalFits root) := by
  refine exactly_some_or (uses_extractField root "user") rfl fun user => ?_
  refine exactly_some_or (uses_extractField root "token") rfl fun token => ?_
  refine exactly_some_or (uses_extractFieldAsInt root "start") rfl fun start => ?_
  refine exactly_some_or (uses_extractFieldAsInt root "count") rfl fun count => ?_
  refine exactly_verifyToken ?_ (exactly_of_stays (stays_ret trivial))
  exact exactly_bind_ret (fun _ => handleGetSharePicturesList_iff) _

theorem exactly_sharePictureCancel (root : Json) :
    Exactly false limits (sharePictureCancel root) (PictureCancelFits root) := by
  refine exactly_some_or (uses_extractField root "user") rfl fun user => ?_
  refine exactly_some_or (uses_extractField root "urlmd5") rfl fun urlmd5 => ?_
  exact exactly_bind_ret (fun _ => handleCancelSharePicture_iff) _

theorem exactly_apiSharePicture : Exactly false limits (apiSharePicture reader url postData)
    (TextsFit limits (.sharepic reader url postData)) := by
  refine exactly_parseCmd fun cmd => ?_
  refine exactly_of_some (fun hroot => ?_) fun root hroot => ?_
  · rw [hroot]
    exact stays_ret trivial
  rw [hroot]
  refine exactly_ite (fun hshare => ?_) fun hshare => exactly_ite (fun hbrowse => ?_)
    fun hbrowse => exactly_ite (fun hnormal => ?_) fun hnormal =>
    exactly_ite (fun hcancel => ?_) fun hcancel => ?_
  · subst hshare
    refine exactly_congr ?_ (exactly_sharePictureShare root)
    exact ⟨fun h => ⟨fun _ => h, fun heq => absurd heq (by decide),
      fun heq => absurd heq (by decide), fun heq => absurd heq (by decide)⟩, fun h => h.1 rfl⟩
  · subst hbrowse
    refine exactly_congr ?_ (exactly_sharePictureBrowse root)
    exact ⟨fun h => ⟨fun heq => absurd heq hshare, fun _ => h,
      fun heq => absurd heq (by decide), fun heq => absurd heq (by decide)⟩, fun h => h.2.1 rfl⟩
  · subst hnormal
    refine exactly_congr ?_ (exactly_sharePictureNormal root)
    exact ⟨fun h => ⟨fun heq => absurd heq hshare, fun heq => absurd heq hbrowse, fun _ => h,
      fun heq => absurd heq (by decide)⟩, fun h => h.2.2.1 rfl⟩
  · subst hcancel
    refine exactly_congr ?_ (exactly_sharePictureCancel root)
    exact ⟨fun h => ⟨fun heq => absurd heq hshare, fun heq => absurd heq hbrowse,
      fun heq => absurd heq hnormal, fun _ => h⟩, fun h => h.2.2.2 rfl⟩
  · refine exactly_congr ?_ (exactly_ret _)
    exact iff_of_true trivial ⟨fun heq => absurd heq hshare, fun heq => absurd heq hbrowse,
      fun heq => absurd heq hnormal, fun heq => absurd heq hcancel⟩

/-- The texts fit exactly where their conditions hold. -/
theorem staysFrom_prog_iff (request : Request) :
    StaysFrom request.isMd5 limits false request.prog ↔ TextsFit limits request := by
  cases request with
  | register reader postData => exact exactly_of_stays (stays_apiRegisterUser reader postData) _
  | login reader postData => exact exactly_of_stays (stays_apiUserLogin reader postData) _
  | myfiles reader url postData => exact exactly_of_stays (stays_apiMyfiles reader url postData) _
  | md5 reader postData => exact exactly_apiMd5 _
  | upload cfg postData split => exact staysFrom_apiUpload_iff
  | dealfile reader url postData => exact exactly_apiDealfile _
  | sharefiles reader url postData =>
      exact exactly_of_stays (stays_apiSharefile reader url postData) _
  | sharepic reader url postData => exact exactly_apiSharePicture _
  | dealsharefile reader url postData => exact exactly_apiDealsharefile _

end Conditions

/-! ## The whole request -/

/-- The lengths that the buffers have room for. -/
structure Fits (limits : Limits) (request : Request) : Prop where
  cmd : ∀ url, request.cmdUrl = some url → CmdFits url
  suffix : ∀ parts, request.renamed = some parts →
    (getFileSuffix (uploadField parts "file_name")).length < 8
  path : ∀ parts, request.renamed = some parts → (newFilePath parts).length < 128
  texts : TextsFit limits request

/-- Whatever is answered, a request stays inside exactly when its lengths fit. -/
theorem staysInside_iff (limits : Limits) (request : Request) :
    StaysInside limits request ↔ Fits limits request := by
  constructor
  · intro h
    refine ⟨fun url hurl => ?_, h.suffix, h.path, (staysFrom_prog_iff request).mp h.texts⟩
    exact (scanFits_iff (CString.cStr url) (CString.lit "cmd") 20).mp (h.cmd url hurl)
  · intro h
    refine ⟨fun url hurl => ?_, fun parts _ => ?_, h.suffix, h.path,
      (staysFrom_prog_iff request).mpr h.texts⟩
    · exact (scanFits_iff (CString.cStr url) (CString.lit "cmd") 20).mpr (h.cmd url hurl)
    · exact lastDot_le _ _

/-- A command of twenty letters. -/
def longCmd : Http.HttpRequest where
  method := (CString.lit "GET").bytes
  url := (CString.lit "/api/myfiles?cmd=aaaaaaaaaaaaaaaaaaaa").bytes
  headers := [(CString.lit "Content-Length: 0").bytes]
  body := []
  method_mem := by decide
  url_slash := by decide
  url_visible := by decide +kernel
  isField := by
    intro line hline hstart
    rw [List.mem_singleton.mp hline] at hstart
    exact absurd (by decide) hstart
  contentLength_eq := by decide

def longCmdTask : Http.Task where
  route := .myfiles
  url := CString.lit "/api/myfiles?cmd=aaaaaaaaaaaaaaaaaaaa"
  content := CString.empty
  boundary := [45]

theorem onRead_longCmd : Http.onRead Http.bytewise longCmd.bytes = .run longCmdTask := by
  decide +kernel

/-- `cmd` has no room for its terminator. -/
theorem not_staysInside_longCmd : longCmd.bytes.length ≤ 4096 ∧
    Http.onRead Http.bytewise longCmd.bytes = .run longCmdTask ∧
      ∀ limits reader cfg, ¬ StaysInside limits (requestOf reader cfg longCmdTask) := by
  refine ⟨by decide, onRead_longCmd, fun limits reader cfg h => ?_⟩
  have hfits := h.cmd longCmdTask.url.bytes rfl
  obtain hnone | ⟨value, hvalue, hlength⟩ := (scanFits_iff _ _ _).mp hfits
  · exact absurd hnone (by decide +kernel)
  · have heq : queryParseKeyValue (CString.cStr longCmdTask.url.bytes) (CString.lit "cmd") =
        some (CString.lit "aaaaaaaaaaaaaaaaaaaa") := by decide +kernel
    rw [heq] at hvalue
    obtain rfl := Option.some.inj hvalue
    exact absurd hlength (by decide)

end Api
end TcMuzi
