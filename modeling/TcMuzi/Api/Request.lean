import TcMuzi.Api.Uses

/-!
# The requests of the server, part by part

A request reads its fields, checks a token, and calls handlers, each of which takes its
connections and gives them back before the request goes on.  What is kept by these steps
therefore holds of every request; `Parts` states the steps, with the two transactions
last.  `PartByPart` knows of these only the commands they use.
-/

namespace TcMuzi
namespace Api

open Base Server Redis Lib

/-- The entry points with what they receive. -/
inductive Request
  | register (reader : JsonReader) (postData : List UInt8)
  | login (reader : JsonReader) (postData : List UInt8)
  | myfiles (reader : JsonReader) (url postData : List UInt8)
  | md5 (reader : JsonReader) (postData : List UInt8)
  | upload (cfg : UploadConfig) (postData split : List UInt8)
  | dealfile (reader : JsonReader) (url postData : List UInt8)
  | sharefiles (reader : JsonReader) (url postData : List UInt8)
  | sharepic (reader : JsonReader) (url postData : List UInt8)
  | dealsharefile (reader : JsonReader) (url postData : List UInt8)

def Request.prog : Request → Handler Response
  | .register reader postData => apiRegisterUser reader postData
  | .login reader postData => apiUserLogin reader postData
  | .myfiles reader url postData => apiMyfiles reader url postData
  | .md5 reader postData => apiMd5 reader postData
  | .upload cfg postData split => apiUpload cfg postData split
  | .dealfile reader url postData => apiDealfile reader url postData
  | .sharefiles reader url postData => apiSharefile reader url postData
  | .sharepic reader url postData => apiSharePicture reader url postData
  | .dealsharefile reader url postData => apiDealsharefile reader url postData

/-- What the body of a handler may issue. -/
structure Allows (P : Server.Command → Prop) : Prop where
  isLocal : ∀ c, IsLocal c → P c
  file : ∀ user c, FileCommand user c → P (.redis c)

/-- A property `F` of requests that a part of commands in `P` keeps, and that holds of the
two handlers with a transaction. -/
structure Parts (P : Server.Command → Prop) (F : Handler Response → Prop) : Prop where
  allows : Allows P
  get : ∀ key, P (.redis (.get key))
  ret : ∀ response, F (.ret response)
  plain : ∀ {α : Type} {p : Handler α} {k : α → Handler Response},
    Uses P p → (∀ a, F (k a)) → F (p >>= k)
  onDB : ∀ {α : Type} {pool : DBInstance} {p : Handler α} {k : α → Handler Response},
    OnDB P pool p → (∀ a, F (k a)) → F (p >>= k)
  onCache : ∀ {α : Type} {p : Handler α} {k : α → Handler Response},
    OnCache P p → (∀ a, F (k a)) → F (p >>= k)
  onSlaveAndCache : ∀ {α : Type} {p : Handler α} {k : α → Handler Response},
    OnSlaveAndCache P p → (∀ a, F (k a)) → F (p >>= k)
  dealMd5 : ∀ user md5 filename (f : Int → Response),
    F (handleDealMd5 user md5 filename >>= fun code => .ret (f code))
  sharePv : ∀ md5 filename (f : Int → Response),
    F (handlePvFile md5 filename >>= fun code => .ret (f code))

namespace Parts

variable {P : Server.Command → Prop} {F : Handler Response → Prop}

theorem ite {c : Prop} [Decidable c] {p q : Handler Response} (hp : F p) (hq : F q) :
    F (if c then p else q) := by
  split
  · exact hp
  · exact hq

variable (h : Parts P F)

include h

/-- After a field is read the request goes on. -/
theorem field_or {root : Json} {field : String} {other : Response}
    {k : CString → Handler Response} (hk : ∀ value, F (k value)) :
    F (extractField root field >>= fun
      | some value => k value
      | _ => .ret other) := by
  refine h.plain (uses_extractField root field) fun value => ?_
  cases value with
  | none => exact h.ret other
  | some value => exact hk value

theorem fieldAsInt_or {root : Json} {field : String} {other : Response}
    {k : Int → Handler Response} (hk : ∀ value, F (k value)) :
    F (extractFieldAsInt root field >>= fun
      | some value => k value
      | _ => .ret other) := by
  refine h.plain (uses_extractFieldAsInt root field) fun value => ?_
  cases value with
  | none => exact h.ret other
  | some value => exact hk value

theorem verifyToken_bind {user token : CString} {k : Int → Handler Response}
    (hk : ∀ ret, F (k ret)) : F (verifyToken user token >>= k) :=
  h.onCache (onCache_verifyToken token (h.get user)) hk

theorem parseCmd_bind {url : List UInt8} {k : CString → Handler Response}
    (hk : ∀ cmd, F (k cmd)) : F (parseCmd url >>= k) :=
  h.plain (uses_parseCmd h.allows.isLocal url) hk

theorem registerUser (reader : JsonReader) (postData : List UInt8) :
    F (apiRegisterUser reader postData) := by
  refine ite (h.ret _) ?_
  refine h.plain (uses_decodeRegisterJson reader postData) fun msg => ?_
  cases msg with
  | none => exact h.ret _
  | some msg => exact h.onDB (onDB_registerUser h.allows.isLocal msg) fun ret => h.ret _

/-- A login stores a token. -/
theorem userLogin (hset : ∀ user token, P (.redis (.setex user tokenTimeout token)))
    (reader : JsonReader) (postData : List UInt8) : F (apiUserLogin reader postData) := by
  refine ite (h.ret _) ?_
  refine h.plain (uses_decodeLoginJson reader postData) fun msg => ?_
  cases msg with
  | none => exact h.ret _
  | some msg =>
      obtain ⟨userName, pwd⟩ := msg
      have hverify := onDB_verifyUserPassword h.allows.isLocal userName pwd
      refine h.onDB hverify fun verified => ite (h.ret _) ?_
      refine h.onCache (onCache_setToken h.allows.isLocal (hset userName)) fun (ret, token) => ?_
      exact ite (h.ret _) (h.ret _)

theorem myfiles (reader : JsonReader) (url postData : List UInt8) :
    F (apiMyfiles reader url postData) := by
  refine h.parseCmd_bind fun cmd => ite ?_ ?_
  · refine h.plain (uses_decodeCountJson reader postData) fun msg => ?_
    cases msg with
    | none => exact h.ret _
    | some msg =>
        obtain ⟨userName, token⟩ := msg
        refine h.verifyToken_bind fun ret => ite ?_ (h.ret _)
        have hcount := onSlaveAndCache_handleUserFilesCount h.allows.isLocal userName
        exact h.onSlaveAndCache hcount fun (ret, count) => h.ret _
  · refine h.plain (uses_decodeFileslistJson reader postData) fun msg => ?_
    cases msg with
    | none => exact h.ret _
    | some msg =>
        refine h.verifyToken_bind fun ret => ite ?_ (h.ret _)
        have hlist := onSlaveAndCache_getUserFileList h.allows.isLocal cmd msg.userName
          msg.start msg.count
        exact h.onSlaveAndCache hlist fun _ => h.ret _

/-- The transaction comes last. -/
theorem md5 (reader : JsonReader) (postData : List UInt8) : F (apiMd5 reader postData) := by
  refine h.plain (uses_decodeMd5Json reader postData) fun msg => ?_
  cases msg with
  | none => exact h.ret _
  | some msg =>
      refine h.verifyToken_bind fun ret => ite ?_ (h.ret _)
      exact h.dealMd5 ..

theorem upload (cfg : UploadConfig) (postData split : List UInt8) :
    F (apiUpload cfg postData split) := by
  have hdb : OnDB P .tuchuangMaster (apiUpload cfg postData split) := by
    refine ⟨_, rfl, fun ptr => uses_bind (uses_orThrow _) fun parts => uses_ite trivial ?_⟩
    split
    · trivial
    · exact uses_bind (uses_uploadMsg h.allows.isLocal cfg ptr parts _) fun _ => trivial
  have hlast := h.onDB hdb h.ret
  exact Prog.bind_ret (apiUpload cfg postData split) ▸ hlast

theorem tail (cmd user md5 filename : CString) : F (dealfileTail cmd user md5 filename) := by
  refine ite ?_ (h.ret _)
  have hshare := onSlaveAndCache_handleShareFile h.allows.isLocal (h.allows.file user) user md5
    filename
  exact h.onSlaveAndCache hshare fun _ => h.ret _

theorem dealfile (reader : JsonReader) (url postData : List UInt8) :
    F (apiDealfile reader url postData) := by
  refine h.parseCmd_bind fun cmd => ?_
  split
  · refine h.field_or fun user => h.field_or fun token => ?_
    refine h.field_or fun filename => h.field_or fun md5 => ?_
    have htail := h.tail cmd user md5 filename
    refine ite ?_ (ite ?_ htail)
    · refine h.verifyToken_bind fun ret => ite (h.ret _) ?_
      have hdelete := onSlaveAndCache_handleDeleteFile h.allows.isLocal (h.allows.file user) md5
        filename
      exact h.onSlaveAndCache hdelete fun _ => htail
    · have hpv := onDB_handlePvUserFile h.allows.isLocal user md5 filename
      exact h.onDB hpv fun _ => htail
  · exact h.ret _

theorem sharefile (reader : JsonReader) (url postData : List UInt8) :
    F (apiSharefile reader url postData) := by
  have hredis := h.allows.file CString.empty
  refine h.parseCmd_bind fun cmd => ite ?_ ?_
  · have hcount := onSlaveAndCache_handleGetSharefilesCount h.allows.isLocal hredis
    exact h.onSlaveAndCache hcount fun (_, _) => h.ret _
  · split
    · refine h.fieldAsInt_or fun count => h.fieldAsInt_or fun start => ?_
      have hlist := onSlaveAndCache_handleGetShareFilelist h.allows.isLocal hredis start count
      have hranking := onCache_handleGetRankingFilelist h.allows.isLocal hredis start count
      refine ite ?_ (ite ?_ (h.ret _))
      · exact h.onSlaveAndCache hlist fun _ => h.ret _
      · exact h.onCache hranking fun _ => h.ret _
    · exact h.ret _

theorem pictureShare (root : Json) : F (sharePictureShare root) := by
  refine h.field_or fun user => h.field_or fun token => ?_
  refine h.field_or fun md5 => h.field_or fun filename => ?_
  refine h.verifyToken_bind fun ret => ite (h.ret _) ?_
  exact h.onDB (onDB_handleSharePicture h.allows.isLocal user md5 filename) fun _ => h.ret _

theorem pictureNormal (root : Json) : F (sharePictureNormal root) := by
  refine h.field_or fun user => h.field_or fun token => ?_
  refine h.fieldAsInt_or fun start => h.fieldAsInt_or fun count => ?_
  refine h.verifyToken_bind fun ret => ite (h.ret _) ?_
  have hlist := onDB_handleGetSharePicturesList h.allows.isLocal user start count
  exact h.onDB hlist fun _ => h.ret _

theorem sharePicture (reader : JsonReader) (url postData : List UInt8) :
    F (apiSharePicture reader url postData) := by
  refine h.parseCmd_bind fun cmd => ?_
  split
  · refine ite (h.pictureShare _) (ite ?_ (ite (h.pictureNormal _) (ite ?_ (h.ret _))))
    · refine h.field_or fun urlmd5 => ?_
      exact h.onDB (onDB_handleBrowsePicture h.allows.isLocal urlmd5) fun _ => h.ret _
    · refine h.field_or fun user => h.field_or fun urlmd5 => ?_
      exact h.onDB (onDB_handleCancelSharePicture h.allows.isLocal user urlmd5) fun _ => h.ret _
  · exact h.ret _

/-- The download count of a shared file is the last thing its request touches. -/
theorem cmd (cmd : CString) (msg : DealsharefileMsg) (f : Int → Response) :
    F (dealsharefileCmd cmd msg >>= fun ret => .ret (f ret)) := by
  have hlocal := h.allows.isLocal
  have hredis := h.allows.file msg.userName
  unfold dealsharefileCmd
  split
  · have hcancel := onSlaveAndCache_handleCancelShareFile hlocal hredis msg.userName msg.md5
      msg.filename
    exact h.onSlaveAndCache hcancel fun _ => h.ret _
  · split
    · have hsave := onSlaveAndCache_handleSaveFile (sql hlocal) hredis msg.md5 msg.filename
      exact h.onSlaveAndCache hsave fun _ => h.ret _
    · split
      · exact h.sharePv msg.md5 msg.filename f
      · exact h.ret _

theorem dealsharefile (reader : JsonReader) (url postData : List UInt8) :
    F (apiDealsharefile reader url postData) := by
  refine h.parseCmd_bind fun cmd => ?_
  refine h.plain (uses_decodeDealsharefileJson reader postData) fun msg => ?_
  cases msg with
  | none => exact h.ret _
  | some msg => exact h.cmd cmd msg _

/-- Every request is made of such parts, and a login by hypothesis. -/
theorem prog (request : Request)
    (hlogin : ∀ reader postData, request = .login reader postData →
      F (apiUserLogin reader postData)) : F request.prog := by
  cases request with
  | register reader postData => exact h.registerUser reader postData
  | login reader postData => exact hlogin reader postData rfl
  | myfiles reader url postData => exact h.myfiles reader url postData
  | md5 reader postData => exact h.md5 reader postData
  | upload cfg postData split => exact h.upload cfg postData split
  | dealfile reader url postData => exact h.dealfile reader url postData
  | sharefiles reader url postData => exact h.sharefile reader url postData
  | sharepic reader url postData => exact h.sharePicture reader url postData
  | dealsharefile reader url postData => exact h.dealsharefile reader url postData

end Parts

/-! ## Transactions by their commands -/

/-- A property `F` of requests that a part of commands in `P` keeps, and that holds of a
request whose last part has commands in `L`. -/
structure PartByPart (P L : Server.Command → Prop) (F : Handler Response → Prop) : Prop where
  allows : Allows P
  get : ∀ key, P (.redis (.get key))
  last : Allows L
  transaction : L .startTransaction ∧ L .commit ∧ L .rollback
  ret : ∀ response, F (.ret response)
  plain : ∀ {α : Type} {p : Handler α} {k : α → Handler Response},
    Uses P p → (∀ a, F (k a)) → F (p >>= k)
  onDB : ∀ {α : Type} {pool : DBInstance} {p : Handler α} {k : α → Handler Response},
    OnDB P pool p → (∀ a, F (k a)) → F (p >>= k)
  onCache : ∀ {α : Type} {p : Handler α} {k : α → Handler Response},
    OnCache P p → (∀ a, F (k a)) → F (p >>= k)
  onSlaveAndCache : ∀ {α : Type} {p : Handler α} {k : α → Handler Response},
    OnSlaveAndCache P p → (∀ a, F (k a)) → F (p >>= k)
  lastDB : ∀ {α : Type} {pool : DBInstance} {p : Handler α} (f : α → Response),
    OnDB L pool p → F (p >>= fun a => .ret (f a))
  lastSlaveAndCache : ∀ {α : Type} {p : Handler α} (f : α → Response),
    OnSlaveAndCache L p → F (p >>= fun a => .ret (f a))

namespace PartByPart

variable {P L : Server.Command → Prop} {F : Handler Response → Prop} (h : PartByPart P L F)

include h

theorem parts : Parts P F where
  allows := h.allows
  get := h.get
  ret := h.ret
  plain := h.plain
  onDB := h.onDB
  onCache := h.onCache
  onSlaveAndCache := h.onSlaveAndCache
  dealMd5 user md5 filename f :=
    h.lastDB f (onDB_handleDealMd5 (sql h.last.isLocal) h.transaction user md5 filename)
  sharePv md5 filename f :=
    h.lastSlaveAndCache f (onSlaveAndCache_handlePvFile h.last.isLocal
      (h.last.file CString.empty) h.transaction md5 filename)

end PartByPart

/-! ## What the requests use -/

section Uses

variable {P : Server.Command → Prop} {α : Type}

theorem uses_of_onDB (hconn : ∀ pool, P (.getDBConn pool) ∧ P (.relDBConn pool))
    {pool : DBInstance} {p : Handler α} (h : OnDB P pool p) : Uses P p := by
  obtain ⟨body, rfl, hbody⟩ := h
  exact uses_withDBConn (hconn pool).1 (hconn pool).2 hbody

theorem uses_of_onCache (hcache : P .getCacheConn ∧ P .relCacheConn) {p : Handler α}
    (h : OnCache P p) : Uses P p := by
  obtain ⟨body, rfl, hbody⟩ := h
  exact uses_withCacheConn hcache.1 hcache.2 hbody

theorem uses_of_onSlaveAndCache (hconn : ∀ pool, P (.getDBConn pool) ∧ P (.relDBConn pool))
    (hcache : P .getCacheConn ∧ P .relCacheConn) {p : Handler α} (h : OnSlaveAndCache P p) :
    Uses P p := by
  obtain ⟨body, rfl, hbody⟩ := h
  refine uses_withDBConn (hconn _).1 (hconn _).2 fun dbConn => ?_
  exact uses_withCacheConn hcache.1 hcache.2 (hbody dbConn)

/-- Every request but a login uses its connections, reads keys, and does what the handlers
of files do. -/
theorem partByPart_uses (hallows : Allows P) (hget : ∀ key, P (.redis (.get key)))
    (htxn : P .startTransaction ∧ P .commit ∧ P .rollback)
    (hconn : ∀ pool, P (.getDBConn pool) ∧ P (.relDBConn pool))
    (hcache : P .getCacheConn ∧ P .relCacheConn) : PartByPart P P (Uses P) where
  allows := hallows
  get := hget
  last := hallows
  transaction := htxn
  ret _ := trivial
  plain hp hk := uses_bind hp hk
  onDB hp hk := uses_bind (uses_of_onDB hconn hp) hk
  onCache hp hk := uses_bind (uses_of_onCache hcache hp) hk
  onSlaveAndCache hp hk := uses_bind (uses_of_onSlaveAndCache hconn hcache hp) hk
  lastDB _ hp := uses_bind (uses_of_onDB hconn hp) fun _ => trivial
  lastSlaveAndCache _ hp := uses_bind (uses_of_onSlaveAndCache hconn hcache hp) fun _ => trivial

end Uses

end Api
end TcMuzi
