import TcMuzi.Session.Failures

/-!
# Which requests change a user's rows without a token

The requests that name a user are run on surroundings where every command may fail, and
only in the runs in which `VerifyToken` does not accept a token of the request for that
user.  A request protects its user when no statement of such a run touches a row of the
user; `Exposes` says when one does.
-/

namespace TcMuzi
namespace Session

open Base Server Redis Api Lib

/-! ## What a request names and carries -/

/-- The entry points that write the tables of the users. -/
inductive OwnerRequest
  | md5 (reader : JsonReader) (postData : List UInt8)
  | upload (cfg : UploadConfig) (postData split : List UInt8)
  | dealfile (reader : JsonReader) (url postData : List UInt8)
  | sharepic (reader : JsonReader) (url postData : List UInt8)
  | dealsharefile (reader : JsonReader) (url postData : List UInt8)

def OwnerRequest.prog : OwnerRequest → Handler Response
  | .md5 reader postData => apiMd5 reader postData
  | .upload cfg postData split => apiUpload cfg postData split
  | .dealfile reader url postData => apiDealfile reader url postData
  | .sharepic reader url postData => apiSharePicture reader url postData
  | .dealsharefile reader url postData => apiDealsharefile reader url postData

/-- The text that `extractField` finds. -/
def memberText (root : Json) (field : String) : Option CString :=
  match extractField root field with
  | .ret text => text
  | _ => none

theorem extractField_eq_or_fail (root : Json) (field : String) :
    extractField root field = .ret (memberText root field) ∨
      (extractField root field = .fail ∧ memberText root field = none) := by
  unfold memberText
  rcases ret_or_fail_of_uses (uses_extractField root field) with ⟨text, htext⟩ | hfail
  · exact Or.inl (by rw [htext])
  · exact Or.inr ⟨hfail, by rw [hfail]⟩

theorem extractField_of_memberText {root : Json} {field : String} {text : CString}
    (h : memberText root field = some text) : extractField root field = .ret (some text) := by
  rcases extractField_eq_or_fail root field with heq | ⟨_, hnone⟩
  · rw [heq, h]
  · rw [hnone] at h
    cases h

/-- A field of the body, whether the handler reads it or not. -/
def OwnerRequest.text (request : OwnerRequest) (field : String) : Option CString :=
  match request with
  | .md5 reader postData => (reader postData).bind fun root => memberText root field
  | .upload _ postData split =>
      (decodeMsg postData split).bind fun parts =>
        (parts.reverse.find? fun part => part.1 = (CString.lit field).bytes).map fun part =>
          CString.cStr part.2
  | .dealfile reader _ postData => (reader postData).bind fun root => memberText root field
  | .sharepic reader _ postData => (reader postData).bind fun root => memberText root field
  | .dealsharefile reader _ postData => (reader postData).bind fun root => memberText root field

/-! ## Runs without an accepted token -/

/-- The rows of the three tables that belong to a user. -/
def rowsOf (user : CString) (t : Mysql.Tables) :
    List Mysql.UserFile × List Mysql.ShareFile × List Mysql.SharePicture :=
  (t.userFileList.filter fun row => row.user = user,
    t.shareFileList.filter fun row => row.user = user,
    t.sharePictureList.filter fun row => row.user = user)

/-- Executing the statement changes, removes or inserts a row of the user. -/
def Touches (user : CString) (u : Mysql.Update) (t : Mysql.Tables) : Prop :=
  ∃ n t', u.exec t = some (n, t') ∧ rowsOf user t' ≠ rowsOf user t

/-- Every command may fail: MySQL executes a statement or not and answers or not, and Redis
serves a call in any of its four ways. -/
def faultyStep : (c : Server.Command) → World → c.Reply → World → Prop
  | .query q, w, r, w' => w' = w ∧ (r = none ∨ r = q.exec w.db)
  | .update u, w, r, w' =>
      (w' = w ∧ r = none) ∨
        ∃ n t, u.exec w.db = some (n, t) ∧ w' = { w with db := t } ∧ (r = some n ∨ r = none)
  | .execute u, w, r, w' =>
      (w' = w ∧ r = none) ∨
        ∃ n t, u.exec w.db = some (n, t) ∧ w' = { w with db := t } ∧ (r = some n ∨ r = none)
  | .redis c, w, r, w' => ∃ o ks, redisStep o c w.redis r ks ∧ w' = { w with redis := ks }
  | .startTransaction, w, r, w' => (r = false ∧ w' = w) ∨ okStep .startTransaction w r w'
  | .commit, w, r, w' => (r = false ∧ w' = w) ∨ okStep .commit w r w'
  | .rollback, w, r, w' => (r = false ∧ w' = w) ∨ okStep .rollback w r w'
  | .prepare, w, _, w' => w' = w
  | c, w, r, w' => okStep c w r w'

/-- The answer with which `VerifyToken` returns 0 for a token of the request. -/
def Vouches (request : OwnerRequest) (user : CString) : (c : Server.Command) → c.Reply → Prop
  | .redis (.get key), r => key = user ∧ request.text "token" = some (stringReply r)
  | _, _ => False

/-- The runs in which no token of the request is accepted; no statement may touch a row of
the user. -/
def unvouched (request : OwnerRequest) (user : CString) :
    Sem Server.Command Command.Reply World where
  step c w r w' := faultyStep c w r w' ∧ ¬ Vouches request user c r
  safe w c :=
    match c with
    | .update u => ¬ Touches user u w.db
    | .execute u => ¬ Touches user u w.db
    | _ => True

/-- The commands that a request may stand for: any without one in its URL. -/
def MayBe (url : List UInt8) (cmd : CString) : Prop :=
  ∀ known, queryParseKeyValue (CString.cStr url) (CString.lit "cmd") = some known → cmd = known

/-- A row of the user among those that get the successor of the first one's `pv`, with another
value. -/
def Raises {ρ : Type} (pv : ρ → Int) (owner : ρ → CString) (user : CString) (rows : List ρ) :
    Prop :=
  ∃ first ∈ rows.head?, ∃ row ∈ rows, owner row = user ∧ pv row ≠ wrapInt32 (pv first + 1)

section Rows

variable {user : CString} {t : Mysql.Tables}

theorem touches_iff {u : Mysql.Update} {n : Nat} {t' : Mysql.Tables}
    (hexec : u.exec t = some (n, t')) : Touches user u t ↔ rowsOf user t' ≠ rowsOf user t := by
  unfold Touches
  rw [hexec]
  constructor
  · rintro ⟨n', t'', hsome, hne⟩
    cases hsome
    exact hne
  · exact fun hne => ⟨n, t', rfl, hne⟩

theorem rowsOf_userFiles (rows : List Mysql.UserFile) :
    rowsOf user { t with userFileList := rows } = rowsOf user t ↔
      (rows.filter fun row => row.user = user) = t.userFileList.filter fun row => row.user = user := by
  simp [rowsOf]

theorem rowsOf_shareFiles (rows : List Mysql.ShareFile) :
    rowsOf user { t with shareFileList := rows } = rowsOf user t ↔
      (rows.filter fun row => row.user = user) =
        t.shareFileList.filter fun row => row.user = user := by
  simp [rowsOf]

theorem user_of_isUserFile {md5 filename : CString} {row : Mysql.UserFile}
    (h : Mysql.isUserFile user md5 filename row) : row.user = user := by
  simp only [Mysql.isUserFile, Bool.and_eq_true, decide_eq_true_eq] at h
  exact h.1.1

theorem user_of_isShareFileOf {md5 filename : CString} {row : Mysql.ShareFile}
    (h : Mysql.isShareFileOf user md5 filename row) : row.user = user := by
  simp only [Mysql.isShareFileOf, Bool.and_eq_true, decide_eq_true_eq] at h
  exact h.1.1

theorem touches_setSharedStatus (md5 filename : CString) (status : Int) :
    Touches user (.setSharedStatus user md5 filename status) t ↔
      ∃ row ∈ t.userFileList, Mysql.isUserFile user md5 filename row ∧
        row.sharedStatus ≠ status := by
  have hset : ∀ row : Mysql.UserFile,
      { row with sharedStatus := status } = row ↔ row.sharedStatus = status := by
    rintro ⟨⟩
    simp [eq_comm]
  rw [touches_iff rfl, ne_eq, rowsOf_userFiles, ← ne_eq,
    Table.filter_setWhere_ne_iff (fun _ _ => by rfl) hset]
  refine exists_congr fun row => and_congr_right fun _ => and_congr_right fun hof => ?_
  simp [user_of_isUserFile hof]

theorem touches_setShareFilePv (md5 filename : CString) (pv : Int) :
    Touches user (.setShareFilePv md5 filename pv) t ↔
      ∃ row ∈ t.shareFileList.filter (Mysql.isShareFile md5 filename), row.user = user ∧
        row.pv ≠ pv := by
  have hset : ∀ row : Mysql.ShareFile, { row with pv := pv } = row ↔ row.pv = pv := by
    rintro ⟨⟩
    simp [eq_comm]
  rw [touches_iff rfl, ne_eq, rowsOf_shareFiles, ← ne_eq,
    Table.filter_setWhere_ne_iff (fun _ _ => by rfl) hset]
  simp [List.mem_filter, and_assoc]

theorem touches_deleteShareFile (md5 filename : CString) :
    Touches user (.deleteShareFile user md5 filename) t ↔
      ∃ row ∈ t.shareFileList, Mysql.isShareFileOf user md5 filename row := by
  rw [touches_iff rfl, ne_eq, rowsOf_shareFiles, ← ne_eq, Table.filter_deleteWhere_ne_iff]
  refine exists_congr fun row => and_congr_right fun _ => and_iff_right_of_imp fun hof => ?_
  exact decide_eq_true (user_of_isShareFileOf hof)

end Rows

/-! ## Rules -/

section Rules

variable {request : OwnerRequest} {user : CString} {α β : Type}

/-- No statement that writes, and no rollback. -/
def KeepsTables : Server.Command → Prop
  | .update _ => False
  | .execute _ => False
  | .rollback => False
  | _ => True

def WritesNothing : Server.Command → Prop
  | .update _ => False
  | .execute _ => False
  | _ => True

theorem wp_of_writesNothing {p : Handler α} (hp : Uses WritesNothing p) (w : World) :
    wp (unvouched request user) p (fun _ _ => True) w := by
  refine wp_of_uses (I := fun _ => True) ?_ (fun _ _ _ _ _ _ _ => trivial)
    (fun _ _ => trivial) hp trivial
  intro c w hc _
  cases c with
  | update u => exact absurd hc id
  | execute u => exact absurd hc id
  | _ => trivial

theorem db_of_keepsTables {c : Server.Command} (hc : KeepsTables c) {w w' : World} {r : c.Reply}
    (h : faultyStep c w r w') : w'.db = w.db := by
  cases c with
  | update u => exact absurd hc id
  | execute u => exact absurd hc id
  | rollback => exact absurd hc id
  | query q => rw [h.1]
  | redis c =>
      obtain ⟨_, ks, _, rfl⟩ := h
      rfl
  | startTransaction =>
      rcases h with ⟨_, rfl⟩ | ⟨_, rfl⟩
      · rfl
      · rfl
  | commit =>
      rcases h with ⟨_, rfl⟩ | ⟨_, rfl⟩
      · rfl
      · rfl
  | _ => exact congrArg World.db h

theorem wp_of_keepsTables {p : Handler α} {Q : α → World → Prop} {w : World}
    (hp : Uses KeepsTables p) (hQ : ∀ a w', w'.db = w.db → Q a w') :
    wp (unvouched request user) p Q w := by
  refine wp_mono (Q := fun _ (w' : World) => w'.db = w.db) ?_ hQ
  refine wp_of_uses (I := fun w' : World => w'.db = w.db) ?_ ?_ (fun _ _ => trivial) hp rfl
  · intro c w' hc _
    cases c with
    | update u => exact absurd hc id
    | execute u => exact absurd hc id
    | _ => trivial
  · intro c w' r w'' hc hw' hstep
    exact (db_of_keepsTables hc hstep.1).trans hw'

theorem wp_withDBConn {pool : DBInstance} {body : Ptr → Handler α} {Q : α → World → Prop}
    {w : World} (h : ∀ ptr, wp (unvouched request user) (body ptr) Q w) :
    wp (unvouched request user) (withDBConn pool body) Q w :=
  wp_withDBConn_of_idle (fun _ => ⟨trivial, fun _ _ hstep => hstep.1⟩)
    (fun _ => ⟨trivial, fun _ _ hstep => hstep.1⟩) h

theorem wp_withCacheConn {body : Ptr → Handler α} {Q : α → World → Prop} {w : World}
    (h : ∀ ptr, wp (unvouched request user) (body ptr) Q w) :
    wp (unvouched request user) (withCacheConn body) Q w :=
  wp_withCacheConn_of_idle (fun _ => ⟨trivial, fun _ _ hstep => hstep.1⟩)
    (fun _ => ⟨trivial, fun _ _ hstep => hstep.1⟩) h

theorem wp_onConn {ptr : Ptr} {call : Handler α} {Q : α → World → Prop} {w : World}
    (h : wp (unvouched request user) call Q w) :
    wp (unvouched request user) (onConn ptr call) Q w := by
  cases ptr with
  | null => trivial
  | conn => exact h

theorem wp_executeQuery {ptr : Ptr} {q : Mysql.Query} {Q : Option (List q.Row) → World → Prop}
    {w : World} (hfailed : Q none w) (hrows : Q (q.exec w.db) w) :
    wp (unvouched request user) (executeQuery ptr q) Q w := by
  refine wp_onConn ⟨trivial, ?_⟩
  rintro r w' ⟨⟨rfl, rfl | rfl⟩, _⟩
  · exact hfailed
  · exact hrows

/-- A statement that touches no row of the user may or may not be executed. -/
theorem wp_executeUpdate {ptr : Ptr} {u : Mysql.Update} {care : Bool}
    {Q : Bool → World → Prop} {w : World} (hsafe : ¬ Touches user u w.db)
    (hfailed : Q false w)
    (hdone : ∀ b n t, u.exec w.db = some (n, t) → Q b { w with db := t }) :
    wp (unvouched request user) (executeUpdate ptr u care) Q w := by
  refine wp_onConn ⟨hsafe, ?_⟩
  rintro r w' ⟨⟨rfl, rfl⟩ | ⟨n, t, hexec, rfl, rfl | rfl⟩, _⟩
  · exact hfailed
  · exact hdone _ n t hexec
  · exact hdone _ n t hexec

theorem wp_executeCreate {ptr : Ptr} {u : Mysql.Update} {Q : Bool → World → Prop} {w : World}
    (hsafe : ¬ Touches user u w.db) (hfailed : Q false w)
    (hdone : ∀ b n t, u.exec w.db = some (n, t) → Q b { w with db := t }) :
    wp (unvouched request user) (executeCreate ptr u) Q w := by
  refine wp_onConn ⟨hsafe, ?_⟩
  rintro r w' ⟨⟨rfl, rfl⟩ | ⟨n, t, hexec, rfl, rfl | rfl⟩, _⟩
  · exact hfailed
  · exact hdone _ n t hexec
  · exact hdone _ n t hexec

theorem wp_checkwhetherHaveRecord {ptr : Ptr} {q : Mysql.Query} {Q : Int → World → Prop}
    {w : World} {rows : List q.Row} (hexec : q.exec w.db = some rows) (hfailed : Q (-1) w)
    (hnone : rows = [] → Q 0 w) (hsome : rows ≠ [] → Q 1 w) :
    wp (unvouched request user) (checkwhetherHaveRecord ptr q) Q w := by
  rw [checkwhetherHaveRecord, wp_bind]
  refine wp_executeQuery hfailed ?_
  rw [hexec]
  cases rows with
  | nil => exact hnone rfl
  | cons row rows => exact hsome (List.cons_ne_nil row rows)

theorem wp_parseCmd {url : List UInt8} {Q : CString → World → Prop} {w : World}
    (h : ∀ cmd, MayBe url cmd → Q cmd w) : wp (unvouched request user) (parseCmd url) Q w := by
  unfold parseCmd
  cases hknown : queryParseKeyValue (CString.cStr url) (CString.lit "cmd") with
  | some known =>
      refine h known fun other hother => ?_
      rw [hknown] at hother
      exact Option.some.inj hother
  | none =>
      refine ⟨trivial, ?_⟩
      rintro cmd w' ⟨rfl, _⟩
      refine h cmd fun known hsome => ?_
      rw [hknown] at hsome
      cases hsome

end Rules

/-! ## Requests that expose nothing -/

section Protected

variable {request : OwnerRequest} {user md5 filename : CString} {w : World}

/-- The second statement finds the share list as the first one did. -/
theorem wp_handleCancelShareFile
    (hstatus : ¬ ∃ row ∈ w.db.userFileList, Mysql.isUserFile user md5 filename row ∧
      row.sharedStatus ≠ 0)
    (hshare : ¬ ∃ row ∈ w.db.shareFileList, Mysql.isShareFileOf user md5 filename row) :
    wp (unvouched request user) (handleCancelShareFile user md5 filename) (fun _ _ => True) w := by
  refine wp_withDBConn fun dbConn => wp_withCacheConn fun cacheConn => ?_
  rw [wp_bind]
  refine wp_executeUpdate (by rwa [touches_setSharedStatus]) trivial ?_
  rintro b n t hexec
  cases hexec
  rw [wp_ite]
  refine ⟨fun _ => ?_, fun _ => trivial⟩
  rw [wp_bind]
  refine wp_of_keepsTables (uses_cacheDecrCount fun _ _ => trivial) fun ret w' hdb => ?_
  rw [wp_ite]
  refine ⟨fun _ => trivial, fun _ => ?_⟩
  have hrest : ∀ (dropped : Bool) w', wp (unvouched request user)
      (if dropped then do
        let ret ← removeShareRecords cacheConn md5 filename
        return if ret = 0 then httpRespOk else httpRespFail
      else return httpRespFail) (fun _ _ => True) w' := by
    intro dropped w'
    have hrecords : Uses WritesNothing (removeShareRecords cacheConn md5 filename) :=
      @uses_removeShareRecords _ user (fun _ _ => trivial) cacheConn md5 filename
    refine wp_of_writesNothing (uses_ite (uses_bind hrecords fun _ => ?_) ?_) w'
    · trivial
    · trivial
  rw [wp_bind]
  refine wp_executeCreate ?_ (hrest false w') fun b n t _ => hrest b _
  rw [touches_deleteShareFile, hdb]
  exact hshare

theorem wp_handleSaveFile
    (hno : (∀ row ∈ w.db.userFileList, ¬ Mysql.isUserFile user md5 filename row) →
      ∀ file ∈ w.db.fileInfo, ¬ Mysql.isFile md5 file) :
    wp (unvouched request user) (handleSaveFile user md5 filename) (fun _ _ => True) w := by
  refine wp_withDBConn fun dbConn => wp_withCacheConn fun cacheConn => ?_
  rw [wp_bind]
  refine wp_checkwhetherHaveRecord rfl trivial (fun hrows => ?_) fun _ => trivial
  have hnone : w.db.fileInfo.filter (Mysql.isFile md5) = [] :=
    List.filter_eq_nil_iff.mpr (hno (List.filter_eq_nil_iff.mp hrows))
  show wp _ (saveReference dbConn user md5 filename >>= _) _ w
  rw [wp_bind, saveReference, wp_bind, getResultOneCount, wp_bind]
  refine wp_executeQuery trivial ?_
  simp only [Mysql.Query.exec, hnone, List.map_nil]
  trivial

theorem wp_handlePvFile
    (hno : ¬ Raises (·.pv) (·.user) user
      (w.db.shareFileList.filter (Mysql.isShareFile md5 filename))) :
    wp (unvouched request user) (handlePvFile md5 filename) (fun _ _ => True) w := by
  refine wp_withDBConn fun dbConn => wp_withCacheConn fun cacheConn => ?_
  rw [wp_bind]
  refine wp_mono (Q := fun _ _ => True) ?_ fun pv w' _ => ?_
  · have hback : ∀ w', wp (unvouched request user)
        (rollback dbConn >>= fun _ => (return none : Handler (Option Int))) (fun _ _ => True) w' :=
      wp_of_writesNothing (uses_bind (uses_onConn ⟨trivial, fun _ => trivial⟩) fun _ => trivial)
    rw [incrSharePv, wp_bind]
    refine wp_of_keepsTables (uses_onConn ⟨trivial, fun _ => trivial⟩) fun started w' hdb => ?_
    rw [wp_bind]
    refine wp_executeQuery (hback w') ?_
    rw [hdb, Mysql.Query.exec]
    cases hrows : w.db.shareFileList.filter (Mysql.isShareFile md5 filename) with
    | nil => exact hback w'
    | cons first rows =>
        have hrest : ∀ (updated : Bool) w', wp (unvouched request user)
            (if updated then do
              let _ ← commit dbConn
              return some first.pv
            else do
              let _ ← rollback dbConn
              return none) (fun _ _ => True) w' := by
          intro updated
          refine wp_of_writesNothing (uses_ite ?_ ?_)
          · exact uses_bind (uses_onConn ⟨trivial, fun _ => trivial⟩) fun _ => trivial
          · exact uses_bind (uses_onConn ⟨trivial, fun _ => trivial⟩) fun _ => trivial
        show wp _ (executeUpdate dbConn _ false >>= _) _ w'
        rw [wp_bind]
        refine wp_executeUpdate ?_ (hrest false w') fun b n t _ => hrest b _
        rw [touches_setShareFilePv, hdb, hrows]
        rintro ⟨row, hrow, huser, hne⟩
        exact hno ⟨first, by rw [hrows]; rfl, row, hrows ▸ hrow, huser, hne⟩
  · cases pv with
    | none => trivial
    | some pv =>
        have hscore : Uses WritesNothing (incrShareScore cacheConn md5 filename pv) :=
          @uses_incrShareScore _ user (fun _ _ => trivial) cacheConn md5 filename pv
        refine wp_of_writesNothing (uses_bind hscore fun _ => ?_) w'
        trivial

end Protected

section Entries

variable {request : OwnerRequest} {reader : JsonReader} {url postData : List UInt8} {root : Json}
  {user : CString} {w : World}

end Entries

/-! ## Requests that expose something -/

section Exposed

variable {request : OwnerRequest} {user : CString} {α : Type} {w : World}

end Exposed

/-! ## Exactly when a request protects its user -/

end Session
end TcMuzi
