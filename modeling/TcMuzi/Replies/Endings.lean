import TcMuzi.Replies.Handlers
import TcMuzi.Session.TokenChecks

/-!
# How every request ends

A request reads its fields first, and throws at one that jsoncpp cannot convert.  What can be
read ends in a response with a code unless an answer spoils the run; two requests leave no
response at all.
-/

namespace TcMuzi
namespace Replies

open Base Server Redis Api Session Lib

/-! ## Reading the body -/

/-- `asString` of a field that must be there or may be missing, or `asInt` of one. -/
inductive FieldKind
  | text
  | optional
  | int
deriving DecidableEq

def FieldKind.converts : FieldKind → Json → Bool
  | .text, value => value.asString.isSome
  | .optional, value => value.asString.isSome
  | .int, value => value.asInt.isSome

/-- Reading the fields in order does not throw; a null one ends the reading. -/
def readable (root : Json) : List (String × FieldKind) → Bool
  | [] => true
  | (field, kind) :: fields =>
      match root.member (CString.lit field) with
      | none => false
      | some value =>
          if value.isNull then decide (kind ≠ .optional) || readable root fields
          else kind.converts value && readable root fields

/-- The fields of each request. -/
def fieldsOf : Request → CString → List (String × FieldKind)
  | .register .., _ =>
      [("userName", .text), ("nickName", .text), ("firstPwd", .text), ("phone", .optional),
        ("email", .optional)]
  | .login .., _ => [("user", .text), ("pwd", .text)]
  | .myfiles .., cmd =>
      if cmd = CString.lit "count" then [("user", .text), ("token", .text)]
      else [("user", .text), ("token", .text), ("start", .int), ("count", .int)]
  | .md5 .., _ => [("user", .text), ("token", .text), ("md5", .text), ("filename", .text)]
  | .upload .., _ => []
  | .dealfile .., _ => [("user", .text), ("token", .text), ("filename", .text), ("md5", .text)]
  | .sharefiles .., cmd =>
      if cmd = CString.lit "count" then [] else [("count", .int), ("start", .int)]
  | .sharepic .., cmd =>
      if cmd = CString.lit "share" then
        [("user", .text), ("token", .text), ("md5", .text), ("filename", .text)]
      else if cmd = CString.lit "browse" then [("urlmd5", .text)]
      else if cmd = CString.lit "normal" then
        [("user", .text), ("token", .text), ("start", .int), ("count", .int)]
      else if cmd = CString.lit "cancel" then [("user", .text), ("urlmd5", .text)]
      else []
  | .dealsharefile .., _ => [("user", .text), ("md5", .text), ("filename", .text)]

/-- What a request parses.  Without a body there is no registration and no login. -/
def bodyOf : Request → Option Json
  | .register reader postData => if postData = [] then none else reader postData
  | .login reader postData => if postData = [] then none else reader postData
  | .myfiles reader _ postData => reader postData
  | .md5 reader postData => reader postData
  | .upload .. => none
  | .dealfile reader _ postData => reader postData
  | .sharefiles reader _ postData => reader postData
  | .sharepic reader _ postData => reader postData
  | .dealsharefile reader _ postData => reader postData

/-- Nothing throws while the body is read. -/
def Readable (request : Request) (cmd : CString) : Prop :=
  (∀ root, bodyOf request = some root → readable root (fieldsOf request cmd) = true) ∧
    ∀ cfg postData split, request = .upload cfg postData split → (decodeMsg postData split).isSome

/-- The request leaves no response text. -/
def Silent : Request → CString → Prop
  | .login _ postData, _ => postData = []
  | .sharepic reader _ postData, cmd =>
      (reader postData).isSome ∧ cmd ≠ CString.lit "share" ∧ cmd ≠ CString.lit "browse" ∧
        cmd ≠ CString.lit "normal" ∧ cmd ≠ CString.lit "cancel"
  | _, _ => False

/-- The command of the URL, or what the buffer holds; any where the request has none. -/
def RequestMayBe : Request → CString → Prop
  | .myfiles _ url _, cmd => MayBe url cmd
  | .dealfile _ url _, cmd => MayBe url cmd
  | .sharefiles _ url _, cmd => MayBe url cmd
  | .sharepic _ url _, cmd => MayBe url cmd
  | .dealsharefile _ url _, cmd => MayBe url cmd
  | _, _ => True

/-- What the request does with its connections. -/
def workOf : Request → CString → Work
  | .upload .., _ => .upload
  | .dealfile .., cmd =>
      if cmd = CString.lit "del" then .delete
      else if cmd = CString.lit "share" then .share
      else .plain
  | .sharefiles .., cmd =>
      if cmd = CString.lit "count" then .sharesCount
      else if cmd = CString.lit "normal" then .sharesList
      else if cmd = CString.lit "pvdesc" then .ranking
      else .plain
  | .dealsharefile .., cmd =>
      if cmd = CString.lit "cancel" then .cancel
      else if cmd = CString.lit "save" then .save
      else if cmd = CString.lit "pv" then .pv
      else .plain
  | _, _ => .plain

/-- The response has an integer code. -/
def HasCode (response : Response) : Prop := ∃ n, codeOf response = some n

theorem hasCode_withCode (ret n : Int) (members : List (CString × Json)) :
    HasCode (ret, some (.fast (Json.withCode n members))) := ⟨n, Json.code_withCode n members⟩

theorem hasCode_of_coded {ret : Int} {text : Written} (h : Coded text.root) :
    HasCode (ret, some text) := h

/-! ## Rules for the fields -/

section Fields

variable {α : Type} {root : Json} {field : String} {fields : List (String × FieldKind)}

/-- What reading a field does, by its value. -/
theorem extractField_eq (root : Json) (field : String) :
    extractField root field =
      (orThrow (root.member (CString.lit field)) >>= fun value =>
        if value.isNull then .ret none
        else orThrow value.asString >>= fun text => .ret (some text)) :=
  rfl

/-- The two ways in which a readable field is read. -/
theorem extractField_of_readable (h : readable root ((field, .text) :: fields) = true) :
    extractField root field = .ret none ∨
      ∃ text, extractField root field = .ret (some text) ∧ readable root fields = true := by
  rw [extractField_eq]
  cases hmember : root.member (CString.lit field) with
  | none => simp [readable, hmember] at h
  | some value =>
      rw [orThrow_some, Prog.ret_bind]
      cases hnull : value.isNull with
      | true => exact Or.inl rfl
      | false =>
          cases htext : value.asString with
          | none => simp [readable, hmember, hnull, FieldKind.converts, htext] at h
          | some text =>
              refine Or.inr ⟨text, rfl, ?_⟩
              simpa [readable, hmember, hnull, FieldKind.converts, htext] using h

theorem extractFieldAsInt_of_readable (h : readable root ((field, .int) :: fields) = true) :
    extractFieldAsInt root field = .ret none ∨
      ∃ n, extractFieldAsInt root field = .ret (some n) ∧ readable root fields = true := by
  unfold extractFieldAsInt
  cases hmember : root.member (CString.lit field) with
  | none => simp [readable, hmember] at h
  | some value =>
      rw [orThrow_some, Prog.ret_bind]
      cases hnull : value.isNull with
      | true => exact Or.inl rfl
      | false =>
          cases hint : value.asInt with
          | none => simp [readable, hmember, hnull, FieldKind.converts, hint] at h
          | some n =>
              refine Or.inr ⟨n, rfl, ?_⟩
              simpa [readable, hmember, hnull, FieldKind.converts, hint] using h

theorem extractOptional_of_readable (h : readable root ((field, .optional) :: fields) = true) :
    ∃ text, extractOptional root field = .ret text ∧ readable root fields = true := by
  rw [extractOptional, extractField_eq]
  cases hmember : root.member (CString.lit field) with
  | none => simp [readable, hmember] at h
  | some value =>
      rw [orThrow_some, Prog.ret_bind]
      cases hnull : value.isNull with
      | true => exact ⟨_, rfl, by simpa [readable, hmember, hnull] using h⟩
      | false =>
          cases htext : value.asString with
          | none => simp [readable, hmember, hnull, FieldKind.converts, htext] at h
          | some text =>
              refine ⟨_, rfl, ?_⟩
              simpa [readable, hmember, hnull, FieldKind.converts, htext] using h

/-- A request with `F` reads its fields, when a program that fails has not `F`. -/
theorem readable_of_field {F : Handler α → Prop} (hfail : ¬ F .fail) {other : Handler α}
    {k : CString → Handler α} (hk : ∀ text, F (k text) → readable root fields = true)
    (h : F (extractField root field >>= fun
      | some text => k text
      | _ => other)) : readable root ((field, .text) :: fields) = true := by
  rw [extractField_eq] at h
  cases hmember : root.member (CString.lit field) with
  | none =>
      rw [hmember] at h
      exact absurd h hfail
  | some value =>
      rw [hmember, orThrow_some, Prog.ret_bind] at h
      cases hnull : value.isNull with
      | true => simp [readable, hmember, hnull]
      | false =>
          cases htext : value.asString with
          | none =>
              rw [hnull, htext] at h
              exact absurd h hfail
          | some text =>
              rw [hnull, htext] at h
              simpa [readable, hmember, hnull, FieldKind.converts, htext] using hk text h

theorem readable_of_fieldAsInt {F : Handler α → Prop} (hfail : ¬ F .fail) {other : Handler α}
    {k : Int → Handler α} (hk : ∀ n, F (k n) → readable root fields = true)
    (h : F (extractFieldAsInt root field >>= fun
      | some n => k n
      | _ => other)) : readable root ((field, .int) :: fields) = true := by
  unfold extractFieldAsInt at h
  cases hmember : root.member (CString.lit field) with
  | none =>
      rw [hmember] at h
      exact absurd h hfail
  | some value =>
      rw [hmember, orThrow_some, Prog.ret_bind] at h
      cases hnull : value.isNull with
      | true => simp [readable, hmember, hnull]
      | false =>
          cases hint : value.asInt with
          | none =>
              rw [hnull, hint] at h
              exact absurd h hfail
          | some n =>
              rw [hnull, hint] at h
              simpa [readable, hmember, hnull, FieldKind.converts, hint] using hk n h

theorem readable_of_optional {F : Handler α → Prop} (hfail : ¬ F .fail)
    {k : CString → Handler α} (hk : ∀ text, F (k text) → readable root fields = true)
    (h : F (extractOptional root field >>= k)) :
    readable root ((field, .optional) :: fields) = true := by
  rw [extractOptional, extractField_eq] at h
  cases hmember : root.member (CString.lit field) with
  | none =>
      rw [hmember] at h
      exact absurd h hfail
  | some value =>
      rw [hmember, orThrow_some, Prog.ret_bind] at h
      cases hnull : value.isNull with
      | true =>
          rw [hnull] at h
          simpa [readable, hmember, hnull] using hk _ h
      | false =>
          cases htext : value.asString with
          | none =>
              rw [hnull, htext] at h
              exact absurd h hfail
          | some text =>
              rw [hnull, htext] at h
              simpa [readable, hmember, hnull, FieldKind.converts, htext] using hk _ h

end Fields

/-! ## What is read can be converted -/

/-- A program that fails has not `F`, and a command that may be `cmd` can be read as it. -/
structure Reads (cmd : CString) (F : Handler Response → Prop) : Prop where
  fail : ¬ F .fail
  parse : ∀ url k, MayBe url cmd → F (parseCmd url >>= k) → F (k cmd)

namespace Reads

variable {cmd : CString} {F : Handler Response → Prop} (hF : Reads cmd F)
variable {reader : JsonReader} {url postData : List UInt8} {root : Json}

include hF

theorem register (h : F (apiRegisterUser reader postData)) (hne : postData ≠ [])
    (hroot : reader postData = some root) :
    readable root [("userName", .text), ("nickName", .text), ("firstPwd", .text),
      ("phone", .optional), ("email", .optional)] = true := by
  rw [apiRegisterUser, if_neg hne, decodeRegisterJson, hroot] at h
  refine readable_of_field (F := fun p => F (p >>= _)) hF.fail (fun userName => ?_) h
  refine readable_of_field (F := fun p => F (p >>= _)) hF.fail fun nickName => ?_
  refine readable_of_field (F := fun p => F (p >>= _)) hF.fail fun pwd => ?_
  refine readable_of_optional (F := fun p => F (p >>= _)) hF.fail fun phone => ?_
  exact readable_of_optional (F := fun p => F (p >>= _)) hF.fail fun email _ => rfl

theorem login (h : F (apiUserLogin reader postData)) (hne : postData ≠ [])
    (hroot : reader postData = some root) :
    readable root [("user", .text), ("pwd", .text)] = true := by
  rw [apiUserLogin, if_neg hne, decodeLoginJson, hroot] at h
  refine readable_of_field (F := fun p => F (p >>= _)) hF.fail (fun userName => ?_) h
  exact readable_of_field (F := fun p => F (p >>= _)) hF.fail fun pwd _ => rfl

theorem myfiles (hcmd : MayBe url cmd) (h : F (apiMyfiles reader url postData))
    (hroot : reader postData = some root) :
    readable root (fieldsOf (.myfiles reader url postData) cmd) = true := by
  have h := hF.parse url _ hcmd h
  simp only [fieldsOf]
  split
  · rename_i hcount
    rw [if_pos hcount, myfilesCount, decodeCountJson, hroot] at h
    refine readable_of_field (F := fun p => F (p >>= _)) hF.fail (fun userName => ?_) h
    exact readable_of_field (F := fun p => F (p >>= _)) hF.fail fun token _ => rfl
  · rename_i hlist
    rw [if_neg hlist, myfilesList, decodeFileslistJson, hroot] at h
    refine readable_of_field (F := fun p => F (p >>= _)) hF.fail (fun userName => ?_) h
    refine readable_of_field (F := fun p => F (p >>= _)) hF.fail fun token => ?_
    refine readable_of_fieldAsInt (F := fun p => F (p >>= _)) hF.fail fun start => ?_
    exact readable_of_fieldAsInt (F := fun p => F (p >>= _)) hF.fail fun count _ => rfl

theorem md5 (h : F (apiMd5 reader postData)) (hroot : reader postData = some root) :
    readable root [("user", .text), ("token", .text), ("md5", .text), ("filename", .text)] =
      true := by
  rw [apiMd5, decodeMd5Json, hroot] at h
  refine readable_of_field (F := fun p => F (p >>= _)) hF.fail (fun user => ?_) h
  refine readable_of_field (F := fun p => F (p >>= _)) hF.fail fun token => ?_
  refine readable_of_field (F := fun p => F (p >>= _)) hF.fail fun md5 => ?_
  exact readable_of_field (F := fun p => F (p >>= _)) hF.fail fun filename _ => rfl

theorem dealfile (hcmd : MayBe url cmd) (h : F (apiDealfile reader url postData))
    (hroot : reader postData = some root) :
    readable root [("user", .text), ("token", .text), ("filename", .text), ("md5", .text)] =
      true := by
  have h := hF.parse url _ hcmd h
  rw [hroot] at h
  refine readable_of_field hF.fail (fun user => ?_) h
  refine readable_of_field hF.fail fun token => ?_
  refine readable_of_field hF.fail fun filename => ?_
  exact readable_of_field hF.fail fun md5 _ => rfl

theorem sharefiles (hcmd : MayBe url cmd) (h : F (apiSharefile reader url postData))
    (hroot : reader postData = some root) :
    readable root (fieldsOf (.sharefiles reader url postData) cmd) = true := by
  have h := hF.parse url _ hcmd h
  simp only [fieldsOf]
  split
  · rfl
  · rename_i hlist
    rw [if_neg hlist, hroot] at h
    refine readable_of_fieldAsInt hF.fail (fun count => ?_) h
    exact readable_of_fieldAsInt hF.fail fun start _ => rfl

theorem sharepic (hcmd : MayBe url cmd) (h : F (apiSharePicture reader url postData))
    (hroot : reader postData = some root) :
    readable root (fieldsOf (.sharepic reader url postData) cmd) = true := by
  have h := hF.parse url _ hcmd h
  rw [hroot] at h
  simp only [fieldsOf]
  by_cases hshare : cmd = CString.lit "share"
  · simp only [if_pos hshare, sharePictureShare] at h ⊢
    refine readable_of_field hF.fail (fun user => ?_) h
    refine readable_of_field hF.fail fun token => ?_
    refine readable_of_field hF.fail fun md5 => ?_
    exact readable_of_field hF.fail fun filename _ => rfl
  by_cases hbrowse : cmd = CString.lit "browse"
  · simp only [if_neg hshare, if_pos hbrowse, sharePictureBrowse] at h ⊢
    exact readable_of_field hF.fail (fun urlmd5 _ => rfl) h
  by_cases hnormal : cmd = CString.lit "normal"
  · simp only [if_neg hshare, if_neg hbrowse, if_pos hnormal, sharePictureNormal] at h ⊢
    refine readable_of_field hF.fail (fun user => ?_) h
    refine readable_of_field hF.fail fun token => ?_
    refine readable_of_fieldAsInt hF.fail fun start => ?_
    exact readable_of_fieldAsInt hF.fail fun count _ => rfl
  by_cases hcancel : cmd = CString.lit "cancel"
  · simp only [if_neg hshare, if_neg hbrowse, if_neg hnormal, if_pos hcancel,
      sharePictureCancel] at h ⊢
    refine readable_of_field hF.fail (fun user => ?_) h
    exact readable_of_field hF.fail fun urlmd5 _ => rfl
  · simp only [if_neg hshare, if_neg hbrowse, if_neg hnormal, if_neg hcancel]
    rfl

theorem dealsharefile (hcmd : MayBe url cmd) (h : F (apiDealsharefile reader url postData))
    (hroot : reader postData = some root) :
    readable root [("user", .text), ("md5", .text), ("filename", .text)] = true := by
  have h := hF.parse url _ hcmd h
  rw [decodeDealsharefileJson, hroot] at h
  refine readable_of_field (F := fun p => F (p >>= _)) hF.fail (fun user => ?_) h
  refine readable_of_field (F := fun p => F (p >>= _)) hF.fail fun md5 => ?_
  exact readable_of_field (F := fun p => F (p >>= _)) hF.fail fun filename _ => rfl

end Reads

/-! ## What can be read is answered -/

section Answers

variable {α : Type} {S : Sem Server.Command Command.Reply Seen} {Q : α → Seen → Prop} {q : Seen}
  {root : Json} {field : String} {fields : List (String × FieldKind)}

theorem wp_read {other : Handler α} {k : CString → Handler α}
    (h : readable root ((field, .text) :: fields) = true) (hother : wp S other Q q)
    (hk : ∀ text, readable root fields = true → wp S (k text) Q q) :
    wp S (extractField root field >>= fun
      | some text => k text
      | _ => other) Q q := by
  rcases extractField_of_readable h with hnull | ⟨text, htext, hrest⟩
  · rw [hnull]
    exact hother
  · rw [htext]
    exact hk text hrest

theorem wp_readAsInt {other : Handler α} {k : Int → Handler α}
    (h : readable root ((field, .int) :: fields) = true) (hother : wp S other Q q)
    (hk : ∀ n, readable root fields = true → wp S (k n) Q q) :
    wp S (extractFieldAsInt root field >>= fun
      | some n => k n
      | _ => other) Q q := by
  rcases extractFieldAsInt_of_readable h with hnull | ⟨n, hn, hrest⟩
  · rw [hnull]
    exact hother
  · rw [hn]
    exact hk n hrest

theorem wp_readOptional {k : CString → Handler α}
    (h : readable root ((field, .optional) :: fields) = true)
    (hk : ∀ text, readable root fields = true → wp S (k text) Q q) :
    wp S (extractOptional root field >>= k) Q q := by
  obtain ⟨text, htext, hrest⟩ := extractOptional_of_readable h
  rw [htext]
  exact hk text hrest

end Answers

/-- Every run that is not spoiled ends in a response with a code. -/
def Answered (work : Work) (cmd : CString) (p : Handler Response) : Prop :=
  wp (backends work cmd) p (Clear HasCode) .start

section Requests

variable {cmd : CString} {work : Work} {reader : JsonReader} {url postData : List UInt8}
  {root : Json}

theorem answered_ret (ret n : Int) (members : List (CString × Json)) :
    Answered work cmd (.ret (ret, some (Json.withCode n members))) :=
  ⟨rfl, rfl, hasCode_withCode ret n members⟩

/-- Reading the command changes nothing. -/
theorem ends_parseCmd {α : Type} {k : CString → Handler α} {outcome : Option α} {q : Seen}
    (hcmd : MayBe url cmd) :
    Ends (backends work cmd) (parseCmd url >>= k) .start outcome q ↔
      Ends (backends work cmd) (k cmd) .start outcome q := by
  unfold parseCmd
  cases hknown : queryParseKeyValue (CString.cStr url) (CString.lit "cmd") with
  | some known =>
      rw [hcmd known hknown]
      exact Iff.rfl
  | none =>
      constructor
      · intro h
        cases h with
        | cmd hstep hrest =>
            obtain ⟨rfl, rfl⟩ := hstep
            exact hrest
      · intro h
        have hstep : (backends work cmd).step (.sys .uninitialised) .start cmd .start := ⟨rfl, rfl⟩
        exact .cmd hstep h

theorem wp_backends_parseCmd {α : Type} {k : CString → Handler α} {Q : α → Seen → Prop}
    (hcmd : MayBe url cmd) :
    wp (backends work cmd) (parseCmd url >>= k) Q .start ↔
      wp (backends work cmd) (k cmd) Q .start := by
  rw [wp_iff_ends fun _ _ => trivial, wp_iff_ends fun _ _ => trivial]
  simp only [ends_parseCmd hcmd]

/-- Where the token is refused the run is over. -/
theorem answered_verifyToken {user token : CString} {k : Int → Handler Response}
    (hwork : work ≠ .upload) (hmiss : missing work .start .getCacheConn .null = false)
    (hrefused : ∃ ret n members, k (-1) = .ret (ret, some (Json.withCode n members)))
    (hk : ∀ ret, Answered work cmd (k ret)) : Answered work cmd (verifyToken user token >>= k) := by
  unfold Answered
  rw [wp_bind]
  refine wp_mono (wp_backends_verifyToken hwork hmiss user token) ?_
  rintro ret q (rfl | ⟨rfl, hspoiled, hthrew⟩)
  · exact hk ret
  · obtain ⟨ret, n, members, hret⟩ := hrefused
    rw [hret]
    exact ⟨hspoiled, hthrew, hasCode_withCode ret n members⟩

/-- The last handler of a request, when it gives its response. -/
theorem answered_last {α : Type} {P : α → Prop} {p : Handler α} {f : α → Response}
    (hp : wp (backends work cmd) p (Clear P) .start) (hf : ∀ a, P a → HasCode (f a)) :
    Answered work cmd (p >>= fun a => .ret (f a)) := by
  unfold Answered
  rw [wp_bind]
  refine wp_mono hp ?_
  rintro a q ⟨hspoiled, hthrew, ha⟩
  exact ⟨hspoiled, hthrew, hf a ha⟩

theorem answered_then {α : Type} {P : α → Prop} {p : Handler α} {k : α → Handler Response}
    (hp : wp (backends work cmd) p (AtStart P) .start) (hk : ∀ a, P a → Answered work cmd (k a)) :
    Answered work cmd (p >>= k) := by
  unfold Answered
  rw [wp_bind]
  refine wp_mono hp ?_
  rintro a q ⟨rfl, ha⟩
  exact hk a ha

theorem clear_of_atStart {α : Type} {P : α → Prop} {p : Handler α}
    (hp : wp (backends work cmd) p (AtStart P) .start) :
    wp (backends work cmd) p (Clear P) .start := by
  refine wp_mono hp ?_
  rintro a q ⟨rfl, ha⟩
  exact ⟨rfl, rfl, ha⟩

/-- A decoder leaves the state as it is. -/
theorem answered_decode {α : Type} {p : Handler (Option α)} {k : Option α → Handler Response}
    (hp : wp (backends work cmd) p (fun _ q => q = .start) .start)
    (hk : ∀ msg, Answered work cmd (k msg)) : Answered work cmd (p >>= k) :=
  answered_then (P := fun _ => True) (wp_mono hp fun _ _ h => ⟨h, trivial⟩) fun msg _ => hk msg

theorem answered_register (hne : postData ≠ [])
    (hread : ∀ root, reader postData = some root →
      readable root (fieldsOf (.register reader postData) cmd) = true) :
    Answered .plain cmd (apiRegisterUser reader postData) := by
  rw [apiRegisterUser, if_neg hne]
  refine answered_decode ?_ fun msg => ?_
  · rw [decodeRegisterJson]
    cases hroot : reader postData with
    | none => rfl
    | some root =>
        refine wp_read (hread root hroot) rfl fun userName h => ?_
        refine wp_read h rfl fun nickName h => wp_read h rfl fun pwd h => ?_
        exact wp_readOptional h fun phone h => wp_readOptional h fun email _ => rfl
  · cases msg with
    | none => exact answered_ret ..
    | some msg =>
        exact answered_last (clear_of_atStart (wp_backends_registerUser msg))
          fun ret _ => hasCode_withCode ..

theorem answered_login (hne : postData ≠ [])
    (hread : ∀ root, reader postData = some root →
      readable root (fieldsOf (.login reader postData) cmd) = true) :
    Answered .plain cmd (apiUserLogin reader postData) := by
  rw [apiUserLogin, if_neg hne]
  refine answered_decode ?_ fun msg => ?_
  · rw [decodeLoginJson]
    cases hroot : reader postData with
    | none => rfl
    | some root =>
        exact wp_read (hread root hroot) rfl fun userName h => wp_read h rfl fun pwd _ => rfl
  · cases msg with
    | none => exact answered_ret ..
    | some msg =>
        obtain ⟨userName, pwd⟩ := msg
        refine answered_then (wp_backends_verifyUserPassword userName pwd) fun verified _ => ?_
        split
        · exact answered_ret ..
        · unfold Answered
          rw [wp_bind]
          refine wp_mono (wp_backends_setToken userName) ?_
          rintro ⟨ret, token⟩ q ⟨hspoiled, hthrew, _⟩
          show wp _ (if ret < 0 then _ else _) _ _
          split
          · exact ⟨hspoiled, hthrew, hasCode_withCode ..⟩
          · exact ⟨hspoiled, hthrew, hasCode_withCode ..⟩

theorem answered_myfilesCount
    (hread : ∀ root, reader postData = some root →
      readable root [("user", .text), ("token", .text)] = true) :
    Answered .plain cmd (myfilesCount reader postData) := by
  refine answered_decode ?_ fun msg => ?_
  · rw [decodeCountJson]
    cases hroot : reader postData with
    | none => rfl
    | some root =>
        exact wp_read (hread root hroot) rfl fun user h => wp_read h rfl fun token _ => rfl
  · cases msg with
    | none => exact answered_ret ..
    | some msg =>
        obtain ⟨userName, token⟩ := msg
        refine answered_verifyToken (by decide) rfl ⟨_, _, _, rfl⟩ fun ret => ?_
        split
        · refine answered_last (wp_backends_handleUserFilesCount userName) fun (ret, count) _ => ?_
          split
          · exact hasCode_withCode ..
          · exact hasCode_withCode ..
        · exact answered_ret ..

theorem answered_myfilesList
    (hread : ∀ root, reader postData = some root →
      readable root [("user", .text), ("token", .text), ("start", .int), ("count", .int)] = true)
    (cmd' : CString) : Answered .plain cmd (myfilesList reader cmd' postData) := by
  refine answered_decode ?_ fun msg => ?_
  · rw [decodeFileslistJson]
    cases hroot : reader postData with
    | none => rfl
    | some root =>
        refine wp_read (hread root hroot) rfl fun user h => wp_read h rfl fun token h => ?_
        exact wp_readAsInt h rfl fun start h => wp_readAsInt h rfl fun count _ => rfl
  · cases msg with
    | none => exact answered_ret ..
    | some msg =>
        refine answered_verifyToken (by decide) rfl ⟨_, _, _, rfl⟩ fun ret => ?_
        split
        · refine answered_last (wp_backends_getUserFileList ..) fun response hcoded => ?_
          cases response with
          | none => exact hasCode_withCode ..
          | some response => exact hcoded response rfl
        · exact answered_ret ..

theorem answered_myfiles (hcmd : MayBe url cmd)
    (hread : ∀ root, reader postData = some root →
      readable root (fieldsOf (.myfiles reader url postData) cmd) = true) :
    Answered .plain cmd (apiMyfiles reader url postData) := by
  refine (wp_backends_parseCmd hcmd).mpr ?_
  simp only [fieldsOf] at hread
  split
  · rename_i hcount
    simp only [if_pos hcount] at hread
    exact answered_myfilesCount hread
  · rename_i hlist
    simp only [if_neg hlist] at hread
    exact answered_myfilesList hread cmd

theorem answered_md5
    (hread : ∀ root, reader postData = some root →
      readable root (fieldsOf (.md5 reader postData) cmd) = true) :
    Answered .plain cmd (apiMd5 reader postData) := by
  refine answered_decode ?_ fun msg => ?_
  · rw [decodeMd5Json]
    cases hroot : reader postData with
    | none => rfl
    | some root =>
        refine wp_read (hread root hroot) rfl fun user h => wp_read h rfl fun token h => ?_
        exact wp_read h rfl fun md5 h => wp_read h rfl fun filename _ => rfl
  · cases msg with
    | none => exact answered_ret ..
    | some msg =>
        refine answered_verifyToken (by decide) rfl ⟨_, _, _, rfl⟩ fun ret => ?_
        split
        · exact answered_last (clear_of_atStart (wp_backends_handleDealMd5 ..))
            fun code _ => hasCode_withCode ..
        · exact answered_ret ..

theorem answered_dealfile (hcmd : MayBe url cmd)
    (hread : ∀ root, reader postData = some root →
      readable root (fieldsOf (.dealfile reader url postData) cmd) = true) :
    Answered (workOf (.dealfile reader url postData) cmd) cmd
      (apiDealfile reader url postData) := by
  refine (wp_backends_parseCmd hcmd).mpr ?_
  cases hroot : reader postData with
  | none => exact answered_ret ..
  | some root =>
      refine wp_read (hread root hroot) (answered_ret ..) fun user h => ?_
      refine wp_read h (answered_ret ..) fun token h => ?_
      refine wp_read h (answered_ret ..) fun filename h => ?_
      refine wp_read h (answered_ret ..) fun md5 _ => ?_
      simp only [workOf]
      by_cases hdel : cmd = CString.lit "del"
      · -- the deletion is followed by the answer to an unknown command
        simp only [if_pos hdel]
        refine answered_verifyToken (by decide) rfl ⟨_, _, _, rfl⟩ fun ret => ?_
        split
        · exact answered_ret ..
        · have htail : dealfileTail cmd user md5 filename =
              .ret (0, some (encodeCode shareFail)) := by
            have hne : CString.lit "del" ≠ CString.lit "share" := by decide +kernel
            rw [dealfileTail, hdel, if_neg hne]
            rfl
          rw [htail]
          exact answered_last (wp_backends_handleDeleteFile ..) fun _ _ => hasCode_withCode ..
      by_cases hshare : cmd = CString.lit "share"
      · have hpv : cmd ≠ CString.lit "pv" := by
          rw [hshare]
          decide +kernel
        simp only [if_neg hdel, if_pos hshare, if_neg hpv, dealfileTail]
        exact answered_last (wp_backends_handleShareFile ..) fun _ _ => hasCode_withCode ..
      · have htail : dealfileTail cmd user md5 filename =
            .ret (0, some (encodeCode shareFail)) := if_neg hshare
        simp only [if_neg hdel, if_neg hshare, htail]
        split
        · exact answered_last (clear_of_atStart (wp_backends_handlePvUserFile ..))
            fun _ _ => hasCode_withCode ..
        · exact answered_ret ..

theorem answered_sharefiles (hcmd : MayBe url cmd)
    (hread : ∀ root, reader postData = some root →
      readable root (fieldsOf (.sharefiles reader url postData) cmd) = true) :
    Answered (workOf (.sharefiles reader url postData) cmd) cmd
      (apiSharefile reader url postData) := by
  refine (wp_backends_parseCmd hcmd).mpr ?_
  simp only [fieldsOf, workOf] at hread ⊢
  by_cases hcount : cmd = CString.lit "count"
  · simp only [if_pos hcount]
    refine answered_last wp_backends_handleGetSharefilesCount fun (ret, count) _ => ?_
    split
    · exact hasCode_withCode ..
    · exact hasCode_withCode ..
  · simp only [if_neg hcount] at hread ⊢
    cases hroot : reader postData with
    | none => exact answered_ret ..
    | some root =>
        refine wp_readAsInt (hread root hroot) (answered_ret ..) fun count h => ?_
        refine wp_readAsInt h (answered_ret ..) fun start _ => ?_
        by_cases hnormal : cmd = CString.lit "normal"
        · simp only [if_pos hnormal]
          exact answered_last (wp_backends_handleGetShareFilelist start count)
            fun _ h => hasCode_of_coded h
        · simp only [if_neg hnormal]
          split
          · exact answered_last (wp_backends_handleGetRankingFilelist start count)
              fun _ h => hasCode_of_coded h
          · exact answered_ret ..

theorem answered_sharepic (hcmd : MayBe url cmd)
    (hread : ∀ root, reader postData = some root →
      readable root (fieldsOf (.sharepic reader url postData) cmd) = true)
    (hknown : ¬ Silent (.sharepic reader url postData) cmd) :
    Answered .plain cmd (apiSharePicture reader url postData) := by
  refine (wp_backends_parseCmd hcmd).mpr ?_
  cases hroot : reader postData with
  | none => exact answered_ret ..
  | some root =>
      have hread := hread root hroot
      simp only [fieldsOf] at hread
      by_cases hshare : cmd = CString.lit "share"
      · simp only [if_pos hshare] at hread ⊢
        refine wp_read hread (answered_ret ..) fun user h => ?_
        refine wp_read h (answered_ret ..) fun token h => ?_
        refine wp_read h (answered_ret ..) fun md5 h => ?_
        refine wp_read h (answered_ret ..) fun filename _ => ?_
        refine answered_verifyToken (by decide) rfl ⟨_, _, _, rfl⟩ fun ret => ?_
        split
        · exact answered_ret ..
        · exact answered_last (clear_of_atStart (wp_backends_handleSharePicture ..))
            fun _ h => hasCode_of_coded h
      by_cases hbrowse : cmd = CString.lit "browse"
      · simp only [if_neg hshare, if_pos hbrowse] at hread ⊢
        refine wp_read hread (answered_ret ..) fun urlmd5 _ => ?_
        exact answered_last (clear_of_atStart (wp_backends_handleBrowsePicture urlmd5))
          fun _ h => hasCode_of_coded h
      by_cases hnormal : cmd = CString.lit "normal"
      · simp only [if_neg hshare, if_neg hbrowse, if_pos hnormal] at hread ⊢
        refine wp_read hread (answered_ret ..) fun user h => ?_
        refine wp_read h (answered_ret ..) fun token h => ?_
        refine wp_readAsInt h (answered_ret ..) fun start h => ?_
        refine wp_readAsInt h (answered_ret ..) fun count _ => ?_
        refine answered_verifyToken (by decide) rfl ⟨_, _, _, rfl⟩ fun ret => ?_
        split
        · exact answered_ret ..
        · exact answered_last (clear_of_atStart (wp_backends_handleGetSharePicturesList ..))
            fun _ h => hasCode_of_coded h
      by_cases hcancel : cmd = CString.lit "cancel"
      · simp only [if_neg hshare, if_neg hbrowse, if_neg hnormal, if_pos hcancel] at hread ⊢
        refine wp_read hread (answered_ret ..) fun user h => ?_
        refine wp_read h (answered_ret ..) fun urlmd5 _ => ?_
        exact answered_last (clear_of_atStart (wp_backends_handleCancelSharePicture ..))
          fun _ h => hasCode_of_coded h
      · exact absurd ⟨by rw [hroot]; rfl, hshare, hbrowse, hnormal, hcancel⟩ hknown

theorem answered_dealsharefile (hcmd : MayBe url cmd)
    (hread : ∀ root, reader postData = some root →
      readable root (fieldsOf (.dealsharefile reader url postData) cmd) = true) :
    Answered (workOf (.dealsharefile reader url postData) cmd) cmd
      (apiDealsharefile reader url postData) := by
  refine (wp_backends_parseCmd hcmd).mpr ?_
  refine answered_decode ?_ fun msg => ?_
  · rw [decodeDealsharefileJson]
    cases hroot : reader postData with
    | none => rfl
    | some root =>
        refine wp_read (hread root hroot) rfl fun user h => wp_read h rfl fun md5 h => ?_
        exact wp_read h rfl fun filename _ => rfl
  · cases msg with
    | none => exact answered_ret ..
    | some msg =>
        refine answered_last (P := fun _ => True) ?_ fun ret _ => hasCode_withCode ..
        simp only [workOf, dealsharefileCmd]
        split
        · exact wp_backends_handleCancelShareFile ..
        · split
          · exact wp_backends_handleSaveFile ..
          · split
            · exact wp_backends_handlePvFile ..
            · exact ⟨rfl, rfl, trivial⟩

/-- Of what can be read only a login without a body and an unknown command of the picture
shares are not answered. -/
theorem answered_request {request : Request} (hcmd : RequestMayBe request cmd)
    (hread : Readable request cmd) (hspeaks : ¬ Silent request cmd) :
    Answered (workOf request cmd) cmd request.prog := by
  cases request with
  | register reader postData =>
      by_cases hempty : postData = []
      · rw [Request.prog, apiRegisterUser, if_pos hempty]
        exact answered_ret ..
      · refine answered_register hempty fun root hroot => hread.1 root ?_
        simp only [bodyOf, if_neg hempty, hroot]
  | login reader postData =>
      have hempty : postData ≠ [] := hspeaks
      refine answered_login hempty fun root hroot => hread.1 root ?_
      simp only [bodyOf, if_neg hempty, hroot]
  | myfiles reader url postData => exact answered_myfiles hcmd hread.1
  | md5 reader postData => exact answered_md5 hread.1
  | upload cfg postData split => exact wp_backends_apiUpload cfg postData split (hread.2 _ _ _ rfl)
  | dealfile reader url postData => exact answered_dealfile hcmd hread.1
  | sharefiles reader url postData => exact answered_sharefiles hcmd hread.1
  | sharepic reader url postData => exact answered_sharepic hcmd hread.1 hspeaks
  | dealsharefile reader url postData => exact answered_dealsharefile hcmd hread.1

end Requests

/-! ## When a request responds -/

/-- The request ended with a response that has a code. -/
def Responds : Option Response → Prop
  | some response => HasCode response
  | none => False

section Responds

variable {cmd : CString} {request : Request}

/-- Of a request that has `F`, the fields could be read. -/
theorem Reads.readable {F : Handler Response → Prop} (hF : Reads cmd F)
    (hcmd : RequestMayBe request cmd) (h : F request.prog)
    (hparts : ∀ cfg postData split, request = .upload cfg postData split →
      (decodeMsg postData split).isSome) : Readable request cmd := by
  refine ⟨fun root hroot => ?_, hparts⟩
  cases request with
  | register reader postData =>
      by_cases hempty : postData = []
      · simp [bodyOf, hempty] at hroot
      · exact hF.register h hempty (by simpa [bodyOf, hempty] using hroot)
  | login reader postData =>
      by_cases hempty : postData = []
      · simp [bodyOf, hempty] at hroot
      · exact hF.login h hempty (by simpa [bodyOf, hempty] using hroot)
  | myfiles reader url postData => exact hF.myfiles hcmd h hroot
  | md5 reader postData => exact hF.md5 h hroot
  | upload cfg postData split => rfl
  | dealfile reader url postData => exact hF.dealfile hcmd h hroot
  | sharefiles reader url postData => exact hF.sharefiles hcmd h hroot
  | sharepic reader url postData => exact hF.sharepic hcmd h hroot
  | dealsharefile reader url postData => exact hF.dealsharefile hcmd h hroot

/-- One that has `F` is not silent, when an absent response has not `F`. -/
theorem Reads.not_silent {F : Handler Response → Prop} (hF : Reads cmd F)
    (hcmd : RequestMayBe request cmd) (h : F request.prog) (hnone : ∀ ret, ¬ F (.ret (ret, none))) :
    ¬ Silent request cmd := by
  intro hsilent
  cases request with
  | login reader postData =>
      have hempty : postData = [] := hsilent
      rw [Request.prog, apiUserLogin, if_pos hempty] at h
      exact hnone _ h
  | sharepic reader url postData =>
      obtain ⟨hsome, hshare, hbrowse, hnormal, hcancel⟩ := hsilent
      obtain ⟨root, hroot⟩ := Option.isSome_iff_exists.mp hsome
      have h := hF.parse url _ hcmd h
      simp only [hroot, if_neg hshare, if_neg hbrowse, if_neg hnormal, if_neg hcancel] at h
      exact hnone _ h
  | _ => exact hsilent

/-- Only an upload reads a tool's output. -/
theorem quiet_of_ends {α : Type} {work : Work} (hwork : work ≠ .upload) {p : Handler α}
    {outcome : Option α} {q q' : Seen} (h : Ends (backends work cmd) p q outcome q')
    (hq : q.unlinked = false ∧ q.threw = false) : q'.unlinked = false ∧ q'.threw = false := by
  induction h with
  | ret a q => exact hq
  | fail q => exact hq
  | cmd hstep hrest ih =>
      refine ih ?_
      obtain ⟨rfl, _⟩ := hstep
      rename_i c _ q _ _ r _
      cases c with
      | sys c => cases c <;> simp [Seen.after, Seen.move, hwork, hq]
      | _ => exact hq

theorem endsWell_of_answered {outcome : Option Response} {q : Seen}
    (h : Answered (workOf request cmd) cmd request.prog)
    (hends : Ends (backends (workOf request cmd) cmd) request.prog .start outcome q) :
    (Responds outcome ∧ q.spoiled = false ∧ q.threw = false) ∨
      (outcome = none ∧ (q.spoiled = true ∨ q.threw = true)) := by
  have hwell := (wp_iff_ends fun _ _ => trivial).mp h outcome q hends
  cases outcome with
  | none => exact Or.inr ⟨rfl, hwell⟩
  | some response => exact Or.inl ⟨hwell.2.2, hwell.1, hwell.2.1⟩

/-- The requests with a JSON body respond, whatever the backends answer besides an answer
that spoils the run, if and only if the body can be read and the command has a response. -/
theorem jsonRequest_responds_iff
    (hjson : ∀ cfg postData split, request ≠ .upload cfg postData split) :
    (∀ cmd, RequestMayBe request cmd → ∀ outcome q,
      Ends (backends (workOf request cmd) cmd) request.prog .start outcome q →
        Responds outcome ∨ (outcome = none ∧ q.spoiled = true)) ↔
      ∀ cmd, RequestMayBe request cmd → Readable request cmd ∧ ¬ Silent request cmd := by
  refine forall_congr' fun cmd => imp_congr_right fun hcmd => ?_
  constructor
  · intro h
    let F : Handler Response → Prop := fun p =>
      ∀ outcome q, Ends (backends (workOf request cmd) cmd) p .start outcome q →
        Responds outcome ∨ (outcome = none ∧ q.spoiled = true)
    have hF : Reads cmd F := by
      refine ⟨?_, ?_⟩
      · intro hfail
        rcases hfail none .start (.fail _) with hno | ⟨_, hspoiled⟩
        · exact hno
        · cases hspoiled
      · intro url k hurl hparse outcome q hends
        exact hparse outcome q ((ends_parseCmd hurl).mpr hends)
    refine ⟨hF.readable hcmd h fun cfg postData split hrequest => absurd hrequest (hjson _ _ _), ?_⟩
    refine hF.not_silent hcmd h fun ret hret => ?_
    rcases hret _ _ (.ret _ _) with ⟨n, hn⟩ | ⟨hno, _⟩
    · cases hn
    · cases hno
  · rintro ⟨hread, hspeaks⟩ outcome q hends
    have hwork : workOf request cmd ≠ .upload := by
      cases request with
      | upload cfg postData split => exact absurd rfl (hjson cfg postData split)
      | dealfile => simp only [workOf]; split <;> [decide; split <;> decide]
      | sharefiles =>
          simp only [workOf]
          split <;> [decide; split <;> [decide; split <;> decide]]
      | dealsharefile =>
          simp only [workOf]
          split <;> [decide; split <;> [decide; split <;> decide]]
      | _ => exact nofun
    have hquiet := quiet_of_ends hwork hends ⟨rfl, rfl⟩
    rcases endsWell_of_answered (answered_request hcmd hread hspeaks) hends with
      ⟨hresponds, _⟩ | ⟨hnone, hbad | hbad⟩
    · exact Or.inl hresponds
    · exact Or.inr ⟨hnone, hbad⟩
    · rw [hquiet.2] at hbad
      cases hbad

end Responds

/-- A body that is no JSON. -/
theorem jsonRequest_responds_iff_md5 :
    (∀ cmd, RequestMayBe (.md5 (fun _ => none) [123]) cmd → ∀ outcome q,
      Ends (backends (workOf (.md5 (fun _ => none) [123]) cmd) cmd)
        (Request.md5 (fun _ => none) [123]).prog .start outcome q →
        Responds outcome ∨ (outcome = none ∧ q.spoiled = true)) ↔
      ∀ cmd, RequestMayBe (.md5 (fun _ => none) [123]) cmd →
        Readable (.md5 (fun _ => none) [123]) cmd ∧ ¬ Silent (.md5 (fun _ => none) [123]) cmd :=
  jsonRequest_responds_iff nofun

/-- The body `[]` of `/api/md5` throws at its first field. -/
theorem not_responds_array :
    ¬ ∀ request : Request, (∀ cfg postData split, request ≠ .upload cfg postData split) →
      ∀ cmd, RequestMayBe request cmd → ∀ outcome q,
        Ends (backends (workOf request cmd) cmd) request.prog .start outcome q →
          Responds outcome ∨ (outcome = none ∧ q.spoiled = true) := by
  intro h
  have hends : Ends (backends .plain CString.empty)
      (apiMd5 (fun _ => some (.arr [])) (CString.lit "[]").bytes) .start none .start := .fail _
  rcases h (.md5 (fun _ => some (.arr [])) (CString.lit "[]").bytes) nofun CString.empty trivial
    none .start hends with hno | ⟨_, hspoiled⟩
  · exact hno
  · cases hspoiled

/-! ## The helpers of a single record -/

section Helpers

variable {f : (c : Server.Command) → c.Reply}

end Helpers

end Replies
end TcMuzi
