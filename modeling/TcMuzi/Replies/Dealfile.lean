import TcMuzi.Session.TokenChecks

/-!
# What `/api/dealfile` answers

`dealfileTraced` is the entry point with a note of the handler that it ran and of the value
that the handler returned.  `FaithfulDealfile` compares the note with the code of the
response.
-/

namespace TcMuzi
namespace Replies

open Base Server Redis Api Session Lib

/-- The integer code of a response. -/
def codeOf (response : Response) : Option Int :=
  response.2.bind fun text => text.root.code

@[simp] theorem codeOf_encodeCode (ret code : Int) :
    codeOf (ret, some (.fast (encodeCode code))) = some code :=
  Json.code_withCode code []

/-! ## The operation behind a response -/

/-- The handler that a request ran, with its value. -/
inductive DealfileRan
  | nothing
  | delete (ret : Int)
  | pv (ret : Int)
  | share (ret : Int)
deriving DecidableEq

def dealfileTraced (reader : JsonReader) (url postData : List UInt8) :
    Handler (Response × DealfileRan) := do
  let cmd ← parseCmd url
  let some root := reader postData | return ((-1, some (encodeCode httpRespFail)), .nothing)
  let some user ← extractField root "user" | return ((-1, some (encodeCode shareFail)), .nothing)
  let some token ← extractField root "token" | return ((-1, some (encodeCode shareFail)), .nothing)
  let some filename ← extractField root "filename"
    | return ((-1, some (encodeCode shareFail)), .nothing)
  let some md5 ← extractField root "md5" | return ((-1, some (encodeCode shareFail)), .nothing)
  if cmd = CString.lit "del" then
    let ret ← verifyToken user token
    if ret < 0 then
      return ((-1, some (encodeCode shareFail)), .nothing)
    else
      let ret ← handleDeleteFile user md5 filename
      return ((0, some (encodeCode shareFail)), .delete ret)
  else if cmd = CString.lit "pv" then
    let ret ← handlePvUserFile user md5 filename
    return ((0, some (encodeCode shareFail)), .pv ret)
  else if cmd = CString.lit "share" then
    let ret ← handleShareFile user md5 filename
    return ((0, some (encodeCode ret)), .share ret)
  else
    return ((0, some (encodeCode shareFail)), .nothing)

section Fields

variable {α β : Type}

/-- The note goes with the rest of the request. -/
theorem map_field {root : Json} {field : String} {other : α} {other' : β}
    {k : CString → Handler α} {k' : CString → Handler β} {f : α → β} (hother : f other = other')
    (hk : ∀ value, k value >>= (fun a => .ret (f a)) = k' value) :
    (extractField root field >>= fun
      | some value => k value
      | _ => .ret other) >>= (fun a => .ret (f a)) =
    extractField root field >>= fun
      | some value => k' value
      | _ => .ret other' := by
  rw [Prog.bind_assoc]
  congr 1
  funext value
  cases value with
  | none => exact congrArg Prog.ret hother
  | some value => exact hk value

theorem map_ite {c : Prop} [Decidable c] {p q : Handler α} {p' q' : Handler β} {f : α → β}
    (hp : c → p >>= (fun a => .ret (f a)) = p') (hq : ¬ c → q >>= (fun a => .ret (f a)) = q') :
    (if c then p else q) >>= (fun a => .ret (f a)) = if c then p' else q' := by
  split
  · exact hp (by assumption)
  · exact hq (by assumption)

theorem map_bind {γ : Type} {p : Handler γ} {k : γ → Handler α} {k' : γ → Handler β} {f : α → β}
    (hk : ∀ c, k c >>= (fun a => .ret (f a)) = k' c) :
    (p >>= k) >>= (fun a => .ret (f a)) = p >>= k' := by
  rw [Prog.bind_assoc]
  exact congrArg (p >>= ·) (funext hk)

variable {σ : Type} {S : Sem Server.Command Command.Reply σ} {s s' : σ}

/-- A missing field ends the request, otherwise it goes on. -/
theorem exec_of_field {root : Json} {field : String} {other a : α} {k : CString → Handler α}
    (h : Exec S (extractField root field >>= fun
      | some value => k value
      | _ => .ret other) s a s') :
    Exec S ((memberText root field).elim (.ret other) k) s a s' := by
  rcases extractField_eq_or_fail root field with heq | ⟨hfail, _⟩
  · rw [heq] at h
    cases htext : memberText root field with
    | none =>
        rw [htext] at h
        exact h
    | some value =>
        rw [htext] at h
        exact h
  · rw [hfail] at h
    exact absurd h not_exec_fail

theorem exec_field {root : Json} {field : String} {other a : α} {k : CString → Handler α}
    {value : CString} (hvalue : memberText root field = some value) (h : Exec S (k value) s a s') :
    Exec S (extractField root field >>= fun
      | some value => k value
      | _ => .ret other) s a s' := by
  rw [extractField_of_memberText hvalue]
  exact h

end Fields

/-- Without the note it is the entry point. -/
theorem dealfileTraced_fst (reader : JsonReader) (url postData : List UInt8) :
    dealfileTraced reader url postData >>= (fun out => .ret out.1) =
      apiDealfile reader url postData := by
  refine map_bind fun cmd => ?_
  cases reader postData with
  | none => rfl
  | some root =>
      refine map_field rfl fun user => map_field rfl fun token => ?_
      refine map_field rfl fun filename => map_field rfl fun md5 => ?_
      refine map_ite (fun hdel => ?_) fun hdel => map_ite (fun hpv => ?_) fun hpv => ?_
      · refine map_bind fun ret => map_ite (fun _ => rfl) fun _ => map_bind fun _ => ?_
        rw [dealfileTail, if_neg (by rw [hdel]; decide)]
        rfl
      · refine map_bind fun _ => ?_
        rw [dealfileTail, if_neg (by rw [hpv]; decide)]
        rfl
      · exact map_ite (fun _ => map_bind fun _ => rfl) fun _ => rfl

/-! ## When the response is right -/

/-- The body names a user, a token, a file name and an md5. -/
structure DealfileBody (reader : JsonReader) (postData : List UInt8)
    (user token filename md5 : CString) : Prop where
  fields : ∃ root, reader postData = some root ∧ memberText root "user" = some user ∧
    memberText root "token" = some token ∧ memberText root "filename" = some filename ∧
    memberText root "md5" = some md5

section Runs

variable {σ : Type} (S : Sem Server.Command Command.Reply σ) (reader : JsonReader)
  (url postData : List UInt8) (s : σ)

/-- In the state the request can delete the file with the value: its token is accepted and
`handleDeleteFile` returns it. -/
def CanDelete (ret : Int) : Prop :=
  ∃ user token filename md5 s₁ s₂ s₃ verified, DealfileBody reader postData user token filename md5 ∧
    Exec S (parseCmd url) s (CString.lit "del") s₁ ∧
    Exec S (verifyToken user token) s₁ verified s₂ ∧ 0 ≤ verified ∧
    Exec S (handleDeleteFile user md5 filename) s₂ ret s₃

/-- In the state the request can count a download with the value. -/
def CanCount (ret : Int) : Prop :=
  ∃ user token filename md5 s₁ s₂, DealfileBody reader postData user token filename md5 ∧
    Exec S (parseCmd url) s (CString.lit "pv") s₁ ∧
    Exec S (handlePvUserFile user md5 filename) s₁ ret s₂

variable {S reader url postData s}

/-- A deletion ends in the branch for unknown commands. -/
theorem CanDelete.exec {ret : Int} (h : CanDelete S reader url postData s ret) :
    ∃ s', Exec S (dealfileTraced reader url postData) s
      ((0, some (encodeCode shareFail)), .delete ret) s' := by
  obtain ⟨user, token, filename, md5, s₁, s₂, s₃, verified, hbody, hcmd, hverify, haccepted,
    hdelete⟩ := h
  obtain ⟨root, hread, huser, htoken, hfilename, hmd5⟩ := hbody
  refine ⟨s₃, exec_bind_iff.mpr ⟨_, s₁, hcmd, ?_⟩⟩
  rw [hread]
  refine exec_field huser (exec_field htoken (exec_field hfilename (exec_field hmd5 ?_)))
  rw [if_pos rfl]
  refine exec_bind_iff.mpr ⟨verified, s₂, hverify, ?_⟩
  rw [if_neg (by omega)]
  exact exec_bind_iff.mpr ⟨ret, s₃, hdelete, .ret _ _⟩

theorem CanCount.exec {ret : Int} (h : CanCount S reader url postData s ret) :
    ∃ s', Exec S (dealfileTraced reader url postData) s
      ((0, some (encodeCode shareFail)), .pv ret) s' := by
  obtain ⟨user, token, filename, md5, s₁, s₂, hbody, hcmd, hcount⟩ := h
  obtain ⟨root, hread, huser, htoken, hfilename, hmd5⟩ := hbody
  refine ⟨s₂, exec_bind_iff.mpr ⟨_, s₁, hcmd, ?_⟩⟩
  rw [hread]
  refine exec_field huser (exec_field htoken (exec_field hfilename (exec_field hmd5 ?_)))
  rw [if_neg (by decide), if_pos rfl]
  exact exec_bind_iff.mpr ⟨ret, s₂, hcount, .ret _ _⟩

end Runs

/-- The fields of the samples. -/
def sampleFields : JsonReader := fun _ =>
  some (.obj [(CString.lit "user", .str (CString.lit "u")), (CString.lit "token", .str CString.empty),
    (CString.lit "filename", .str (CString.lit "a")), (CString.lit "md5", .str (CString.lit "m"))])

/-- `cmd=pv` -/
def samplePvUrl : List UInt8 := [99, 109, 100, 61, 112, 118]

end Replies
end TcMuzi
