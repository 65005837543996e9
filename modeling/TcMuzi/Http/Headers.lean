import TcMuzi.Http.OnRead

/-!
# The header fields that `CHttpParserWrapper` keeps

Six fields are picked out of the header callbacks.  A field's flag is set at a name and
cleared at a value, and a field that has been read is not read again.
-/

namespace TcMuzi
namespace Http

open Base Lib

/-! ## `CHttpParserWrapper` with all its fields -/

/-- A member with its flag: `read_host_` and `host_`, for one. -/
structure Slot (β : Type) where
  reading : Bool
  value : β
deriving DecidableEq

/-- `strncasecmp(at, field, strlen(field)) == 0`. -/
def beginsWith (field : List UInt8) (at_ : List UInt8) : Bool :=
  (at_.take field.length).map toLower = field.map toLower

namespace Slot

variable {β : Type} [DecidableEq β]

/-- `OnHeaderField` for one member: a member that has been read keeps its flag. -/
def onHeaderField (unset : β) (field at_ : List UInt8) (s : Slot β) : Slot β :=
  if s.value = unset ∧ beginsWith field at_ then { s with reading := true } else s

/-- `OnHeaderValue` for one member. -/
def onHeaderValue (store : β → List UInt8 → β) (part : List UInt8) (s : Slot β) : Slot β :=
  if s.reading then ⟨false, store s.value part⟩ else s

end Slot

/-- `append(at, length)`. -/
def appendValue (value part : List UInt8) : List UInt8 := value ++ part

/-- `MAX_REFERER_LEN`. -/
def maxRefererLen : Nat := 32

def appendReferer (value part : List UInt8) : List UInt8 := value ++ part.take maxRefererLen

/-- `atoi`, which is `strtol` cut to an `int`, as a `uint32_t`. -/
def setContentLen (_ : Nat) (part : List UInt8) : Nat :=
  (max (-9223372036854775808) (min 9223372036854775807 (CString.cStr part).atoll)
    % 4294967296).toNat

structure CHttpParserWrapper where
  readAll : Bool
  url : List UInt8
  bodyContent : List UInt8
  referer : Slot (List UInt8)
  forwardIp : Slot (List UInt8)
  userAgent : Slot (List UInt8)
  contentType : Slot (List UInt8)
  contentLen : Slot Nat
  host : Slot (List UInt8)

namespace CHttpParserWrapper

/-- The members as `ParseHttpContent` sets them. -/
def reset : CHttpParserWrapper :=
  ⟨false, [], [], ⟨false, []⟩, ⟨false, []⟩, ⟨false, []⟩, ⟨false, []⟩, ⟨false, 0⟩, ⟨false, []⟩⟩

def refererField : List UInt8 := (CString.lit "Referer").bytes
def forwardIpField : List UInt8 := (CString.lit "X-Forwarded-For").bytes
def userAgentField : List UInt8 := (CString.lit "User-Agent").bytes
def contentTypeField : List UInt8 := (CString.lit "Content-Type").bytes
def contentLenField : List UInt8 := (CString.lit "Content-Length").bytes
def hostField : List UInt8 := (CString.lit "Host").bytes

def onHeaderField (w : CHttpParserWrapper) (at_ : List UInt8) : CHttpParserWrapper :=
  { w with
    referer := w.referer.onHeaderField [] refererField at_
    forwardIp := w.forwardIp.onHeaderField [] forwardIpField at_
    userAgent := w.userAgent.onHeaderField [] userAgentField at_
    contentType := w.contentType.onHeaderField [] contentTypeField at_
    contentLen := w.contentLen.onHeaderField 0 contentLenField at_
    host := w.host.onHeaderField [] hostField at_ }

def onHeaderValue (w : CHttpParserWrapper) (part : List UInt8) : CHttpParserWrapper :=
  { w with
    referer := w.referer.onHeaderValue appendReferer part
    forwardIp := w.forwardIp.onHeaderValue appendValue part
    userAgent := w.userAgent.onHeaderValue appendValue part
    contentType := w.contentType.onHeaderValue appendValue part
    contentLen := w.contentLen.onHeaderValue setContentLen part
    host := w.host.onHeaderValue appendValue part }

/-- The callbacks that `ParseHttpContent` registers. -/
def onCallback (w : CHttpParserWrapper) : Callback → CHttpParserWrapper
  | .url part => { w with url := w.url ++ part }
  | .headerField at_ => w.onHeaderField at_
  | .headerValue part => w.onHeaderValue part
  | .headersComplete => w
  | .body part => { w with bodyContent := w.bodyContent ++ part }
  | .messageComplete => { w with readAll := true }

def parseHttpContent (P : HttpParser) (buf : List UInt8) : CHttpParserWrapper :=
  (P.execute P.init buf).2.foldl onCallback reset

def getReferer (w : CHttpParserWrapper) : CString := CString.cStr w.referer.value
def getForwardIP (w : CHttpParserWrapper) : CString := CString.cStr w.forwardIp.value
def getUserAgent (w : CHttpParserWrapper) : CString := CString.cStr w.userAgent.value
def getContentType (w : CHttpParserWrapper) : CString := CString.cStr w.contentType.value
def getContentLen (w : CHttpParserWrapper) : Nat := w.contentLen.value
def getHost (w : CHttpParserWrapper) : CString := CString.cStr w.host.value

/-- The members that `OnRead` uses. -/
def onRead (w : CHttpParserWrapper) : HttpParserWrapper where
  readAll := w.readAll
  readContentType := w.contentType.reading
  url := w.url
  bodyContent := w.bodyContent
  contentType := w.contentType.value

theorem onRead_onCallback (w : CHttpParserWrapper) (c : Callback) :
    (w.onCallback c).onRead = w.onRead.onCallback c := by
  cases c with
  | headerField at_ =>
      have hmatch : beginsWith contentTypeField at_ = HttpParserWrapper.isContentType at_ := rfl
      by_cases hreads : w.contentType.value = [] ∧ HttpParserWrapper.isContentType at_ = true
      · have hslot : w.contentType.onHeaderField [] contentTypeField at_ =
            { w.contentType with reading := true } := if_pos (hmatch ▸ hreads)
        have hread : w.onRead.onHeaderField at_ = { w.onRead with readContentType := true } :=
          if_pos hreads
        change (w.onHeaderField at_).onRead = w.onRead.onHeaderField at_
        rw [hread]
        simp only [onHeaderField, onRead, hslot]
      · have hslot : w.contentType.onHeaderField [] contentTypeField at_ = w.contentType :=
          if_neg (hmatch ▸ hreads)
        have hread : w.onRead.onHeaderField at_ = w.onRead := if_neg hreads
        change (w.onHeaderField at_).onRead = w.onRead.onHeaderField at_
        rw [hread]
        simp only [onHeaderField, onRead, hslot]
  | headerValue part =>
      change (w.onHeaderValue part).onRead = w.onRead.onHeaderValue part
      rw [HttpParserWrapper.onHeaderValue, onHeaderValue]
      cases hreading : w.contentType.reading with
      | false => simp [onRead, Slot.onHeaderValue, hreading]
      | true => simp [onRead, Slot.onHeaderValue, hreading, appendValue]
  | url part => rfl
  | headersComplete => rfl
  | body part => rfl
  | messageComplete => rfl

/-- The wrapper of `OnRead` is this one. -/
theorem onRead_parseHttpContent (P : HttpParser) (buf : List UInt8) :
    (parseHttpContent P buf).onRead = HttpParserWrapper.parseHttpContent P buf := by
  have hfoldl (callbacks : List Callback) (w : CHttpParserWrapper) :
      (callbacks.foldl onCallback w).onRead =
        callbacks.foldl HttpParserWrapper.onCallback w.onRead := by
    induction callbacks generalizing w with
    | nil => rfl
    | cons c callbacks ih => rw [List.foldl_cons, List.foldl_cons, ih, onRead_onCallback]
  exact hfoldl _ reset

end CHttpParserWrapper

/-! ## Complete requests -/

/-- A header line: the name has no colon, and the value no NUL. -/
structure Header where
  name : List UInt8
  value : List UInt8
  name_colon : 58 ∉ name
  value_nul : 0 ∉ value

/-- The name of a header in any letter case. -/
def Header.named (field : List UInt8) (h : Header) : Bool :=
  h.name.map toLower = field.map toLower

/-- The name of a header begins with a field's. -/
def Header.begins (field : List UInt8) (h : Header) : Bool := beginsWith field h.name

/-- The callbacks for header lines: at a name the callback sees the bytes behind it. -/
inductive HeaderCalls : List Header → List Callback → Prop
  | nil : HeaderCalls [] []
  | cons (h : Header) (behind : List UInt8) {headers : List Header} {calls : List Callback}
      (hrest : HeaderCalls headers calls) :
      HeaderCalls (h :: headers)
        (.headerField (h.name ++ 58 :: behind) :: .headerValue h.value :: calls)

/-- The parser takes the bytes for one complete request with these headers. -/
def Reports (P : HttpParser) (buf : List UInt8) (headers : List Header) : Prop :=
  ∃ (urls bodies : List (List UInt8)) (calls : List Callback), HeaderCalls headers calls ∧
    (P.execute P.init buf).2 = urls.map .url ++ (calls ++ (.headersComplete ::
      (bodies.map .body ++ [.messageComplete])))

/-! ## What the members hold -/

section Slots

variable {β : Type} [DecidableEq β] (unset : β) (store : β → List UInt8 → β)
  (field : List UInt8)

/-- The value of the first header that begins with the field's name and changes the member. -/
def firstStored (headers : List Header) : β :=
  match headers.find? fun h => h.begins field && store unset h.value ≠ unset with
  | some h => store unset h.value
  | none => unset

/-- One member through the callbacks. -/
def Slot.onCallback (s : Slot β) : Callback → Slot β
  | .headerField at_ => s.onHeaderField unset field at_
  | .headerValue part => s.onHeaderValue store part
  | _ => s

variable {unset store field}

theorem toLower_eq_colon {b : UInt8} (h : 58 = toLower b) : b = 58 := by
  rw [toLower] at h
  split at h
  case isTrue hupper =>
    simp only [Bool.and_eq_true, decide_eq_true_eq, UInt8.le_iff_toNat_le] at hupper
    have hnat := congrArg UInt8.toNat h
    rw [UInt8.toNat_add] at hnat
    simp only [UInt8.reduceToNat] at hupper hnat
    omega
  case isFalse => exact h.symm

/-- Behind the name there is a colon, which is in no field's name. -/
theorem beginsWith_append {name behind : List UInt8} (hfield : 58 ∉ field) :
    beginsWith field (name ++ 58 :: behind) = beginsWith field name := by
  induction field generalizing name with
  | nil => simp [beginsWith]
  | cons c field ih =>
      rw [List.mem_cons, not_or] at hfield
      cases name with
      | nil =>
          have hc : toLower 58 ≠ toLower c := fun h => hfield.1 (toLower_eq_colon h).symm
          simp [beginsWith, hc]
      | cons b name =>
          have htail : beginsWith field (name ++ 58 :: behind) = beginsWith field name :=
            ih hfield.2
          simp only [beginsWith, decide_eq_decide, List.cons_append, List.length_cons,
            List.take_succ_cons, List.map_cons, List.cons.injEq] at htail ⊢
          rw [htail]

/-- A member that has been read stays. -/
theorem foldl_of_set {headers : List Header} {calls : List Callback} {s : Slot β}
    (hcalls : HeaderCalls headers calls) (hreading : s.reading = false)
    (hset : s.value ≠ unset) : calls.foldl (Slot.onCallback unset store field) s = s := by
  induction hcalls with
  | nil => rfl
  | cons h behind hrest ih =>
      have hfirst : s.onHeaderField unset field (h.name ++ 58 :: behind) = s :=
        if_neg fun hand => hset hand.1
      have hsecond : s.onHeaderValue store h.value = s := by simp [Slot.onHeaderValue, hreading]
      rw [List.foldl_cons, List.foldl_cons, Slot.onCallback, hfirst, Slot.onCallback, hsecond, ih]

/-- The member that is not set yet gets the first value that sets it. -/
theorem foldl_headerCalls {headers : List Header} {calls : List Callback}
    (hfield : 58 ∉ field) (hcalls : HeaderCalls headers calls) :
    calls.foldl (Slot.onCallback unset store field) ⟨false, unset⟩ =
      ⟨false, firstStored unset store field headers⟩ := by
  induction hcalls with
  | nil => rfl
  | cons h behind hrest ih =>
      have hfirst : (⟨false, unset⟩ : Slot β).onHeaderField unset field (h.name ++ 58 :: behind) =
          ⟨h.begins field, unset⟩ := by
        rw [Slot.onHeaderField, beginsWith_append hfield, Header.begins]
        cases beginsWith field h.name <;> simp
      rw [List.foldl_cons, List.foldl_cons, Slot.onCallback, hfirst, Slot.onCallback, firstStored,
        List.find?_cons]
      cases hbegins : h.begins field with
      | false => exact ih
      | true =>
          by_cases hstore : store unset h.value = unset
          · simp only [Slot.onHeaderValue, if_true, hstore, ne_eq, not_true_eq_false,
              decide_false, Bool.and_false]
            exact ih
          · simp only [Slot.onHeaderValue, if_true, hstore, ne_eq, not_false_eq_true,
              decide_true, Bool.and_true]
            exact foldl_of_set hrest rfl hstore

/-- The other callbacks do nothing to a member. -/
theorem foldl_of_forall {calls : List Callback} (h : ∀ c ∈ calls, ∀ s : Slot β,
    Slot.onCallback unset store field s c = s) (s : Slot β) :
    calls.foldl (Slot.onCallback unset store field) s = s := by
  induction calls with
  | nil => rfl
  | cons c calls ih =>
      obtain ⟨hc, hcalls⟩ := List.forall_mem_cons.mp h
      rw [List.foldl_cons, hc, ih hcalls]

/-- A member of the wrapper after a complete request. -/
theorem member_of_reports (unset : β) (store : β → List UInt8 → β) (field : List UInt8)
    {P : HttpParser} {buf : List UInt8} {headers : List Header}
    (hfield : 58 ∉ field) (member : CHttpParserWrapper → Slot β)
    (hreset : member .reset = ⟨false, unset⟩)
    (hmember : ∀ w c, member (w.onCallback c) = (member w).onCallback unset store field c)
    (hreports : Reports P buf headers) :
    member (CHttpParserWrapper.parseHttpContent P buf) =
      ⟨false, firstStored unset store field headers⟩ := by
  obtain ⟨urls, bodies, calls, hcalls, hexecute⟩ := hreports
  have hurls : ∀ c ∈ urls.map Callback.url, ∀ s : Slot β,
      Slot.onCallback unset store field s c = s := by
    intro c hc s
    obtain ⟨url, _, rfl⟩ := List.mem_map.mp hc
    rfl
  have hrest : ∀ c ∈ Callback.headersComplete :: (bodies.map .body ++ [.messageComplete]),
      ∀ s : Slot β, Slot.onCallback unset store field s c = s := by
    intro c hc s
    simp only [List.mem_cons, List.mem_append, List.mem_map, List.not_mem_nil, or_false] at hc
    rcases hc with rfl | ⟨body, _, rfl⟩ | rfl
    all_goals rfl
  rw [CHttpParserWrapper.parseHttpContent, hexecute]
  rw [← List.foldl_hom member (fun w c => (hmember w c).symm), hreset, List.foldl_append,
    foldl_of_forall hurls, List.foldl_append, foldl_headerCalls hfield hcalls,
    foldl_of_forall hrest]

end Slots

/-! ## What a request says -/

/-- The first header of exactly this name, in any letter case, whose value is not empty. -/
def firstNamed (field : List UInt8) (headers : List Header) : Option Header :=
  headers.find? fun h => h.named field && h.value ≠ []

/-- The first header with a value whose name begins with the field's. -/
def firstBeginning (field : List UInt8) (headers : List Header) : Option Header :=
  headers.find? fun h => h.begins field && h.value ≠ []

def textOf (field : List UInt8) (headers : List Header) : List UInt8 :=
  ((firstNamed field headers).map Header.value).getD []

def lengthOf (headers : List Header) : Int :=
  ((firstNamed CHttpParserWrapper.contentLenField headers).map
    fun h => (CString.cStr h.value).atoll).getD 0

/-- Every getter returns what the first header of its name says. -/
structure ReturnsFields (w : CHttpParserWrapper) (headers : List Header) : Prop where
  contentType : w.getContentType =
    CString.cStr (textOf CHttpParserWrapper.contentTypeField headers)
  host : w.getHost = CString.cStr (textOf CHttpParserWrapper.hostField headers)
  referer : w.getReferer =
    CString.cStr ((textOf CHttpParserWrapper.refererField headers).take 32)
  userAgent : w.getUserAgent = CString.cStr (textOf CHttpParserWrapper.userAgentField headers)
  forwardIp : w.getForwardIP = CString.cStr (textOf CHttpParserWrapper.forwardIpField headers)
  contentLen : (w.getContentLen : Int) = lengthOf headers

/-- The first header with a value whose name begins with the field's has what the first one
of exactly that name has. -/
def Unshadowed (field : List UInt8) (cut : List UInt8 → List UInt8) (headers : List Header) :
    Prop :=
  ∀ h, firstBeginning field headers = some h →
    ∃ named, firstNamed field headers = some named ∧ cut named.value = cut h.value

/-- The same for the first length that is not zero; without one no length is said, or zero. -/
def LengthUnshadowed (headers : List Header) : Prop :=
  match headers.find? fun h =>
      h.begins CHttpParserWrapper.contentLenField && setContentLen 0 h.value ≠ 0 with
  | some h => ∃ named, firstNamed CHttpParserWrapper.contentLenField headers = some named ∧
      (CString.cStr named.value).atoll = setContentLen 0 h.value
  | none => ∀ named, firstNamed CHttpParserWrapper.contentLenField headers = some named →
      (CString.cStr named.value).atoll = 0

section Fields

variable {field : List UInt8} {headers : List Header} {cut : List UInt8 → List UInt8}
  {store : List UInt8 → List UInt8 → List UInt8}

theorem begins_of_named {h : Header} (hnamed : h.named field = true) : h.begins field = true := by
  have hname : h.name.map toLower = field.map toLower := by simpa [Header.named] using hnamed
  have hlength : h.name.length = field.length := by simpa using congrArg List.length hname
  rw [Header.begins, beginsWith, ← hlength, List.take_length]
  exact decide_eq_true hname

/-- Where no header begins with the name there is none of the name. -/
theorem firstNamed_eq_none (h : firstBeginning field headers = none) :
    firstNamed field headers = none := by
  rw [firstBeginning, List.find?_eq_none] at h
  rw [firstNamed, List.find?_eq_none]
  intro header hmem hnamed
  refine h header hmem ?_
  rw [Bool.and_eq_true] at hnamed ⊢
  exact ⟨begins_of_named hnamed.1, hnamed.2⟩

theorem firstStored_eq (hcut : ∀ v, store [] v = cut v) (hempty : ∀ v, cut v = [] ↔ v = []) :
    firstStored [] store field headers = ((firstBeginning field headers).map (cut ·.value)).getD [] := by
  have hsame : (fun h : Header => h.begins field && store [] h.value ≠ []) =
      fun h => h.begins field && h.value ≠ [] := by
    funext h
    simp [hcut, hempty]
  rw [firstStored, hsame, firstBeginning]
  cases headers.find? fun h => h.begins field && h.value ≠ [] with
  | none => rfl
  | some h => simp [hcut]

theorem text_iff (field : List UInt8) (headers : List Header) (cut : List UInt8 → List UInt8)
    (store : List UInt8 → List UInt8 → List UInt8) (hcut : ∀ v, store [] v = cut v) (hempty : ∀ v, cut v = [] ↔ v = [])
    (hsubset : ∀ v, cut v ⊆ v) :
    CString.cStr (firstStored [] store field headers) =
        CString.cStr (cut (textOf field headers)) ↔
      Unshadowed field cut headers := by
  have hbytes (h : Header) : (CString.cStr (cut h.value)).bytes = cut h.value :=
    CString.bytes_cStr fun hzero => h.value_nul (hsubset _ hzero)
  rw [firstStored_eq hcut hempty, textOf, Unshadowed]
  cases hfirst : firstBeginning field headers with
  | none => simp [firstNamed_eq_none hfirst, (hempty []).mpr rfl]
  | some h =>
      have hvalue : cut h.value ≠ [] := by
        have hfound := List.find?_some hfirst
        simp only [Bool.and_eq_true, decide_eq_true_eq] at hfound
        exact fun hnil => hfound.2 ((hempty h.value).mp hnil)
      constructor
      · intro heq h' hh'
        obtain rfl := Option.some.inj hh'
        have hsame := congrArg CString.bytes heq
        simp only [Option.map_some, Option.getD_some, hbytes] at hsame
        cases hnamed : firstNamed field headers with
        | none =>
            rw [hnamed] at hsame
            exact absurd (hsame.trans (by simp [(hempty []).mpr rfl, CString.cStr])) hvalue
        | some named =>
            simp only [hnamed, Option.map_some, Option.getD_some, hbytes] at hsame
            exact ⟨named, rfl, hsame.symm⟩
      · intro hunshadowed
        obtain ⟨named, hnamed, hsame⟩ := hunshadowed h rfl
        simp [hnamed, hsame]

theorem length_iff (headers : List Header) :
    ((firstStored (0 : Nat) setContentLen CHttpParserWrapper.contentLenField headers : Nat) : Int) =
        lengthOf headers ↔
      LengthUnshadowed headers := by
  rw [firstStored, LengthUnshadowed, lengthOf]
  cases hfirst : headers.find? fun h => h.begins CHttpParserWrapper.contentLenField &&
      setContentLen 0 h.value ≠ 0 with
  | none =>
      cases firstNamed CHttpParserWrapper.contentLenField headers with
      | none => simp
      | some named => simp [eq_comm]
  | some h =>
      have hset : setContentLen 0 h.value ≠ 0 := by
        have hfound := List.find?_some hfirst
        simp only [Bool.and_eq_true, decide_eq_true_eq] at hfound
        exact hfound.2
      cases firstNamed CHttpParserWrapper.contentLenField headers with
      | none => simp [hset]
      | some named => simp [eq_comm]

end Fields

/-- Behind a complete request the getters return what the headers say exactly where no longer
name comes first with another value. -/
theorem returnsFields_iff {P : HttpParser} {buf : List UInt8} {headers : List Header}
    (hreports : Reports P buf headers) :
    ReturnsFields (CHttpParserWrapper.parseHttpContent P buf) headers ↔
      Unshadowed CHttpParserWrapper.contentTypeField id headers ∧
        Unshadowed CHttpParserWrapper.hostField id headers ∧
        Unshadowed CHttpParserWrapper.refererField (List.take 32) headers ∧
        Unshadowed CHttpParserWrapper.userAgentField id headers ∧
        Unshadowed CHttpParserWrapper.forwardIpField id headers ∧
        LengthUnshadowed headers := by
  have hcolon : ∀ field ∈ [CHttpParserWrapper.contentTypeField, CHttpParserWrapper.hostField,
      CHttpParserWrapper.refererField, CHttpParserWrapper.userAgentField,
      CHttpParserWrapper.forwardIpField, CHttpParserWrapper.contentLenField], 58 ∉ field := by
    decide +kernel
  have hid (v : List UInt8) : id v = [] ↔ v = [] := Iff.rfl
  have htake (v : List UInt8) : v.take 32 = [] ↔ v = [] := by simp
  have hcontentType := member_of_reports [] appendValue CHttpParserWrapper.contentTypeField
    (hcolon _ (by simp)) (·.contentType) rfl (fun w c => by cases c <;> rfl) hreports
  have hhost := member_of_reports [] appendValue CHttpParserWrapper.hostField
    (hcolon _ (by simp)) (·.host) rfl (fun w c => by cases c <;> rfl) hreports
  have hreferer := member_of_reports [] appendReferer CHttpParserWrapper.refererField
    (hcolon _ (by simp)) (·.referer) rfl (fun w c => by cases c <;> rfl) hreports
  have huserAgent := member_of_reports [] appendValue CHttpParserWrapper.userAgentField
    (hcolon _ (by simp)) (·.userAgent) rfl (fun w c => by cases c <;> rfl) hreports
  have hforwardIp := member_of_reports [] appendValue CHttpParserWrapper.forwardIpField
    (hcolon _ (by simp)) (·.forwardIp) rfl (fun w c => by cases c <;> rfl) hreports
  have hcontentLen := member_of_reports 0 setContentLen CHttpParserWrapper.contentLenField
    (hcolon _ (by simp)) (·.contentLen) rfl (fun w c => by cases c <;> rfl) hreports
  have htext (field : List UInt8) := text_iff field headers id appendValue (fun _ => rfl) hid
    fun v => List.Subset.refl v
  have hrefererText := text_iff CHttpParserWrapper.refererField headers (List.take 32)
    appendReferer (fun _ => rfl) htake (List.take_subset 32)
  constructor
  · rintro ⟨hc, hh, hr, hu, hf, hl⟩
    rw [CHttpParserWrapper.getContentType, hcontentType] at hc
    rw [CHttpParserWrapper.getHost, hhost] at hh
    rw [CHttpParserWrapper.getReferer, hreferer] at hr
    rw [CHttpParserWrapper.getUserAgent, huserAgent] at hu
    rw [CHttpParserWrapper.getForwardIP, hforwardIp] at hf
    rw [CHttpParserWrapper.getContentLen, hcontentLen] at hl
    exact ⟨(htext _).mp hc, (htext _).mp hh, hrefererText.mp hr, (htext _).mp hu,
      (htext _).mp hf, (length_iff headers).mp hl⟩
  · rintro ⟨hc, hh, hr, hu, hf, hl⟩
    constructor
    · rw [CHttpParserWrapper.getContentType, hcontentType]
      exact (htext _).mpr hc
    · rw [CHttpParserWrapper.getHost, hhost]
      exact (htext _).mpr hh
    · rw [CHttpParserWrapper.getReferer, hreferer]
      exact hrefererText.mpr hr
    · rw [CHttpParserWrapper.getUserAgent, huserAgent]
      exact (htext _).mpr hu
    · rw [CHttpParserWrapper.getForwardIP, hforwardIp]
      exact (htext _).mpr hf
    · rw [CHttpParserWrapper.getContentLen, hcontentLen]
      exact (length_iff headers).mpr hl

/-! ## A longer name -/

def hostileBuf : List UInt8 :=
  (CString.lit "GET / HTTP/1.1\r\nHostile: a\r\nHost: b\r\nContent-Length: 0\r\n\r\n").bytes

theorem nul_notMem_hostileValue : (0 : UInt8) ∉ [97] := by decide

def hostileHeaders : List Header :=
  [⟨(CString.lit "Hostile").bytes, [97], by decide +kernel, nul_notMem_hostileValue⟩,
    ⟨(CString.lit "Host").bytes, [98], by decide +kernel, by decide⟩,
    ⟨(CString.lit "Content-Length").bytes, [48], by decide +kernel, by decide⟩]

theorem reports_hostile : Reports bytewise hostileBuf hostileHeaders := by
  refine ⟨[[47]], [[]], _, .cons _ [32, 97] (.cons _ [32, 98] (.cons _ [32, 48] .nil)), ?_⟩
  change (hostileBuf.foldl bytewiseStep ([], [])).2 = _
  decide +kernel

theorem returnsFields_iff_hostile :
    ReturnsFields (CHttpParserWrapper.parseHttpContent bytewise hostileBuf) hostileHeaders ↔
      Unshadowed CHttpParserWrapper.contentTypeField id hostileHeaders ∧
        Unshadowed CHttpParserWrapper.hostField id hostileHeaders ∧
        Unshadowed CHttpParserWrapper.refererField (List.take 32) hostileHeaders ∧
        Unshadowed CHttpParserWrapper.userAgentField id hostileHeaders ∧
        Unshadowed CHttpParserWrapper.forwardIpField id hostileHeaders ∧
        LengthUnshadowed hostileHeaders :=
  returnsFields_iff reports_hostile

/-- The value of a header `Hostile` is taken for the host. -/
theorem not_returnsFields_hostile :
    Reports bytewise hostileBuf hostileHeaders ∧
      ¬ ReturnsFields (CHttpParserWrapper.parseHttpContent bytewise hostileBuf)
        hostileHeaders := by
  refine ⟨reports_hostile, fun h => ?_⟩
  have hhost := h.host
  revert hhost
  decide +kernel

end Http
end TcMuzi
