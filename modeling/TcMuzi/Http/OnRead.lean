import TcMuzi.Base.TcCommon
import TcMuzi.Http.Parser

/-!
# `TCServer::OnRead`

`CHttpParserWrapper::ParseHttpContent` starts the parser and its own members anew for every
buffer, appends what the callbacks give, and remembers that some message was completed.
`OnRead` dispatches at most one request for a buffer.  So a request is served exactly when
it comes in a buffer of its own.
-/

namespace TcMuzi
namespace Http

open Base Lib

/-! ## `CHttpParserWrapper` -/

/-- The members that `OnRead` uses. -/
structure HttpParserWrapper where
  readAll : Bool
  readContentType : Bool
  url : List UInt8
  bodyContent : List UInt8
  contentType : List UInt8

namespace HttpParserWrapper

/-- The members as `ParseHttpContent` sets them. -/
def reset : HttpParserWrapper := ⟨false, false, [], [], []⟩

/-- `strncasecmp(at, "Content-Type", 12) == 0`. -/
def isContentType (at_ : List UInt8) : Bool :=
  (at_.take 12).map toLower = (CString.lit "content-type").bytes

/-- `OnHeaderField`. -/
def onHeaderField (w : HttpParserWrapper) (at_ : List UInt8) : HttpParserWrapper :=
  if w.contentType = [] ∧ isContentType at_ then { w with readContentType := true } else w

/-- `OnHeaderValue`. -/
def onHeaderValue (w : HttpParserWrapper) (part : List UInt8) : HttpParserWrapper :=
  if w.readContentType then
    { w with contentType := w.contentType ++ part, readContentType := false }
  else w

/-- The callbacks that `ParseHttpContent` registers. -/
def onCallback (w : HttpParserWrapper) : Callback → HttpParserWrapper
  | .url part => { w with url := w.url ++ part }
  | .headerField at_ => w.onHeaderField at_
  | .headerValue part => w.onHeaderValue part
  | .headersComplete => w
  | .body part => { w with bodyContent := w.bodyContent ++ part }
  | .messageComplete => { w with readAll := true }

/-- `ParseHttpContent`. -/
def parseHttpContent (P : HttpParser) (buf : List UInt8) : HttpParserWrapper :=
  (P.execute P.init buf).2.foldl onCallback reset

end HttpParserWrapper

/-! ## Dispatching -/

inductive Route
  | register
  | login
  | myfiles
  | md5
  | upload
  | dealfile
  | sharefiles
  | sharepic
  | dealsharefile
deriving DecidableEq

/-- `strncmp(url, prefix, n) == 0`. -/
def startsAs (url : CString) (text : String) (n : Nat) : Bool :=
  url.bytes.take n = (CString.lit text).bytes.take n

/-- The handler for a URL.  `/api/myfiles` is compared in ten bytes only. -/
def routeOf (url : CString) : Option Route :=
  if startsAs url "/api/reg" 8 then some .register
  else if startsAs url "/api/login" 10 then some .login
  else if startsAs url "/api/myfiles" 10 then some .myfiles
  else if startsAs url "/api/md5" 8 then some .md5
  else if startsAs url "/api/upload" 11 then some .upload
  else if startsAs url "/api/dealfile" 13 then some .dealfile
  else if startsAs url "/api/sharefiles" 15 then some .sharefiles
  else if startsAs url "/api/sharepic" 13 then some .sharepic
  else if startsAs url "/api/dealsharefile" 18 then some .dealsharefile
  else none

/-- The separator of an upload's parts. -/
def boundaryOf (contentType : List UInt8) : List UInt8 :=
  let ct := (CString.cStr contentType).bytes
  match strstr (CString.lit "boundary=").bytes ct with
  | some found => 45 :: found.drop 9
  | none => [45]

/-- The handler that is bound to its arguments. -/
structure Task where
  route : Route
  url : CString
  content : CString
  -- used by uploads only
  boundary : List UInt8
deriving DecidableEq

inductive Outcome
  -- ForceClose: no further buffer is read
  | close
  -- no complete message
  | wait
  | run (task : Task)
deriving DecidableEq

/-- The buffer has been emptied by the previous call, so it holds what has arrived since.
`GetUrl` and `GetBodyContent` are C strings. -/
def onRead (P : HttpParser) (buf : List UInt8) : Outcome :=
  if 4096 < buf.length then .close
  else
    let parser := HttpParserWrapper.parseHttpContent P buf
    if parser.readAll then
      let url := CString.cStr parser.url
      let content := CString.cStr parser.bodyContent
      match routeOf url with
      | some route => .run ⟨route, url, content, boundaryOf parser.contentType⟩
      | none => .close
    else .wait

/-- What a connection dispatches while it reads. -/
def dispatches (P : HttpParser) : List (List UInt8) → List Task
  | [] => []
  | buf :: bufs =>
      match onRead P buf with
      | .close => []
      | .wait => dispatches P bufs
      | .run task => task :: dispatches P bufs

def Task.pair (task : Task) : List UInt8 × List UInt8 := (task.url.bytes, task.content.bytes)

/-! ## What the wrapper collects -/

namespace HttpParserWrapper

/-- The URLs and the bodies of all messages, one behind the other. -/
structure Collects (w : HttpParserWrapper) (a : Assembly) : Prop where
  url : w.url = (a.done.map Prod.fst).flatten ++ a.url
  body : w.bodyContent = (a.done.map Prod.snd).flatten ++ a.body
  readAll : w.readAll = true ↔ a.done ≠ []

theorem Collects.onHeaderField {w : HttpParserWrapper} {a : Assembly} (h : w.Collects a)
    (at_ : List UInt8) : (w.onHeaderField at_).Collects a := by
  unfold HttpParserWrapper.onHeaderField
  split
  · exact ⟨h.url, h.body, h.readAll⟩
  · exact h

theorem Collects.onHeaderValue {w : HttpParserWrapper} {a : Assembly} (h : w.Collects a)
    (part : List UInt8) : (w.onHeaderValue part).Collects a := by
  unfold HttpParserWrapper.onHeaderValue
  split
  · exact ⟨h.url, h.body, h.readAll⟩
  · exact h

theorem Collects.onCallback {w : HttpParserWrapper} {a : Assembly} (h : w.Collects a)
    (c : Callback) : (w.onCallback c).Collects (a.next c) := by
  cases c with
  | url part =>
      refine ⟨?_, h.body, h.readAll⟩
      show w.url ++ part = (a.done.map Prod.fst).flatten ++ (a.url ++ part)
      rw [h.url, List.append_assoc]
  | headerField at_ => exact h.onHeaderField at_
  | headerValue part => exact h.onHeaderValue part
  | headersComplete => exact h
  | body part =>
      refine ⟨h.url, ?_, h.readAll⟩
      show w.bodyContent ++ part = (a.done.map Prod.snd).flatten ++ (a.body ++ part)
      rw [h.body, List.append_assoc]
  | messageComplete =>
      refine ⟨?_, ?_, ?_⟩
      · show w.url = _
        simp [h.url, Assembly.next]
      · show w.bodyContent = _
        simp [h.body, Assembly.next]
      · simp [HttpParserWrapper.onCallback, Assembly.next]

theorem Collects.foldl {w : HttpParserWrapper} {a : Assembly} (h : w.Collects a)
    (callbacks : List Callback) :
    (callbacks.foldl HttpParserWrapper.onCallback w).Collects
      (callbacks.foldl Assembly.next a) := by
  induction callbacks generalizing w a with
  | nil => exact h
  | cons c callbacks ih => exact ih (h.onCallback c)

theorem collects_reset : reset.Collects .start := ⟨rfl, rfl, by simp [reset, Assembly.start]⟩

/-- Without a completed message nothing is ready. -/
theorem readAll_foldl {w : HttpParserWrapper} {callbacks : List Callback}
    (h : .messageComplete ∉ callbacks) : (callbacks.foldl onCallback w).readAll = w.readAll := by
  induction callbacks generalizing w with
  | nil => rfl
  | cons c callbacks ih =>
      rw [List.mem_cons, not_or] at h
      rw [List.foldl_cons, ih h.2]
      cases c with
      | messageComplete => exact absurd rfl h.1
      | headerField at_ =>
          show (w.onHeaderField at_).readAll = _
          unfold onHeaderField
          split <;> rfl
      | headerValue part =>
          show (w.onHeaderValue part).readAll = _
          unfold onHeaderValue
          split <;> rfl
      | _ => rfl

end HttpParserWrapper

theorem onRead_eq_wait {P : HttpParser} {buf : List UInt8}
    (h : .messageComplete ∉ (P.execute P.init buf).2) (hfits : buf.length ≤ 4096) :
    onRead P buf = .wait := by
  rw [onRead, if_neg (by omega)]
  dsimp only
  rw [if_neg]
  rw [HttpParserWrapper.parseHttpContent, HttpParserWrapper.readAll_foldl h]
  exact Bool.false_ne_true

/-- Every buffer is dispatched at most once. -/
theorem length_dispatches_le (P : HttpParser) (bufs : List (List UInt8)) :
    (dispatches P bufs).length ≤ bufs.length := by
  induction bufs with
  | nil => exact Nat.le_refl _
  | cons buf bufs ih =>
      rw [dispatches]
      cases onRead P buf with
      | close => exact Nat.zero_le _
      | wait => exact ih.trans (Nat.le_succ _)
      | run task => exact Nat.succ_le_succ ih

theorem length_le_flatten {α : Type} {groups : List (List α)} (h : [] ∉ groups) :
    groups.length ≤ groups.flatten.length := by
  induction groups with
  | nil => exact Nat.le_refl _
  | cons group groups ih =>
      have hpos : 0 < group.length :=
        List.length_pos_iff.mpr fun heq => h (heq ▸ List.mem_cons_self)
      have hle := ih fun hmem => h (List.mem_cons_of_mem group hmem)
      rw [List.length_cons, List.flatten_cons, List.length_append]
      omega

/-! ## Buffers of whole requests -/

/-- A request that is dispatched when it comes alone: it fits, a handler is found, and its
body has no NUL. -/
structure Served (r : HttpRequest) : Prop where
  fits : r.bytes.length ≤ 4096
  routed : routeOf (CString.cStr r.url) ≠ none
  nulFree : (0 : UInt8) ∉ r.body

theorem nulFree_url (r : HttpRequest) : (0 : UInt8) ∉ r.url :=
  HttpRequest.not_mem_url (by decide)

section Correct

variable {P : HttpParser} (hP : P.Correct)

include hP

/-- A buffer of requests leaves all their URLs and bodies together. -/
theorem parseHttpContent_stream (group : List HttpRequest) :
    let parser := HttpParserWrapper.parseHttpContent P (HttpRequest.stream group)
    parser.url = (group.map (·.url)).flatten ∧
      parser.bodyContent = (group.map (·.body)).flatten ∧ (parser.readAll = true ↔ group ≠ []) := by
  have hcollects :=
    HttpParserWrapper.collects_reset.foldl (P.execute P.init (HttpRequest.stream group)).2
  rw [hP.spells group] at hcollects
  obtain ⟨hurl, hbody, hall⟩ := hcollects
  refine ⟨?_, ?_, ?_⟩
  · rw [HttpParserWrapper.parseHttpContent, hurl]
    simp [HttpRequest.pair, Function.comp_def]
  · rw [HttpParserWrapper.parseHttpContent, hbody]
    simp [HttpRequest.pair, Function.comp_def]
  · rw [HttpParserWrapper.parseHttpContent, hall]
    simp

/-- A buffer of requests is dispatched once or closes the connection. -/
theorem onRead_stream {group : List HttpRequest} (hne : group ≠ []) :
    onRead P (HttpRequest.stream group) = .close ∨
      ∃ task, onRead P (HttpRequest.stream group) = .run task ∧
        task.url = CString.cStr (group.map (·.url)).flatten ∧
        task.content = CString.cStr (group.map (·.body)).flatten ∧
        routeOf task.url ≠ none ∧ (HttpRequest.stream group).length ≤ 4096 := by
  obtain ⟨hurl, hbody, hall⟩ := parseHttpContent_stream hP group
  unfold onRead
  by_cases hlong : 4096 < (HttpRequest.stream group).length
  · exact Or.inl (if_pos hlong)
  · rw [if_neg hlong]
    dsimp only
    rw [if_pos (hall.mpr hne), hurl, hbody]
    cases hroute : routeOf (CString.cStr (group.map (·.url)).flatten) with
    | none => exact Or.inl rfl
    | some route =>
        refine Or.inr ⟨_, rfl, rfl, rfl, ?_, not_lt.mp hlong⟩
        rw [hroute]
        exact Option.some_ne_none route

/-- A request that comes alone is dispatched as it is exactly when it is served. -/
theorem onRead_single (r : HttpRequest) :
    (∃ task, onRead P r.bytes = .run task ∧ task.pair = r.pair) ↔ Served r := by
  have hone : HttpRequest.stream [r] = r.bytes := List.append_nil _
  have hcases := onRead_stream hP (List.cons_ne_nil r [])
  rw [hone] at hcases
  simp only [List.map_cons, List.map_nil, List.flatten_cons, List.flatten_nil,
    List.append_nil] at hcases
  constructor
  · rintro ⟨task, hrun, hpair⟩
    rcases hcases with hclose | ⟨task', hrun', hurl, hcontent, hroute, hfits⟩
    · rw [hclose] at hrun
      cases hrun
    · obtain rfl : task' = task := by
        rw [hrun'] at hrun
        exact Outcome.run.inj hrun
      refine ⟨hfits, hurl ▸ hroute, CString.bytes_cStr_eq_iff.mp ?_⟩
      rw [← hcontent]
      exact (Prod.mk.inj hpair).2
  · rintro ⟨hfits, hrouted, hnul⟩
    obtain ⟨hurl, hbody, hall⟩ := parseHttpContent_stream hP [r]
    rw [hone] at hurl hbody hall
    obtain ⟨route, hroute⟩ := Option.ne_none_iff_exists'.mp hrouted
    refine ⟨⟨route, CString.cStr r.url, CString.cStr r.body,
      boundaryOf (HttpParserWrapper.parseHttpContent P r.bytes).contentType⟩, ?_, ?_⟩
    · unfold onRead
      rw [if_neg (by omega)]
      dsimp only
      rw [if_pos (hall.mpr (List.cons_ne_nil r [])), hurl, hbody]
      simp only [List.map_cons, List.map_nil, List.flatten_cons, List.flatten_nil,
        List.append_nil, hroute]
    · exact Prod.ext (CString.bytes_cStr (nulFree_url r))
        (CString.bytes_cStr hnul)

/-- Among buffers of whole requests it takes one request in every buffer. -/
theorem pair_dispatches_iff {groups : List (List HttpRequest)} (hne : [] ∉ groups) :
    (dispatches P (groups.map HttpRequest.stream)).map Task.pair =
        groups.flatten.map HttpRequest.pair ↔
      ∀ group ∈ groups, ∃ r, group = [r] ∧ Served r := by
  induction groups with
  | nil => simp [dispatches]
  | cons group groups ih =>
      have hgroup : group ≠ [] := fun heq => hne (heq ▸ List.mem_cons_self)
      have hrest : [] ∉ groups := fun hmem => hne (List.mem_cons_of_mem group hmem)
      rw [List.map_cons, dispatches, List.flatten_cons, List.map_append, List.forall_mem_cons]
      rcases onRead_stream hP hgroup with hclose | ⟨task, hrun, -⟩
      · -- nothing is dispatched any more
        rw [hclose]
        constructor
        · intro h
          have hnil := (List.append_eq_nil_iff.mp h.symm).1
          exact absurd (List.map_eq_nil_iff.mp hnil) hgroup
        · rintro ⟨⟨r, rfl, hserved⟩, -⟩
          obtain ⟨task, hrun, -⟩ := (onRead_single hP r).mpr hserved
          rw [show HttpRequest.stream [r] = r.bytes from List.append_nil _, hrun] at hclose
          cases hclose
      · rw [hrun]
        dsimp only
        constructor
        · intro h
          -- one task for the group and at most one for each later group
          have hlength := congrArg List.length h
          have hle := length_dispatches_le P (groups.map HttpRequest.stream)
          have hflat := length_le_flatten hrest
          have hpos := List.length_pos_iff.mpr hgroup
          simp only [List.map_cons, List.length_cons, List.length_append, List.length_map]
            at hlength hle
          obtain ⟨r, rfl⟩ := List.length_eq_one_iff.mp (show group.length = 1 by omega)
          rw [List.map_cons, List.map_cons, List.map_nil, List.singleton_append] at h
          obtain ⟨hpair, htail⟩ := List.cons.inj h
          rw [show HttpRequest.stream [r] = r.bytes from List.append_nil _] at hrun
          exact ⟨⟨r, rfl, (onRead_single hP r).mp ⟨task, hrun, hpair⟩⟩, (ih hrest).mp htail⟩
        · rintro ⟨⟨r, rfl, hserved⟩, htail⟩
          obtain ⟨task', hrun', hpair⟩ := (onRead_single hP r).mpr hserved
          rw [show HttpRequest.stream [r] = r.bytes from List.append_nil _, hrun'] at hrun
          obtain rfl := Outcome.run.inj hrun
          rw [List.map_cons, hpair, (ih hrest).mpr htail]
          rfl

/-- A buffer of one byte completes nothing. -/
theorem dispatches_singletons (bytes : List UInt8) :
    dispatches P (bytes.map fun b => [b]) = [] := by
  induction bytes with
  | nil => rfl
  | cons b bytes ih =>
      have hcomplete : .messageComplete ∉ (P.execute P.init [b]).2 := by
        intro hmem
        have hcount := hP.complete [b] hmem
        have hle : [b].count 10 ≤ 1 := List.count_le_length
        omega
      have hwait := onRead_eq_wait hcomplete (by simp)
      rw [List.map_cons, dispatches, hwait]
      exact ih

end Correct

/-! ## Streams and cuts -/

/-- A stream of requests in the buffers in which it arrives. -/
def Cut (rs : List HttpRequest) (bufs : List (List UInt8)) : Prop :=
  bufs.flatten = HttpRequest.stream rs ∧ [] ∉ bufs

/-- Exactly the requests of the stream are dispatched, in their order. -/
def Refines (P : HttpParser) (rs : List HttpRequest) (bufs : List (List UInt8)) : Prop :=
  (dispatches P bufs).map Task.pair = rs.map HttpRequest.pair

theorem flatten_map_singleton (bytes : List UInt8) : (bytes.map fun b => [b]).flatten = bytes := by
  induction bytes with
  | nil => rfl
  | cons b bytes ih =>
      rw [List.map_cons, List.flatten_cons, ih]
      rfl

theorem flatten_map_stream (groups : List (List HttpRequest)) :
    (groups.map HttpRequest.stream).flatten = HttpRequest.stream groups.flatten := by
  induction groups with
  | nil => rfl
  | cons group groups ih =>
      rw [List.map_cons, List.flatten_cons, ih, List.flatten_cons]
      exact List.flatMap_append.symm

theorem forall_singleton_iff {α : Type} {p : α → Prop} (groups : List (List α)) :
    (∀ group ∈ groups, ∃ a, group = [a] ∧ p a) ↔
      groups = groups.flatten.map (fun a => [a]) ∧ ∀ a ∈ groups.flatten, p a := by
  constructor
  · intro h
    induction groups with
    | nil => simp
    | cons group groups ih =>
        obtain ⟨⟨a, rfl, ha⟩, hrest⟩ := List.forall_mem_cons.mp h
        obtain ⟨heq, hall⟩ := ih hrest
        refine ⟨?_, ?_⟩
        · rw [List.flatten_cons, List.singleton_append, List.map_cons, ← heq]
        · rw [List.flatten_cons, List.singleton_append]
          exact List.forall_mem_cons.mpr ⟨ha, hall⟩
  · rintro ⟨heq, hall⟩ group hgroup
    rw [heq] at hgroup
    obtain ⟨a, ha, rfl⟩ := List.mem_map.mp hgroup
    exact ⟨a, rfl, hall a ha⟩

theorem bytes_ne_nil (r : HttpRequest) : r.bytes ≠ [] := by simp [HttpRequest.bytes]

theorem stream_ne_nil {rs : List HttpRequest} (h : rs ≠ []) : HttpRequest.stream rs ≠ [] := by
  cases rs with
  | nil => exact absurd rfl h
  | cons r rs =>
      intro hnil
      rw [HttpRequest.stream, List.flatMap_cons, List.append_eq_nil_iff] at hnil
      exact bytes_ne_nil r hnil.1

/-- No stream is dispatched faithfully in every cut.  Cut between requests, it is dispatched
faithfully exactly when each request is served and comes in a buffer of its own. -/
theorem refines_iff {P : HttpParser} (hP : P.Correct) :
    (∀ rs, rs ≠ [] → ¬ ∀ bufs, Cut rs bufs → Refines P rs bufs) ∧
      ∀ groups : List (List HttpRequest), [] ∉ groups →
        Cut groups.flatten (groups.map HttpRequest.stream) ∧
          (Refines P groups.flatten (groups.map HttpRequest.stream) ↔
            groups = groups.flatten.map (fun r => [r]) ∧ ∀ r ∈ groups.flatten, Served r) := by
  refine ⟨?_, ?_⟩
  · intro rs hne h
    have hcut : Cut rs ((HttpRequest.stream rs).map fun b => [b]) :=
      ⟨flatten_map_singleton _, by simp⟩
    have hrefines := h _ hcut
    rw [Refines, dispatches_singletons hP, List.map_nil] at hrefines
    exact hne (List.map_eq_nil_iff.mp hrefines.symm)
  · intro groups hne
    refine ⟨⟨flatten_map_stream groups, ?_⟩, ?_⟩
    · intro hmem
      obtain ⟨group, hgroup, hnil⟩ := List.mem_map.mp hmem
      have hgne : group ≠ [] := fun heq => hne (heq ▸ hgroup)
      exact stream_ne_nil hgne hnil
    · rw [Refines, pair_dispatches_iff hP hne]
      exact forall_singleton_iff groups

/-- A login with a short body. -/
def login : HttpRequest where
  method := (CString.lit "POST").bytes
  url := (CString.lit "/api/login").bytes
  headers := [(CString.lit "Content-Length: 2").bytes]
  body := (CString.lit "\x7b\x7d").bytes
  method_mem := by decide
  url_slash := by decide
  url_visible := by decide +kernel
  isField := by
    intro line hline hstart
    rw [List.mem_singleton.mp hline] at hstart
    exact absurd (by decide) hstart
  contentLength_eq := by decide

theorem served_login : Served login := ⟨by decide, by decide, by decide⟩

theorem refines_iff_login : bytewise.Correct ∧ Refines bytewise [login] [login.bytes] := by
  refine ⟨bytewise_correct, ?_⟩
  have h := (refines_iff bytewise_correct).2 [[login]] (by simp)
  have hrefines := h.2.mpr ⟨rfl, fun r hr => List.mem_singleton.mp hr ▸ served_login⟩
  rwa [List.map_singleton, HttpRequest.stream, List.flatMap_singleton] at hrefines

/-- The last byte in a buffer of its own. -/
theorem not_refines_login :
    ¬ ∀ P : HttpParser, P.Correct → ∀ rs, rs ≠ [] → ∀ bufs, Cut rs bufs → Refines P rs bufs := by
  intro h
  have hsplit : login.bytes.dropLast ++ [125] = login.bytes := by decide
  have hfront : onRead bytewise login.bytes.dropLast = .wait := by
    refine onRead_eq_wait ?_ (by decide)
    show _ ∉ (login.bytes.dropLast.foldl bytewiseStep ([], [])).2
    rw [foldl_bytewiseStep_front hsplit (by simp)]
    exact List.not_mem_nil
  have hback : onRead bytewise [125] = .wait := onRead_eq_wait (by decide) (by decide)
  have hcut : Cut [login] [login.bytes.dropLast, [125]] := ⟨hsplit, by decide⟩
  have hrefines := h bytewise bytewise_correct [login] (by simp) _ hcut
  rw [Refines, dispatches, hfront, dispatches, hback, dispatches] at hrefines
  cases hrefines

end Http
end TcMuzi
