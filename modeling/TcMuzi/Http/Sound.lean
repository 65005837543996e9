import TcMuzi.Http.Execute

/-!
# What holds between two bytes

`Parser.Expects` says for each state what the `case` of that state relies on: an `assert` of
the source, or a string of `method_strings` that is long enough.  Every turn keeps it, so no
turn is stuck.
-/

namespace TcMuzi
namespace Http
namespace Machine

open Base

/-! ## The invariant -/

/-- The states of the matcher while a name is read. -/
def HeaderState.ofName : HeaderState → Bool
  | .matchingTransferEncodingChunked | .matchingConnectionKeepAlive | .matchingConnectionClose
  | .transferEncodingChunked | .connectionKeepAlive | .connectionClose => false
  | _ => true

/-- The states of the matcher behind the first byte of a value. -/
def HeaderState.ofValue : HeaderState → Bool
  | .connection | .transferEncoding => false
  | _ => true

/-- What the next turn relies on; it is run with the byte counted. -/
def Parser.Expects (s : Parser) : Prop :=
  match s.state with
  | .reqMethod => s.index ≤ (methodString s.method).length
  | .headerField => s.headerState.ofName = true
  | .headerValue => s.headerState.ofValue = true
  | .bodyIdentity => s.contentLength ≠ 0 ∧ s.contentLength ≠ ullongMax
  | .chunkSizeStart => s.nread = 0 ∧ s.flags.chunked = true
  | .chunkSize => s.flags.chunked = true ∧ s.contentLength ≠ ullongMax
  | .chunkParameters => s.flags.chunked = true ∧ s.contentLength ≠ ullongMax
  | .chunkSizeAlmostDone => s.flags.chunked = true ∧ s.contentLength ≠ ullongMax
  | .chunkData => s.flags.chunked = true ∧ s.contentLength ≠ 0 ∧ s.contentLength ≠ ullongMax
  | .chunkDataAlmostDone => s.flags.chunked = true ∧ s.contentLength = 0
  | .chunkDataDone => s.flags.chunked = true
  | _ => True

/-- A turn that is not stuck, with a parser that the next turn can rely on. -/
def Turn.Fine (t : Turn) : Prop := t.ctrl ≠ .stuck ∧ (t.ctrl ≠ .error → t.parser.Expects)

@[simp] theorem fine_brk (s : Parser) : s.brk.Fine ↔ s.Expects := by
  simp [Turn.Fine, Parser.brk]

@[simp] theorem fine_fail (s : Parser) (e : Errno) : (s.fail e).Fine := by
  simp [Turn.Fine, Parser.fail]

@[simp] theorem fine_after (acts : List Act) (t : Turn) : (t.after acts).Fine ↔ t.Fine := Iff.rfl

/-! ## The request line -/

section Cases

variable (s : Parser) (ch : UInt8)

theorem fine_caseDead (h : s.state = .dead) : (caseDead s ch).Fine := by
  unfold caseDead
  split_ifs <;> simp [Parser.Expects, h]

theorem firstMethod_length {method : Method} (h : firstMethod ch = some method) :
    1 ≤ (methodString method).length := by
  cases method <;> decide

theorem fine_caseStartReq (h : s.state = .startReq) : (caseStartReq s ch).Fine := by
  unfold caseStartReq
  split_ifs with hblank halpha
  · simp [Parser.Expects, h]
  · exact fine_fail _ _
  · cases hfirst : firstMethod ch with
    | none => exact fine_fail _ _
    | some method => simpa [Parser.Expects] using firstMethod_length ch hfirst

/-- The method that a byte changes to is long enough for the byte. -/
theorem nextMethod_length {method next : Method} {index : Nat} {ch : UInt8}
    (h : nextMethod method index ch = some next) :
    index + 1 ≤ (methodString next).length ∧ index < 5 := by
  unfold nextMethod at h
  split_ifs at h with hconnect h1 h2 hmkcol h3 h4 h5 h6 hsubscribe h7 hpost h8 h9 h10 htwo
    hput h11 hunlock h12 hfour
  all_goals cases h
  all_goals first
    | exact ⟨by rw [h1.1]; decide, by omega⟩
    | exact ⟨by rw [h2.1]; decide, by omega⟩
    | exact ⟨by rw [h3.1]; decide, by omega⟩
    | exact ⟨by rw [h4.1]; decide, by omega⟩
    | exact ⟨by rw [h5.1]; decide, by omega⟩
    | exact ⟨by rw [h6.1]; decide, by omega⟩
    | exact ⟨by rw [h7.1]; decide, by omega⟩
    | exact ⟨by rw [hpost.1]; decide, by omega⟩
    | exact ⟨by rw [htwo]; decide, by omega⟩
    | exact ⟨by rw [hfour.1]; decide, by omega⟩

theorem length_methodString (method : Method) : (methodString method).length ≤ 11 := by
  cases method <;> decide

theorem fine_caseReqMethod (h : s.state = .reqMethod)
    (hindex : s.index ≤ (methodString s.method).length) : (caseReqMethod s ch).Fine := by
  have hlength := length_methodString s.method
  have hbump : bump s.index = s.index + 1 := Nat.mod_eq_of_lt (by omega)
  unfold caseReqMethod
  dsimp only
  split_ifs with hzero hlong hblank hmatch
  · exact fine_fail _ _
  · exact absurd hlong (by omega)
  · simp [Parser.Expects]
  · -- the terminator is not a byte of the input
    have hlt : s.index < (methodString s.method).length := by
      by_contra hge
      rw [List.getD_eq_getElem?_getD, List.getElem?_eq_none (by omega)] at hmatch
      exact hzero hmatch
    simp only [fine_brk, Parser.Expects, h, hbump]
    omega
  · cases hnext : nextMethod s.method s.index ch with
    | none => exact fine_fail _ _
    | some method =>
        simp only [fine_brk, Parser.Expects, h, hbump]
        exact (nextMethod_length hnext).1

/-! ### URLs -/

theorem marked_server :
    parseUrlChar.server ch = .dead ∨ (parseUrlChar.server ch).marked = some .url := by
  unfold parseUrlChar.server
  split_ifs <;> simp [State.marked]

theorem marked_queryString :
    parseUrlChar.queryString ch = .dead ∨ (parseUrlChar.queryString ch).marked = some .url := by
  unfold parseUrlChar.queryString
  split_ifs <;> simp [State.marked]

/-- A URL state is followed by a URL state, or the parser ends. -/
theorem marked_parseUrlChar (state : State) :
    parseUrlChar state ch = .dead ∨ (parseUrlChar state ch).marked = some .url := by
  unfold parseUrlChar
  by_cases hblank : ch = 32 ∨ ch = cr ∨ ch = lf ∨ ch = 9 ∨ ch = 12
  · exact Or.inl (if_pos hblank)
  · rw [if_neg hblank]
    cases state with
    | reqServerWithAt =>
        dsimp only
        split_ifs
        · exact Or.inl rfl
        · exact marked_server ch
    | reqServerStart => exact marked_server ch
    | reqServer => exact marked_server ch
    | reqQueryStringStart => exact marked_queryString ch
    | reqQueryString => exact marked_queryString ch
    | _ =>
        dsimp only
        try split_ifs
        all_goals simp [State.marked]

theorem expects_of_marked_url {s : Parser} (h : s.state.marked = some .url) : s.Expects := by
  unfold Parser.Expects
  cases hstate : s.state <;> rw [hstate] at h <;> trivial

theorem fine_urlByte : (urlByte s ch).Fine := by
  unfold urlByte
  dsimp only
  split_ifs with hdead
  · exact fine_fail _ _
  · rw [fine_brk]
    exact expects_of_marked_url ((marked_parseUrlChar ch s.state).resolve_left hdead)

theorem fine_caseReqSpacesBeforeUrl (h : s.state = .reqSpacesBeforeUrl) :
    (caseReqSpacesBeforeUrl s ch).Fine := by
  unfold caseReqSpacesBeforeUrl
  dsimp only
  split_ifs
  · simp [Parser.Expects, h]
  · exact (fine_after _ _).mpr (fine_urlByte _ ch)
  · exact (fine_after _ _).mpr (fine_urlByte _ ch)

theorem fine_caseReqSchema : (caseReqSchema s ch).Fine := by
  unfold caseReqSchema
  split_ifs
  · exact fine_fail _ _
  · exact fine_urlByte s ch

theorem fine_caseReqUrl : (caseReqUrl s ch).Fine := by
  unfold caseReqUrl
  dsimp only
  split_ifs
  · simp [Parser.Expects, Parser.goTo]
  · simp [Parser.Expects]
  · simp [Parser.Expects]
  · exact fine_urlByte s ch

/-! ### Versions and the ends of lines -/

theorem fine_strictByte (expected : UInt8) {state : State}
    (hstate : ∀ s : Parser, (s.goTo state).Expects) : (strictByte expected state s ch).Fine := by
  unfold strictByte
  split_ifs
  · exact fine_fail _ _
  · exact (fine_brk _).mpr (hstate s)

theorem fine_caseReqHttpStart (h : s.state = .reqHttpStart) : (caseReqHttpStart s ch).Fine := by
  unfold caseReqHttpStart
  split_ifs <;> simp [Parser.Expects, Parser.goTo, h]

theorem fine_caseReqFirstHttpMajor : (caseReqFirstHttpMajor s ch).Fine := by
  unfold caseReqFirstHttpMajor
  split_ifs <;> simp [Parser.Expects]

theorem fine_caseReqHttpMajor (h : s.state = .reqHttpMajor) : (caseReqHttpMajor s ch).Fine := by
  unfold caseReqHttpMajor
  dsimp only
  split_ifs <;> simp [Parser.Expects, Parser.goTo, h]

theorem fine_caseReqFirstHttpMinor : (caseReqFirstHttpMinor s ch).Fine := by
  unfold caseReqFirstHttpMinor
  split_ifs <;> simp [Parser.Expects]

theorem fine_caseReqHttpMinor (h : s.state = .reqHttpMinor) : (caseReqHttpMinor s ch).Fine := by
  unfold caseReqHttpMinor
  dsimp only
  split_ifs <;> simp [Parser.Expects, Parser.goTo, h]

theorem fine_caseReqLineAlmostDone : (caseReqLineAlmostDone s ch).Fine := by
  unfold caseReqLineAlmostDone
  split_ifs <;> simp [Parser.Expects, Parser.goTo]

/-! ### Headers -/

theorem newMessage_cases : s.newMessage = .startReq ∨ s.newMessage = .dead := by
  unfold Parser.newMessage
  split_ifs
  · exact Or.inl rfl
  · exact Or.inr rfl

theorem expects_newMessage : (s.goTo s.newMessage).Expects := by
  obtain h | h := newMessage_cases s <;> simp [Parser.Expects, Parser.goTo, h]

theorem fine_caseMessageDone : (caseMessageDone s).Fine := by
  rw [caseMessageDone, fine_after, fine_brk]
  exact expects_newMessage s

theorem fine_caseHeadersDone : (caseHeadersDone s ch).Fine := by
  unfold caseHeadersDone
  dsimp only
  split_ifs with hlf hupgrade hchunked hzero hlength
  · exact fine_fail _ _
  · exact ⟨nofun, fun _ => expects_newMessage _⟩
  · simpa [Parser.Expects, Parser.goTo] using hchunked
  · exact fine_caseMessageDone _
  · simpa [Parser.Expects, Parser.goTo] using ⟨hzero, hlength⟩
  · exact fine_caseMessageDone _

theorem fine_caseHeadersAlmostDone : (caseHeadersAlmostDone s ch).Fine := by
  unfold caseHeadersAlmostDone
  dsimp only
  split_ifs
  · exact fine_fail _ _
  · exact fine_caseMessageDone s
  · exact (fine_after _ _).mpr (fine_caseHeadersDone _ ch)

theorem ofName_firstHeaderState (c : UInt8) : (firstHeaderState c).ofName = true := by
  unfold firstHeaderState
  split_ifs <;> rfl

theorem fine_caseHeaderFieldStart : (caseHeaderFieldStart s ch).Fine := by
  unfold caseHeaderFieldStart
  dsimp only
  split_ifs
  · simp [Parser.Expects, Parser.goTo]
  · exact fine_caseHeadersAlmostDone _ ch
  · exact fine_fail _ _
  · simpa [Parser.Expects] using ofName_firstHeaderState _

/-- The next state of a matcher. -/
theorem headerState_matching (text : List UInt8) (done : HeaderState) (c : UInt8) :
    (matching text done s c).state = s.state ∧
      ((matching text done s c).headerState = .general ∨
        (matching text done s c).headerState = done ∨
        (matching text done s c).headerState = s.headerState) := by
  unfold matching
  dsimp only
  split_ifs <;> simp

theorem headerNameByte_ofName (h : s.headerState.ofName = true) (c : UInt8) :
    ∃ s', headerNameByte s ch c = some s' ∧ s'.state = s.state ∧ s'.headerState.ofName = true := by
  have hmatching : ∀ text done, done.ofName = true →
      ∃ s', some (matching text done s c) = some s' ∧ s'.state = s.state ∧
        s'.headerState.ofName = true := by
    intro text done hdone
    obtain ⟨hstate, hcases⟩ := headerState_matching s text done c
    refine ⟨_, rfl, hstate, ?_⟩
    obtain heq | heq | heq := hcases <;> rw [heq]
    · rfl
    · exact hdone
    · exact h
  unfold headerNameByte
  cases hstate : s.headerState with
  | general => exact ⟨s, rfl, rfl, h⟩
  | c => exact ⟨_, rfl, rfl, by simp only [matchingStart]; split_ifs <;> rfl⟩
  | co => exact ⟨_, rfl, rfl, by simp only [matchingStart]; split_ifs <;> rfl⟩
  | con => exact ⟨_, rfl, rfl, by dsimp only; split_ifs <;> rfl⟩
  | matchingConnection => exact hmatching _ _ rfl
  | matchingProxyConnection => exact hmatching _ _ rfl
  | matchingContentLength => exact hmatching _ _ rfl
  | matchingTransferEncoding => exact hmatching _ _ rfl
  | matchingUpgrade => exact hmatching _ _ rfl
  | connection | contentLength | transferEncoding | upgrade =>
      refine ⟨_, rfl, ?_, ?_⟩
      · split_ifs <;> rfl
      · split_ifs
        · rfl
        · exact h
  | _ =>
      rw [hstate] at h
      cases h

theorem fine_caseHeaderField (h : s.state = .headerField) (hname : s.headerState.ofName = true) :
    (caseHeaderField s ch).Fine := by
  unfold caseHeaderField
  dsimp only
  split_ifs
  · obtain ⟨s', hs', hstate, hofName⟩ := headerNameByte_ofName s ch hname (token ch)
    rw [hs']
    simpa [Parser.Expects, hstate, h] using hofName
  · simp [Parser.Expects, Parser.goTo]
  · simp [Parser.Expects, Parser.goTo]
  · simp [Parser.Expects, Parser.goTo]
  · exact fine_fail _ _

theorem firstValueByte_ofValue {s s' : Parser} {ch : UInt8} (h : firstValueByte s ch = some s') :
    s'.state = s.state ∧ s'.headerState.ofValue = true := by
  unfold firstValueByte at h
  dsimp only at h
  split at h
  · cases h
    exact ⟨rfl, rfl⟩
  · cases h
    refine ⟨rfl, ?_⟩
    dsimp only
    split_ifs <;> rfl
  · rename_i hlength
    split_ifs at h
    cases h
    exact ⟨rfl, by rw [hlength]; rfl⟩
  · cases h
    refine ⟨rfl, ?_⟩
    dsimp only
    split_ifs <;> rfl
  · cases h
    exact ⟨rfl, rfl⟩

theorem fine_caseHeaderValueStart (h : s.state = .headerValueStart) :
    (caseHeaderValueStart s ch).Fine := by
  unfold caseHeaderValueStart
  dsimp only
  split_ifs
  · simp [Parser.Expects, h]
  · simp [Parser.Expects]
  · simp [Parser.Expects, Parser.goTo]
  · rw [fine_after]
    cases hfirst : firstValueByte { s with state := .headerValue, index := 0 } ch with
    | none => exact fine_fail _ _
    | some s' =>
        obtain ⟨hstate, hofValue⟩ := firstValueByte_ofValue hfirst
        simpa [Parser.Expects, hstate] using hofValue

theorem fine_caseHeaderAlmostDone : (caseHeaderAlmostDone s ch).Fine := by
  unfold caseHeaderAlmostDone
  split_ifs
  · exact fine_fail _ _
  · simp [Parser.Expects]

theorem fine_valueByte (h : s.state = .headerValue) (hvalue : s.headerState.ofValue = true) :
    (valueByte s ch).Fine := by
  have hmatching : ∀ text done, done.ofValue = true → (matching text done s (lower ch)).brk.Fine := by
    intro text done hdone
    obtain ⟨hstate, hcases⟩ := headerState_matching s text done (lower ch)
    rw [fine_brk, Parser.Expects, hstate, h]
    obtain heq | heq | heq := hcases <;> dsimp only <;> rw [heq]
    · rfl
    · exact hdone
    · exact hvalue
  unfold valueByte
  dsimp only
  cases hstate : s.headerState with
  | connection | transferEncoding =>
      rw [hstate] at hvalue
      cases hvalue
  | contentLength =>
      dsimp only
      split_ifs
      · simp [Parser.Expects, h, hstate, HeaderState.ofValue]
      · exact fine_fail _ _
      · cases addDigit 10 s.contentLength (ch.toNat - 48) with
        | none => exact fine_fail _ _
        | some t => simp [Parser.Expects, h, HeaderState.ofValue]
  | matchingTransferEncodingChunked => exact hmatching _ _ rfl
  | matchingConnectionKeepAlive => exact hmatching _ _ rfl
  | matchingConnectionClose => exact hmatching _ _ rfl
  | transferEncodingChunked | connectionKeepAlive | connectionClose =>
      dsimp only
      split_ifs
      · simp [Parser.Expects, h, HeaderState.ofValue]
      · simpa [Parser.Expects, h] using hvalue
  | _ => simp [Parser.Expects, h, hstate, HeaderState.ofValue]

theorem fine_caseHeaderValue (h : s.state = .headerValue) (hvalue : s.headerState.ofValue = true) :
    (caseHeaderValue s ch).Fine := by
  unfold caseHeaderValue
  split_ifs
  · simp [Parser.Expects, Parser.goTo]
  · exact (fine_after _ _).mpr (fine_caseHeaderAlmostDone _ ch)
  · exact fine_valueByte s ch h hvalue

theorem fine_caseHeaderValueLws : (caseHeaderValueLws s ch).Fine := by
  unfold caseHeaderValueLws
  split_ifs
  · simp [Parser.Expects, Parser.goTo]
  · exact fine_caseHeaderFieldStart _ ch

/-! ### Bodies -/

theorem fine_caseBodyIdentity (h : s.state = .bodyIdentity) (hzero : s.contentLength ≠ 0)
    (hmax : s.contentLength ≠ ullongMax) (hfits : s.contentLength ≤ ullongMax) (avail : Nat) :
    (caseBodyIdentity s avail).Fine := by
  unfold caseBodyIdentity
  dsimp only
  split_ifs with hbad hend
  · exact absurd hbad (not_or.mpr ⟨hzero, hmax⟩)
  · exact ⟨nofun, fun _ => expects_newMessage _⟩
  · refine ⟨nofun, fun _ => ?_⟩
    show Parser.Expects { s with contentLength := _ }
    simp only [Parser.Expects, h]
    exact ⟨hend, by omega⟩

/-- A length that is accepted is not the largest one. -/
theorem addDigit_ne_max {base n digit t : Nat} (h : addDigit base n digit = some t) :
    t ≠ ullongMax ∧ t ≤ ullongMax := by
  unfold addDigit at h
  dsimp only at h
  split_ifs at h with hbad
  obtain rfl := Option.some.inj h
  rw [not_or] at hbad
  have hlt := Nat.mod_lt (n * base + digit) (show 0 < 18446744073709551616 by decide)
  exact ⟨hbad.2, by unfold ullongMax; omega⟩

theorem unhex_lt {digit : Nat} (h : unhex ch = some digit) : digit < 16 := by
  have hall : ∀ n < 256, ∀ digit ∈ unhex (UInt8.ofNat n), digit < 16 := by decide +kernel
  exact hall ch.toNat ch.toNat_lt digit (by rwa [UInt8.ofNat_toNat])

theorem fine_caseChunkSizeStart (hread : s.nread = 1) (hchunked : s.flags.chunked = true) :
    (caseChunkSizeStart s ch).Fine := by
  unfold caseChunkSizeStart
  rw [if_neg (by simp [hread, hchunked])]
  cases hdigit : unhex ch with
  | none => exact fine_fail _ _
  | some digit =>
      have hlt := unhex_lt ch hdigit
      have hmax : digit ≠ ullongMax := by unfold ullongMax; omega
      simpa [Parser.Expects, hchunked] using hmax

theorem fine_caseChunkSize (h : s.state = .chunkSize) (hchunked : s.flags.chunked = true)
    (hmax : s.contentLength ≠ ullongMax) : (caseChunkSize s ch).Fine := by
  unfold caseChunkSize
  rw [if_neg (by simp [hchunked])]
  by_cases hcr : ch = cr
  · rw [if_pos hcr]
    simpa [Parser.Expects, Parser.goTo, hchunked] using hmax
  · rw [if_neg hcr]
    cases unhex ch with
    | none =>
        dsimp only
        split_ifs
        · simpa [Parser.Expects, Parser.goTo, hchunked] using hmax
        · exact fine_fail _ _
    | some digit =>
        cases hadd : addDigit 16 s.contentLength digit with
        | none =>
            dsimp only
            rw [hadd]
            exact fine_fail _ _
        | some t =>
            dsimp only
            rw [hadd]
            simpa [Parser.Expects, h, hchunked] using (addDigit_ne_max hadd).1

theorem fine_caseChunkParameters (h : s.state = .chunkParameters)
    (hchunked : s.flags.chunked = true) (hmax : s.contentLength ≠ ullongMax) :
    (caseChunkParameters s ch).Fine := by
  unfold caseChunkParameters
  rw [if_neg (by simp [hchunked])]
  split_ifs
  · simpa [Parser.Expects, Parser.goTo, hchunked] using hmax
  · simpa [Parser.Expects, h, hchunked] using hmax

theorem fine_caseChunkSizeAlmostDone (hchunked : s.flags.chunked = true)
    (hmax : s.contentLength ≠ ullongMax) : (caseChunkSizeAlmostDone s ch).Fine := by
  unfold caseChunkSizeAlmostDone
  rw [if_neg (by simp [hchunked])]
  dsimp only
  split_ifs with hlf hzero
  · exact fine_fail _ _
  · simp [Parser.Expects]
  · simpa [Parser.Expects, Parser.goTo, hchunked] using ⟨hzero, hmax⟩

theorem fine_caseChunkData (h : s.state = .chunkData) (hchunked : s.flags.chunked = true)
    (hzero : s.contentLength ≠ 0) (hmax : s.contentLength ≠ ullongMax)
    (hfits : s.contentLength ≤ ullongMax) (avail : Nat) : (caseChunkData s avail).Fine := by
  unfold caseChunkData
  rw [if_neg (by simp [hchunked, hzero, hmax])]
  refine ⟨nofun, fun _ => ?_⟩
  show Parser.Expects (if _ then _ else _)
  split_ifs with hend
  · simpa [Parser.Expects, Parser.goTo, hchunked] using hend
  · simp only [Parser.Expects, h, hchunked]
    exact ⟨trivial, hend, by omega⟩

theorem fine_caseChunkDataAlmostDone (hchunked : s.flags.chunked = true)
    (hzero : s.contentLength = 0) : (caseChunkDataAlmostDone s ch).Fine := by
  unfold caseChunkDataAlmostDone
  rw [if_neg (by simp [hchunked, hzero])]
  split_ifs
  · exact fine_fail _ _
  · simp [Parser.Expects, Parser.goTo, hchunked]

theorem fine_caseChunkDataDone (hchunked : s.flags.chunked = true) :
    (caseChunkDataDone s ch).Fine := by
  unfold caseChunkDataDone
  rw [if_neg (by simp [hchunked])]
  split_ifs
  · exact fine_fail _ _
  · simp [Parser.Expects, hchunked]

end Cases

/-! ## The switch -/

/-- The numbers stay in the types of their fields, and the headers are at most so long. -/
structure Parser.Bounded (s : Parser) (limit : Nat) : Prop where
  nread : s.nread ≤ limit
  contentLength : s.contentLength ≤ ullongMax
  httpMajor : s.httpMajor ≤ 999
  httpMinor : s.httpMinor ≤ 999

/-- A counted byte still leaves what the turn relies on. -/
theorem fine_turn {s : Parser} (hexpects : s.Expects) (hfits : s.contentLength ≤ ullongMax)
    (ch : UInt8) (avail : Nat) : (s.count.turn ch avail).Fine := by
  unfold Parser.Expects at hexpects
  unfold Parser.count Parser.turn
  cases hstate : s.state <;> rw [hstate] at hexpects <;>
    simp only [State.parsingHeader, if_true, Bool.false_eq_true, if_false, hstate]
  case dead => exact fine_caseDead _ ch rfl
  case startReq => exact fine_caseStartReq _ ch rfl
  case reqMethod => exact fine_caseReqMethod _ ch rfl hexpects
  case reqSpacesBeforeUrl => exact fine_caseReqSpacesBeforeUrl _ ch rfl
  case reqSchema | reqSchemaSlash | reqSchemaSlashSlash | reqServerStart =>
    exact fine_caseReqSchema _ ch
  case reqServer | reqServerWithAt | reqPath | reqQueryStringStart | reqQueryString
      | reqFragmentStart | reqFragment =>
    exact fine_caseReqUrl _ ch
  case reqHttpStart => exact fine_caseReqHttpStart _ ch rfl
  case reqHttpH | reqHttpHT | reqHttpHTT | reqHttpHTTP =>
    exact fine_strictByte _ ch _ fun _ => trivial
  case reqFirstHttpMajor => exact fine_caseReqFirstHttpMajor _ ch
  case reqHttpMajor => exact fine_caseReqHttpMajor _ ch rfl
  case reqFirstHttpMinor => exact fine_caseReqFirstHttpMinor _ ch
  case reqHttpMinor => exact fine_caseReqHttpMinor _ ch rfl
  case reqLineAlmostDone => exact fine_caseReqLineAlmostDone _ ch
  case headerFieldStart => exact fine_caseHeaderFieldStart _ ch
  case headerField => exact fine_caseHeaderField _ ch rfl hexpects
  case headerValueStart => exact fine_caseHeaderValueStart _ ch rfl
  case headerValue => exact fine_caseHeaderValue _ ch rfl hexpects
  case headerValueLws => exact fine_caseHeaderValueLws _ ch
  case headerAlmostDone => exact fine_caseHeaderAlmostDone _ ch
  case chunkSizeStart =>
    exact fine_caseChunkSizeStart _ ch (by simp [hexpects.1]) hexpects.2
  case chunkSize => exact fine_caseChunkSize _ ch rfl hexpects.1 hexpects.2
  case chunkParameters => exact fine_caseChunkParameters _ ch rfl hexpects.1 hexpects.2
  case chunkSizeAlmostDone => exact fine_caseChunkSizeAlmostDone _ ch hexpects.1 hexpects.2
  case headersAlmostDone => exact fine_caseHeadersAlmostDone _ ch
  case headersDone => exact fine_caseHeadersDone _ ch
  case chunkData =>
    exact fine_caseChunkData _ hstate hexpects.1 hexpects.2.1 hexpects.2.2 hfits avail
  case chunkDataAlmostDone => exact fine_caseChunkDataAlmostDone _ ch hexpects.1 hexpects.2
  case chunkDataDone => exact fine_caseChunkDataDone _ ch hexpects
  case bodyIdentity =>
    exact fine_caseBodyIdentity _ hstate hexpects.1 hexpects.2 hfits avail
  case messageDone => exact fine_caseMessageDone _

/-! ## The fields of numbers -/

section Bounds

variable {s : Parser} {limit : Nat} (h : s.Bounded limit) (ch : UInt8)

include h

theorem bounded_caseStartReq : (caseStartReq s ch).parser.Bounded limit := by
  unfold caseStartReq
  dsimp only
  split_ifs
  · exact h
  · exact ⟨h.nread, Nat.le_refl _, h.httpMajor, h.httpMinor⟩
  · cases firstMethod ch <;> exact ⟨h.nread, Nat.le_refl _, h.httpMajor, h.httpMinor⟩

theorem bounded_caseReqMethod : (caseReqMethod s ch).parser.Bounded limit := by
  unfold caseReqMethod
  dsimp only
  split_ifs
  · exact ⟨h.nread, h.contentLength, h.httpMajor, h.httpMinor⟩
  · exact h
  · exact ⟨h.nread, h.contentLength, h.httpMajor, h.httpMinor⟩
  · exact ⟨h.nread, h.contentLength, h.httpMajor, h.httpMinor⟩
  · cases nextMethod s.method s.index ch <;>
      exact ⟨h.nread, h.contentLength, h.httpMajor, h.httpMinor⟩

theorem bounded_urlByte : (urlByte s ch).parser.Bounded limit := by
  unfold urlByte
  dsimp only
  split_ifs <;> exact ⟨h.nread, h.contentLength, h.httpMajor, h.httpMinor⟩

theorem bounded_caseReqUrl : (caseReqUrl s ch).parser.Bounded limit := by
  unfold caseReqUrl
  dsimp only
  split_ifs
  · exact ⟨h.nread, h.contentLength, h.httpMajor, h.httpMinor⟩
  · exact ⟨h.nread, h.contentLength, Nat.zero_le _, show 9 ≤ 999 by decide⟩
  · exact ⟨h.nread, h.contentLength, Nat.zero_le _, show 9 ≤ 999 by decide⟩
  · exact bounded_urlByte h ch

theorem bounded_caseReqSpacesBeforeUrl : (caseReqSpacesBeforeUrl s ch).parser.Bounded limit := by
  unfold caseReqSpacesBeforeUrl
  dsimp only
  split_ifs
  · exact h
  · exact bounded_urlByte (s := s.goTo .reqServerStart)
      ⟨h.nread, h.contentLength, h.httpMajor, h.httpMinor⟩ ch
  · exact bounded_urlByte h ch

theorem bounded_caseReqSchema : (caseReqSchema s ch).parser.Bounded limit := by
  unfold caseReqSchema
  split_ifs
  · exact ⟨h.nread, h.contentLength, h.httpMajor, h.httpMinor⟩
  · exact bounded_urlByte h ch

theorem bounded_strictByte (expected : UInt8) (state : State) :
    (strictByte expected state s ch).parser.Bounded limit := by
  unfold strictByte
  split_ifs <;> exact ⟨h.nread, h.contentLength, h.httpMajor, h.httpMinor⟩

theorem bounded_caseReqHttpStart : (caseReqHttpStart s ch).parser.Bounded limit := by
  unfold caseReqHttpStart
  split_ifs <;> exact ⟨h.nread, h.contentLength, h.httpMajor, h.httpMinor⟩

omit h in
theorem digit_le (hhigh : ch ≤ 57) : ch.toNat - 48 ≤ 9 := by
  rw [UInt8.le_iff_toNat_le] at hhigh
  have hnine : ch.toNat ≤ 57 := hhigh
  omega

theorem bounded_caseReqFirstHttpMajor : (caseReqFirstHttpMajor s ch).parser.Bounded limit := by
  unfold caseReqFirstHttpMajor
  split_ifs with hdigit
  · exact ⟨h.nread, h.contentLength, h.httpMajor, h.httpMinor⟩
  · simp only [Bool.not_eq_true', Bool.not_eq_false, Bool.and_eq_true, decide_eq_true_eq] at hdigit
    have hle := digit_le ch hdigit.2
    exact ⟨h.nread, h.contentLength, hle.trans (by decide), h.httpMinor⟩

theorem bounded_caseReqFirstHttpMinor : (caseReqFirstHttpMinor s ch).parser.Bounded limit := by
  unfold caseReqFirstHttpMinor
  split_ifs with hdigit
  · exact ⟨h.nread, h.contentLength, h.httpMajor, h.httpMinor⟩
  · simp only [isNum, Bool.not_eq_true', Bool.not_eq_false, Bool.and_eq_true,
      decide_eq_true_eq] at hdigit
    have hle := digit_le ch hdigit.2
    exact ⟨h.nread, h.contentLength, h.httpMajor, hle.trans (by decide)⟩

/-- A refused version is read first, so this is about the parsers that go on. -/
theorem bounded_caseReqHttpMajor (hgo : (caseReqHttpMajor s ch).ctrl ≠ .error) :
    (caseReqHttpMajor s ch).parser.Bounded limit := by
  unfold caseReqHttpMajor at hgo ⊢
  dsimp only at hgo ⊢
  split_ifs at hgo ⊢ with hdot hnum hlarge
  · exact ⟨h.nread, h.contentLength, h.httpMajor, h.httpMinor⟩
  · exact absurd rfl hgo
  · exact absurd rfl hgo
  · exact ⟨h.nread, h.contentLength, not_lt.mp hlarge, h.httpMinor⟩

theorem bounded_caseReqHttpMinor (hgo : (caseReqHttpMinor s ch).ctrl ≠ .error) :
    (caseReqHttpMinor s ch).parser.Bounded limit := by
  unfold caseReqHttpMinor at hgo ⊢
  dsimp only at hgo ⊢
  split_ifs at hgo ⊢ with hcr hlf hnum hlarge
  · exact ⟨h.nread, h.contentLength, h.httpMajor, h.httpMinor⟩
  · exact ⟨h.nread, h.contentLength, h.httpMajor, h.httpMinor⟩
  · exact absurd rfl hgo
  · exact absurd rfl hgo
  · exact ⟨h.nread, h.contentLength, h.httpMajor, not_lt.mp hlarge⟩

theorem bounded_caseMessageDone : (caseMessageDone s).parser.Bounded limit :=
  ⟨h.nread, h.contentLength, h.httpMajor, h.httpMinor⟩

theorem bounded_caseHeadersDone : (caseHeadersDone s ch).parser.Bounded limit := by
  unfold caseHeadersDone
  dsimp only
  split_ifs
  · exact ⟨h.nread, h.contentLength, h.httpMajor, h.httpMinor⟩
  all_goals exact ⟨Nat.zero_le _, h.contentLength, h.httpMajor, h.httpMinor⟩

theorem bounded_caseHeadersAlmostDone : (caseHeadersAlmostDone s ch).parser.Bounded limit := by
  unfold caseHeadersAlmostDone
  dsimp only
  split_ifs
  · exact ⟨h.nread, h.contentLength, h.httpMajor, h.httpMinor⟩
  · exact bounded_caseMessageDone h
  · exact bounded_caseHeadersDone (s := { s with state := .headersDone, upgrade := _ })
      ⟨h.nread, h.contentLength, h.httpMajor, h.httpMinor⟩ ch

theorem bounded_caseHeaderFieldStart : (caseHeaderFieldStart s ch).parser.Bounded limit := by
  unfold caseHeaderFieldStart
  dsimp only
  split_ifs
  · exact ⟨h.nread, h.contentLength, h.httpMajor, h.httpMinor⟩
  · exact bounded_caseHeadersAlmostDone (s := s.goTo .headersAlmostDone)
      ⟨h.nread, h.contentLength, h.httpMajor, h.httpMinor⟩ ch
  · exact ⟨h.nread, h.contentLength, h.httpMajor, h.httpMinor⟩
  · exact ⟨h.nread, h.contentLength, h.httpMajor, h.httpMinor⟩

omit h in
/-- The matchers change their own fields only. -/
theorem matching_eq (s : Parser) (text : List UInt8) (done : HeaderState) (c : UInt8) :
    matching text done s c =
      { s with
        index := (matching text done s c).index
        headerState := (matching text done s c).headerState } := by
  unfold matching
  dsimp only
  split_ifs <;> rfl

theorem bounded_matching (text : List UInt8) (done : HeaderState) (c : UInt8) :
    (matching text done s c).Bounded limit := by
  rw [matching_eq]
  exact ⟨h.nread, h.contentLength, h.httpMajor, h.httpMinor⟩

omit h in
theorem headerNameByte_eq {s' : Parser} {c : UInt8} (hsome : headerNameByte s ch c = some s') :
    s' = { s with index := s'.index, headerState := s'.headerState } := by
  unfold headerNameByte at hsome
  split at hsome
  case h_1 => cases hsome; rfl
  case h_10 | h_11 | h_12 | h_13 =>
    obtain rfl := Option.some.inj hsome
    split_ifs <;> rfl
  case h_14 => cases hsome
  case h_2 | h_3 | h_4 => cases hsome; rfl
  all_goals
    obtain rfl := Option.some.inj hsome
    exact matching_eq s _ _ c

theorem bounded_caseHeaderField : (caseHeaderField s ch).parser.Bounded limit := by
  unfold caseHeaderField
  dsimp only
  split_ifs
  · cases hname : headerNameByte s ch (token ch) with
    | none => exact h
    | some s' =>
        show s'.Bounded limit
        rw [headerNameByte_eq ch hname]
        exact ⟨h.nread, h.contentLength, h.httpMajor, h.httpMinor⟩
  all_goals exact ⟨h.nread, h.contentLength, h.httpMajor, h.httpMinor⟩

theorem bounded_firstValueByte {s' : Parser} (hsome : firstValueByte s ch = some s') :
    s'.Bounded limit := by
  unfold firstValueByte at hsome
  dsimp only at hsome
  split at hsome
  case h_3 =>
    split_ifs at hsome with hnum
    obtain rfl := Option.some.inj hsome
    simp only [isNum, Bool.and_eq_true, decide_eq_true_eq] at hnum
    have hle := digit_le ch hnum.2
    exact ⟨h.nread, hle.trans (by decide), h.httpMajor, h.httpMinor⟩
  all_goals
    obtain rfl := Option.some.inj hsome
    exact ⟨h.nread, h.contentLength, h.httpMajor, h.httpMinor⟩

theorem bounded_caseHeaderValueStart : (caseHeaderValueStart s ch).parser.Bounded limit := by
  unfold caseHeaderValueStart
  dsimp only
  split_ifs
  · exact h
  · exact ⟨h.nread, h.contentLength, h.httpMajor, h.httpMinor⟩
  · exact ⟨h.nread, h.contentLength, h.httpMajor, h.httpMinor⟩
  · cases hfirst : firstValueByte { s with state := .headerValue, index := 0 } ch with
    | none => exact ⟨h.nread, h.contentLength, h.httpMajor, h.httpMinor⟩
    | some s' =>
        exact bounded_firstValueByte (s := { s with state := .headerValue, index := 0 })
          ⟨h.nread, h.contentLength, h.httpMajor, h.httpMinor⟩ ch hfirst

theorem bounded_caseHeaderAlmostDone : (caseHeaderAlmostDone s ch).parser.Bounded limit := by
  unfold caseHeaderAlmostDone
  split_ifs <;> exact ⟨h.nread, h.contentLength, h.httpMajor, h.httpMinor⟩

theorem bounded_valueByte : (valueByte s ch).parser.Bounded limit := by
  unfold valueByte
  dsimp only
  split
  case h_4 =>
    split_ifs
    · exact h
    · exact ⟨h.nread, h.contentLength, h.httpMajor, h.httpMinor⟩
    · cases hadd : addDigit 10 s.contentLength (ch.toNat - 48) with
      | none => exact ⟨h.nread, h.contentLength, h.httpMajor, h.httpMinor⟩
      | some t => exact ⟨h.nread, (addDigit_ne_max hadd).2, h.httpMajor, h.httpMinor⟩
  case h_5 | h_6 | h_7 => exact bounded_matching h _ _ _
  case h_8 | h_9 | h_10 =>
    split_ifs
    · exact ⟨h.nread, h.contentLength, h.httpMajor, h.httpMinor⟩
    · exact h
  case h_11 => exact ⟨h.nread, h.contentLength, h.httpMajor, h.httpMinor⟩
  all_goals exact h

theorem bounded_caseHeaderValue : (caseHeaderValue s ch).parser.Bounded limit := by
  unfold caseHeaderValue
  split_ifs
  · exact ⟨h.nread, h.contentLength, h.httpMajor, h.httpMinor⟩
  · exact bounded_caseHeaderAlmostDone (s := s.goTo .headerAlmostDone)
      ⟨h.nread, h.contentLength, h.httpMajor, h.httpMinor⟩ ch
  · exact bounded_valueByte h ch

theorem bounded_caseHeaderValueLws : (caseHeaderValueLws s ch).parser.Bounded limit := by
  unfold caseHeaderValueLws
  split_ifs
  · exact ⟨h.nread, h.contentLength, h.httpMajor, h.httpMinor⟩
  · exact bounded_caseHeaderFieldStart (s := s.goTo .headerFieldStart)
      ⟨h.nread, h.contentLength, h.httpMajor, h.httpMinor⟩ ch

theorem bounded_caseBodyIdentity (avail : Nat) : (caseBodyIdentity s avail).parser.Bounded limit := by
  have hle := h.contentLength
  unfold caseBodyIdentity
  dsimp only
  split_ifs
  · exact h
  · exact ⟨h.nread, show _ - _ ≤ _ by omega, h.httpMajor, h.httpMinor⟩
  · exact ⟨h.nread, show _ - _ ≤ _ by omega, h.httpMajor, h.httpMinor⟩

theorem bounded_caseChunkSizeStart : (caseChunkSizeStart s ch).parser.Bounded limit := by
  unfold caseChunkSizeStart
  split_ifs
  · exact h
  · cases hdigit : unhex ch with
    | none => exact ⟨h.nread, h.contentLength, h.httpMajor, h.httpMinor⟩
    | some digit =>
        have hlt := unhex_lt ch hdigit
        exact ⟨h.nread, hlt.le.trans (by decide), h.httpMajor, h.httpMinor⟩

theorem bounded_caseChunkSize : (caseChunkSize s ch).parser.Bounded limit := by
  unfold caseChunkSize
  by_cases hchunked : s.flags.chunked = true
  · rw [if_neg (by simp [hchunked])]
    by_cases hcr : ch = cr
    · rw [if_pos hcr]
      exact ⟨h.nread, h.contentLength, h.httpMajor, h.httpMinor⟩
    · rw [if_neg hcr]
      cases unhex ch with
      | none =>
          dsimp only
          split_ifs <;> exact ⟨h.nread, h.contentLength, h.httpMajor, h.httpMinor⟩
      | some digit =>
          dsimp only
          cases hadd : addDigit 16 s.contentLength digit with
          | none => exact ⟨h.nread, h.contentLength, h.httpMajor, h.httpMinor⟩
          | some t => exact ⟨h.nread, (addDigit_ne_max hadd).2, h.httpMajor, h.httpMinor⟩
  · rw [if_pos (by simpa using hchunked)]
    exact h

theorem bounded_caseChunkParameters : (caseChunkParameters s ch).parser.Bounded limit := by
  unfold caseChunkParameters
  split_ifs <;> exact ⟨h.nread, h.contentLength, h.httpMajor, h.httpMinor⟩

theorem bounded_caseChunkSizeAlmostDone : (caseChunkSizeAlmostDone s ch).parser.Bounded limit := by
  unfold caseChunkSizeAlmostDone
  dsimp only
  split_ifs
  · exact h
  · exact ⟨h.nread, h.contentLength, h.httpMajor, h.httpMinor⟩
  · exact ⟨Nat.zero_le _, h.contentLength, h.httpMajor, h.httpMinor⟩
  · exact ⟨Nat.zero_le _, h.contentLength, h.httpMajor, h.httpMinor⟩

theorem bounded_caseChunkData (avail : Nat) : (caseChunkData s avail).parser.Bounded limit := by
  have hle := h.contentLength
  unfold caseChunkData
  dsimp only
  split_ifs
  · exact h
  · exact ⟨h.nread, show _ - _ ≤ _ by omega, h.httpMajor, h.httpMinor⟩
  · exact ⟨h.nread, show _ - _ ≤ _ by omega, h.httpMajor, h.httpMinor⟩

theorem bounded_caseChunkDataAlmostDone : (caseChunkDataAlmostDone s ch).parser.Bounded limit := by
  unfold caseChunkDataAlmostDone
  split_ifs <;> exact ⟨h.nread, h.contentLength, h.httpMajor, h.httpMinor⟩

theorem bounded_caseChunkDataDone : (caseChunkDataDone s ch).parser.Bounded limit := by
  unfold caseChunkDataDone
  split_ifs
  · exact h
  · exact ⟨h.nread, h.contentLength, h.httpMajor, h.httpMinor⟩
  · exact ⟨Nat.zero_le _, h.contentLength, h.httpMajor, h.httpMinor⟩

theorem bounded_caseDead : (caseDead s ch).parser.Bounded limit := by
  unfold caseDead
  split_ifs <;> exact ⟨h.nread, h.contentLength, h.httpMajor, h.httpMinor⟩

theorem bounded_caseReqLineAlmostDone : (caseReqLineAlmostDone s ch).parser.Bounded limit := by
  unfold caseReqLineAlmostDone
  split_ifs <;> exact ⟨h.nread, h.contentLength, h.httpMajor, h.httpMinor⟩

theorem bounded_turn (avail : Nat) (hgo : (s.turn ch avail).ctrl ≠ .error) :
    (s.turn ch avail).parser.Bounded limit := by
  unfold Parser.turn at hgo ⊢
  cases hstate : s.state <;> simp only [hstate] at hgo ⊢
  case dead => exact bounded_caseDead h ch
  case startReq => exact bounded_caseStartReq h ch
  case reqMethod => exact bounded_caseReqMethod h ch
  case reqSpacesBeforeUrl => exact bounded_caseReqSpacesBeforeUrl h ch
  case reqSchema | reqSchemaSlash | reqSchemaSlashSlash | reqServerStart =>
    exact bounded_caseReqSchema h ch
  case reqServer | reqServerWithAt | reqPath | reqQueryStringStart | reqQueryString
      | reqFragmentStart | reqFragment =>
    exact bounded_caseReqUrl h ch
  case reqHttpStart => exact bounded_caseReqHttpStart h ch
  case reqHttpH | reqHttpHT | reqHttpHTT | reqHttpHTTP => exact bounded_strictByte h ch _ _
  case reqFirstHttpMajor => exact bounded_caseReqFirstHttpMajor h ch
  case reqHttpMajor => exact bounded_caseReqHttpMajor h ch hgo
  case reqFirstHttpMinor => exact bounded_caseReqFirstHttpMinor h ch
  case reqHttpMinor => exact bounded_caseReqHttpMinor h ch hgo
  case reqLineAlmostDone => exact bounded_caseReqLineAlmostDone h ch
  case headerFieldStart => exact bounded_caseHeaderFieldStart h ch
  case headerField => exact bounded_caseHeaderField h ch
  case headerValueStart => exact bounded_caseHeaderValueStart h ch
  case headerValue => exact bounded_caseHeaderValue h ch
  case headerValueLws => exact bounded_caseHeaderValueLws h ch
  case headerAlmostDone => exact bounded_caseHeaderAlmostDone h ch
  case chunkSizeStart => exact bounded_caseChunkSizeStart h ch
  case chunkSize => exact bounded_caseChunkSize h ch
  case chunkParameters => exact bounded_caseChunkParameters h ch
  case chunkSizeAlmostDone => exact bounded_caseChunkSizeAlmostDone h ch
  case headersAlmostDone => exact bounded_caseHeadersAlmostDone h ch
  case headersDone => exact bounded_caseHeadersDone h ch
  case chunkData => exact bounded_caseChunkData h avail
  case chunkDataAlmostDone => exact bounded_caseChunkDataAlmostDone h ch
  case chunkDataDone => exact bounded_caseChunkDataDone h ch
  case bodyIdentity => exact bounded_caseBodyIdentity h avail
  case messageDone => exact bounded_caseMessageDone h

end Bounds

end Machine
end Http
end TcMuzi
