import TcMuzi.Base.CString

/-!
# The state machine of `http_parser`

The `switch` of `http_parser_execute` for a parser of requests, in the strict mode the
header file selects.  A `case` that ends in `goto reexecute_byte` continues with the `case`
of the state it has set.

* `Turn` is what one run through the `switch` does to the parser, to the marks and to the
  callbacks, and how it leaves the `switch`.
* An `assert` that fails, and a read behind a string of `method_strings`, is `stuck`.
* The states of responses are left out: the type is `HTTP_REQUEST` from `http_parser_init` on.
-/

namespace TcMuzi
namespace Http
namespace Machine

open Base

/-! ## Character classes -/

def cr : UInt8 := 13
def lf : UInt8 := 10

/-- `LOWER`. -/
def lower (c : UInt8) : UInt8 := c ||| 32

/-- `IS_ALPHA`. -/
def isAlpha (c : UInt8) : Bool := 97 ≤ lower c && lower c ≤ 122

/-- `IS_NUM`. -/
def isNum (c : UInt8) : Bool := 48 ≤ c && c ≤ 57

/-- `IS_MARK`. -/
def isMark (c : UInt8) : Bool := [45, 95, 46, 33, 126, 42, 39, 40, 41].contains c

/-- `IS_USERINFO_CHAR`. -/
def isUserinfoChar (c : UInt8) : Bool :=
  isAlpha c || isNum c || isMark c || [37, 59, 58, 38, 61, 43, 36, 44].contains c

/-- The bits of `normal_url_char`, strict. -/
def isUrlChar (c : UInt8) : Bool := 33 ≤ c && c ≤ 126 && c != 35 && c != 63

/-- The entries of `tokens` that are neither letters nor digits nor 0. -/
def tokenMarks : List UInt8 := [33, 35, 36, 37, 38, 39, 42, 43, 45, 46, 94, 95, 96, 124, 126]

/-- `TOKEN`, strict: the entry of `tokens`. -/
def token (c : UInt8) : UInt8 :=
  if 65 ≤ c && c ≤ 90 then c + 32
  else if 97 ≤ c && c ≤ 122 || isNum c || tokenMarks.contains c then c
  else 0

/-- `unhex`, where it is not -1; the last 128 of its 256 entries are not given, so they are 0. -/
def unhex (c : UInt8) : Option Nat :=
  if isNum c then some (c.toNat - 48)
  else if 65 ≤ c && c ≤ 70 then some (c.toNat - 55)
  else if 97 ≤ c && c ≤ 102 then some (c.toNat - 87)
  else if 128 ≤ c then some 0
  else none

/-! ## The parser -/

inductive Method
  | delete | get | head | post | put | connect | options | trace
  | copy | lock | mkcol | move | propfind | proppatch | search | unlock
  | report | mkactivity | checkout | merge | msearch | notify | subscribe | unsubscribe
  | patch | purge
deriving DecidableEq

/-- `method_strings`.  The map of the methods has `M - SEARCH`, with blanks. -/
def methodString : Method → List UInt8
  | .delete => (CString.lit "DELETE").bytes
  | .get => (CString.lit "GET").bytes
  | .head => (CString.lit "HEAD").bytes
  | .post => (CString.lit "POST").bytes
  | .put => (CString.lit "PUT").bytes
  | .connect => (CString.lit "CONNECT").bytes
  | .options => (CString.lit "OPTIONS").bytes
  | .trace => (CString.lit "TRACE").bytes
  | .copy => (CString.lit "COPY").bytes
  | .lock => (CString.lit "LOCK").bytes
  | .mkcol => (CString.lit "MKCOL").bytes
  | .move => (CString.lit "MOVE").bytes
  | .propfind => (CString.lit "PROPFIND").bytes
  | .proppatch => (CString.lit "PROPPATCH").bytes
  | .search => (CString.lit "SEARCH").bytes
  | .unlock => (CString.lit "UNLOCK").bytes
  | .report => (CString.lit "REPORT").bytes
  | .mkactivity => (CString.lit "MKACTIVITY").bytes
  | .checkout => (CString.lit "CHECKOUT").bytes
  | .merge => (CString.lit "MERGE").bytes
  | .msearch => (CString.lit "M - SEARCH").bytes
  | .notify => (CString.lit "NOTIFY").bytes
  | .subscribe => (CString.lit "SUBSCRIBE").bytes
  | .unsubscribe => (CString.lit "UNSUBSCRIBE").bytes
  | .patch => (CString.lit "PATCH").bytes
  | .purge => (CString.lit "PURGE").bytes

/-- `enum state`, without the states of responses. -/
inductive State
  | dead
  | startReq
  | reqMethod
  | reqSpacesBeforeUrl
  | reqSchema
  | reqSchemaSlash
  | reqSchemaSlashSlash
  | reqServerStart
  | reqServer
  | reqServerWithAt
  | reqPath
  | reqQueryStringStart
  | reqQueryString
  | reqFragmentStart
  | reqFragment
  | reqHttpStart
  | reqHttpH
  | reqHttpHT
  | reqHttpHTT
  | reqHttpHTTP
  | reqFirstHttpMajor
  | reqHttpMajor
  | reqFirstHttpMinor
  | reqHttpMinor
  | reqLineAlmostDone
  | headerFieldStart
  | headerField
  | headerValueStart
  | headerValue
  | headerValueLws
  | headerAlmostDone
  | chunkSizeStart
  | chunkSize
  | chunkParameters
  | chunkSizeAlmostDone
  | headersAlmostDone
  | headersDone
  | chunkData
  | chunkDataAlmostDone
  | chunkDataDone
  | bodyIdentity
  | messageDone
deriving DecidableEq

/-- `PARSING_HEADER`. -/
def State.parsingHeader : State → Bool
  | .chunkData | .chunkDataAlmostDone | .chunkDataDone | .bodyIdentity | .messageDone => false
  | _ => true

inductive HeaderState
  | general
  | c
  | co
  | con
  | matchingConnection
  | matchingProxyConnection
  | matchingContentLength
  | matchingTransferEncoding
  | matchingUpgrade
  | connection
  | contentLength
  | transferEncoding
  | upgrade
  | matchingTransferEncodingChunked
  | matchingConnectionKeepAlive
  | matchingConnectionClose
  | transferEncodingChunked
  | connectionKeepAlive
  | connectionClose
deriving DecidableEq

inductive Errno
  | ok
  | invalidEofState
  | headerOverflow
  | closedConnection
  | invalidVersion
  | invalidMethod
  | invalidUrl
  | lfExpected
  | invalidHeaderToken
  | invalidContentLength
  | invalidChunkSize
  | invalidConstant
  | strict
deriving DecidableEq

/-- The bits of `flags` that are set for requests; no callback here sets `F_SKIPBODY`. -/
structure Flags where
  chunked : Bool
  connectionKeepAlive : Bool
  connectionClose : Bool
  trailing : Bool
  upgrade : Bool
deriving DecidableEq

def Flags.none : Flags := ⟨false, false, false, false, false⟩

/-- `struct http_parser`. -/
structure Parser where
  flags : Flags
  state : State
  headerState : HeaderState
  index : Nat
  nread : Nat
  contentLength : Nat
  httpMajor : Nat
  httpMinor : Nat
  method : Method
  errno : Errno
  upgrade : Bool
deriving DecidableEq

/-- `http_parser_init(parser, HTTP_REQUEST)`. -/
def Parser.init : Parser :=
  ⟨.none, .startReq, .general, 0, 0, 0, 0, 0, .delete, .ok, false⟩

/-- `ULLONG_MAX`. -/
def ullongMax : Nat := 18446744073709551615

def httpMaxHeaderSize : Nat := 81920

/-- `++parser->index`, an `unsigned char`. -/
def bump (index : Nat) : Nat := (index + 1) % 256

/-- `http_should_keep_alive`; a request never needs the end of the stream. -/
def Parser.shouldKeepAlive (s : Parser) : Bool :=
  if 0 < s.httpMajor ∧ 0 < s.httpMinor then !s.flags.connectionClose
  else s.flags.connectionKeepAlive

/-- `NEW_MESSAGE`, strict. -/
def Parser.newMessage (s : Parser) : State := if s.shouldKeepAlive then .startReq else .dead

/-! ## A turn of the switch -/

/-- The strings that are reported in parts. -/
inductive Data
  | url
  | headerField
  | headerValue
  | body
deriving DecidableEq

/-- A macro that was run: `MARK`, a data callback with the number of bytes from the current
one on that belong to the part, or a notification. -/
inductive Act
  | mark (d : Data)
  | data (d : Data) (more : Nat)
  | headersComplete
  | messageComplete
deriving DecidableEq

inductive Ctrl
  -- `break`
  | next
  -- `return (p - data) + 1`
  | leave
  -- `goto error`
  | error
  | stuck
deriving DecidableEq

/-- The parser and the macros behind a turn, and the bytes that `p` is moved over besides the
current one. -/
structure Turn where
  parser : Parser
  acts : List Act
  ctrl : Ctrl
  skip : Nat
deriving DecidableEq

namespace Parser

def brk (s : Parser) : Turn := ⟨s, [], .next, 0⟩

/-- `SET_ERRNO(e); goto error`. -/
def fail (s : Parser) (e : Errno) : Turn := ⟨{ s with errno := e }, [], .error, 0⟩

/-- A failed `assert`. -/
def stuck (s : Parser) : Turn := ⟨s, [], .stuck, 0⟩

def goTo (s : Parser) (state : State) : Parser := { s with state := state }

end Parser

/-- The macro runs before the rest of the turn. -/
def Turn.after (acts : List Act) (t : Turn) : Turn := { t with acts := acts ++ t.acts }

/-! ### URLs -/

/-- `parse_url_char`, strict. -/
def parseUrlChar (s : State) (ch : UInt8) : State :=
  if ch = 32 ∨ ch = cr ∨ ch = lf ∨ ch = 9 ∨ ch = 12 then .dead
  else
    match s with
    | .reqSpacesBeforeUrl =>
        if ch = 47 ∨ ch = 42 then .reqPath
        else if isAlpha ch then .reqSchema
        else .dead
    | .reqSchema =>
        if isAlpha ch then .reqSchema
        else if ch = 58 then .reqSchemaSlash
        else .dead
    | .reqSchemaSlash => if ch = 47 then .reqSchemaSlashSlash else .dead
    | .reqSchemaSlashSlash => if ch = 47 then .reqServerStart else .dead
    | .reqServerWithAt => if ch = 64 then .dead else server ch
    | .reqServerStart => server ch
    | .reqServer => server ch
    | .reqPath =>
        if isUrlChar ch then .reqPath
        else if ch = 63 then .reqQueryStringStart
        else if ch = 35 then .reqFragmentStart
        else .dead
    | .reqQueryStringStart => queryString ch
    | .reqQueryString => queryString ch
    | .reqFragmentStart =>
        if isUrlChar ch then .reqFragment
        else if ch = 63 then .reqFragment
        else if ch = 35 then .reqFragmentStart
        else .dead
    | .reqFragment => if isUrlChar ch ∨ ch = 63 ∨ ch = 35 then .reqFragment else .dead
    | _ => .dead
where
  server (ch : UInt8) : State :=
    if ch = 47 then .reqPath
    else if ch = 63 then .reqQueryStringStart
    else if ch = 64 then .reqServerWithAt
    else if isUserinfoChar ch ∨ ch = 91 ∨ ch = 93 then .reqServer
    else .dead
  queryString (ch : UInt8) : State :=
    if isUrlChar ch then .reqQueryString
    else if ch = 63 then .reqQueryString
    else if ch = 35 then .reqFragmentStart
    else .dead

/-! ### The request line -/

/-- The `switch` of `s_start_req`. -/
def firstMethod (ch : UInt8) : Option Method :=
  if ch = 67 then some .connect
  else if ch = 68 then some .delete
  else if ch = 71 then some .get
  else if ch = 72 then some .head
  else if ch = 76 then some .lock
  else if ch = 77 then some .mkcol
  else if ch = 78 then some .notify
  else if ch = 79 then some .options
  else if ch = 80 then some .post
  else if ch = 82 then some .report
  else if ch = 83 then some .subscribe
  else if ch = 84 then some .trace
  else if ch = 85 then some .unlock
  else none

def caseStartReq (s : Parser) (ch : UInt8) : Turn :=
  if ch = cr ∨ ch = lf then s.brk
  else
    let s := { s with flags := .none, contentLength := ullongMax }
    if !isAlpha ch then s.fail .invalidMethod
    else
      let s := { s with method := .delete, index := 1 }
      match firstMethod ch with
      | none => s.fail .invalidMethod
      | some method => ({ s with method := method, state := .reqMethod } : Parser).brk

/-- The method that a byte which does not match changes to. -/
def nextMethod (method : Method) (index : Nat) (ch : UInt8) : Option Method :=
  if method = .connect then
    if index = 1 ∧ ch = 72 then some .checkout
    else if index = 2 ∧ ch = 80 then some .copy
    else none
  else if method = .mkcol then
    if index = 1 ∧ ch = 79 then some .move
    else if index = 1 ∧ ch = 69 then some .merge
    else if index = 1 ∧ ch = 45 then some .msearch
    else if index = 2 ∧ ch = 65 then some .mkactivity
    else none
  else if method = .subscribe then
    if index = 1 ∧ ch = 69 then some .search else none
  else if index = 1 ∧ method = .post then
    if ch = 82 then some .propfind
    else if ch = 85 then some .put
    else if ch = 65 then some .patch
    else none
  else if index = 2 then
    if method = .put then
      if ch = 82 then some .purge else none
    else if method = .unlock then
      if ch = 83 then some .unsubscribe else none
    else none
  else if index = 4 ∧ method = .propfind ∧ ch = 80 then some .proppatch
  else none

def caseReqMethod (s : Parser) (ch : UInt8) : Turn :=
  if ch = 0 then s.fail .invalidMethod
  else if (methodString s.method).length < s.index then s.stuck
  else
    -- 0 is the terminator
    let expected := (methodString s.method).getD s.index 0
    if ch = 32 ∧ expected = 0 then
      ({ s with state := .reqSpacesBeforeUrl, index := bump s.index } : Parser).brk
    else if ch = expected then ({ s with index := bump s.index } : Parser).brk
    else
      match nextMethod s.method s.index ch with
      | none => s.fail .invalidMethod
      | some method => ({ s with method := method, index := bump s.index } : Parser).brk

/-- The state behind one more byte of a URL. -/
def urlByte (s : Parser) (ch : UInt8) : Turn :=
  let state := parseUrlChar s.state ch
  if state = .dead then (s.goTo .dead).fail .invalidUrl else (s.goTo state).brk

def caseReqSpacesBeforeUrl (s : Parser) (ch : UInt8) : Turn :=
  if ch = 32 then s.brk
  else
    let s := if s.method = .connect then s.goTo .reqServerStart else s
    (urlByte s ch).after [.mark .url]

/-- The states in front of a server. -/
def caseReqSchema (s : Parser) (ch : UInt8) : Turn :=
  if ch = 32 ∨ ch = cr ∨ ch = lf then s.fail .invalidUrl else urlByte s ch

/-- The states in which a URL may end; without a version it is HTTP/0.9. -/
def caseReqUrl (s : Parser) (ch : UInt8) : Turn :=
  if ch = 32 then (s.goTo .reqHttpStart).brk.after [.data .url 0]
  else if ch = cr ∨ ch = lf then
    let state := if ch = cr then State.reqLineAlmostDone else .headerFieldStart
    ({ s with httpMajor := 0, httpMinor := 9, state := state } : Parser).brk.after [.data .url 0]
  else urlByte s ch

def caseReqHttpStart (s : Parser) (ch : UInt8) : Turn :=
  if ch = 72 then (s.goTo .reqHttpH).brk
  else if ch = 32 then s.brk
  else s.fail .invalidConstant

/-- `STRICT_CHECK(ch != expected)` and the next state. -/
def strictByte (expected : UInt8) (state : State) (s : Parser) (ch : UInt8) : Turn :=
  if ch ≠ expected then s.fail .strict else (s.goTo state).brk

def caseReqFirstHttpMajor (s : Parser) (ch : UInt8) : Turn :=
  if !(49 ≤ ch && ch ≤ 57) then s.fail .invalidVersion
  else ({ s with httpMajor := ch.toNat - 48, state := .reqHttpMajor } : Parser).brk

def caseReqHttpMajor (s : Parser) (ch : UInt8) : Turn :=
  if ch = 46 then (s.goTo .reqFirstHttpMinor).brk
  else if !isNum ch then s.fail .invalidVersion
  else
    let s := { s with httpMajor := s.httpMajor * 10 + (ch.toNat - 48) }
    if 999 < s.httpMajor then s.fail .invalidVersion else s.brk

def caseReqFirstHttpMinor (s : Parser) (ch : UInt8) : Turn :=
  if !isNum ch then s.fail .invalidVersion
  else ({ s with httpMinor := ch.toNat - 48, state := .reqHttpMinor } : Parser).brk

def caseReqHttpMinor (s : Parser) (ch : UInt8) : Turn :=
  if ch = cr then (s.goTo .reqLineAlmostDone).brk
  else if ch = lf then (s.goTo .headerFieldStart).brk
  else if !isNum ch then s.fail .invalidVersion
  else
    let s := { s with httpMinor := s.httpMinor * 10 + (ch.toNat - 48) }
    if 999 < s.httpMinor then s.fail .invalidVersion else s.brk

def caseReqLineAlmostDone (s : Parser) (ch : UInt8) : Turn :=
  if ch ≠ lf then s.fail .lfExpected else (s.goTo .headerFieldStart).brk

/-! ### The end of the headers and of a message -/

/-- `state = NEW_MESSAGE(); CALLBACK_NOTIFY(message_complete)`, wherever a message ends. -/
def caseMessageDone (s : Parser) : Turn := (s.goTo s.newMessage).brk.after [.messageComplete]

def caseHeadersDone (s : Parser) (ch : UInt8) : Turn :=
  if ch ≠ lf then s.fail .strict
  else
    let s := { s with nread := 0 }
    if s.upgrade then { caseMessageDone s with ctrl := .leave }
    else if s.flags.chunked then (s.goTo .chunkSizeStart).brk
    else if s.contentLength = 0 then caseMessageDone s
    else if s.contentLength ≠ ullongMax then (s.goTo .bodyIdentity).brk
    -- without a length the request has no body
    else caseMessageDone s

def caseHeadersAlmostDone (s : Parser) (ch : UInt8) : Turn :=
  if ch ≠ lf then s.fail .strict
  else if s.flags.trailing then caseMessageDone s
  else
    let s := { s with
      state := .headersDone
      upgrade := s.flags.upgrade || s.method == .connect }
    (caseHeadersDone s ch).after [.headersComplete]

/-! ### Header fields -/

/-- The `switch (c)` of `s_header_field_start`. -/
def firstHeaderState (c : UInt8) : HeaderState :=
  if c = 99 then .c
  else if c = 112 then .matchingProxyConnection
  else if c = 116 then .matchingTransferEncoding
  else if c = 117 then .matchingUpgrade
  else .general

def caseHeaderFieldStart (s : Parser) (ch : UInt8) : Turn :=
  if ch = cr then (s.goTo .headersAlmostDone).brk
  else if ch = lf then caseHeadersAlmostDone (s.goTo .headersAlmostDone) ch
  else
    let c := token ch
    if c = 0 then s.fail .invalidHeaderToken
    else
      ({ s with index := 0, state := .headerField, headerState := firstHeaderState c } :
        Parser).brk.after [.mark .headerField]

def connectionName : List UInt8 := (CString.lit "connection").bytes
def proxyConnectionName : List UInt8 := (CString.lit "proxy-connection").bytes
def contentLengthName : List UInt8 := (CString.lit "content-length").bytes
def transferEncodingName : List UInt8 := (CString.lit "transfer-encoding").bytes
def upgradeName : List UInt8 := (CString.lit "upgrade").bytes
def chunkedText : List UInt8 := (CString.lit "chunked").bytes
def keepAliveText : List UInt8 := (CString.lit "keep-alive").bytes
def closeText : List UInt8 := (CString.lit "close").bytes

/-- One more byte of a name or a value that is compared with `text`; `sizeof` counts the
terminator. -/
def matching (text : List UInt8) (done : HeaderState) (s : Parser) (c : UInt8) : Parser :=
  let index := bump s.index
  if text.length < index ∨ c ≠ text.getD index 0 then
    { s with index := index, headerState := .general }
  else if index + 1 = text.length then { s with index := index, headerState := done }
  else { s with index := index }

/-- A byte of a name in front of the place where the names with `con` part. -/
def matchingStart (expected : UInt8) (next : HeaderState) (s : Parser) (c : UInt8) : Parser :=
  { s with index := bump s.index, headerState := if c = expected then next else .general }

/-- The `switch (parser->header_state)` of `s_header_field`; `none` is the `assert`. -/
def headerNameByte (s : Parser) (ch c : UInt8) : Option Parser :=
  match s.headerState with
  | .general => some s
  | .c => some (matchingStart 111 .co s c)
  | .co => some (matchingStart 110 .con s c)
  | .con =>
      some { s with
        index := bump s.index
        headerState :=
          if c = 110 then .matchingConnection
          else if c = 116 then .matchingContentLength
          else .general }
  | .matchingConnection => some (matching connectionName .connection s c)
  | .matchingProxyConnection => some (matching proxyConnectionName .connection s c)
  | .matchingContentLength => some (matching contentLengthName .contentLength s c)
  | .matchingTransferEncoding => some (matching transferEncodingName .transferEncoding s c)
  | .matchingUpgrade => some (matching upgradeName .upgrade s c)
  | .connection | .contentLength | .transferEncoding | .upgrade =>
      some (if ch ≠ 32 then { s with headerState := .general } else s)
  | _ => none

def caseHeaderField (s : Parser) (ch : UInt8) : Turn :=
  let c := token ch
  if c ≠ 0 then
    match headerNameByte s ch c with
    | some s => s.brk
    | none => s.stuck
  else if ch = 58 then (s.goTo .headerValueStart).brk.after [.data .headerField 0]
  else if ch = cr then (s.goTo .headerAlmostDone).brk.after [.data .headerField 0]
  else if ch = lf then (s.goTo .headerFieldStart).brk.after [.data .headerField 0]
  else s.fail .invalidHeaderToken

/-! ### Header values -/

/-- The first byte of a value, by the name; `none` is `HPE_INVALID_CONTENT_LENGTH`. -/
def firstValueByte (s : Parser) (ch : UInt8) : Option Parser :=
  let c := lower ch
  match s.headerState with
  | .upgrade =>
      some { s with flags := { s.flags with upgrade := true }, headerState := .general }
  | .transferEncoding =>
      some { s with
        headerState := if c = 99 then .matchingTransferEncodingChunked else .general }
  | .contentLength => if isNum ch then some { s with contentLength := ch.toNat - 48 } else none
  | .connection =>
      some { s with
        headerState :=
          if c = 107 then .matchingConnectionKeepAlive
          else if c = 99 then .matchingConnectionClose
          else .general }
  | _ => some { s with headerState := .general }

def caseHeaderValueStart (s : Parser) (ch : UInt8) : Turn :=
  if ch = 32 ∨ ch = 9 then s.brk
  else
    let s := { s with state := .headerValue, index := 0 }
    Turn.after [.mark .headerValue] <|
      if ch = cr then
        ({ s with headerState := .general, state := .headerAlmostDone } : Parser).brk.after
          [.data .headerValue 0]
      else if ch = lf then
        (s.goTo .headerFieldStart).brk.after [.data .headerValue 0]
      else
        match firstValueByte s ch with
        | some s => s.brk
        | none => s.fail .invalidContentLength

/-- The flag that a value sets at its end. -/
def Flags.ofHeader (flags : Flags) : HeaderState → Flags
  | .connectionKeepAlive => { flags with connectionKeepAlive := true }
  | .connectionClose => { flags with connectionClose := true }
  | .transferEncodingChunked => { flags with chunked := true }
  | _ => flags

def caseHeaderAlmostDone (s : Parser) (ch : UInt8) : Turn :=
  if ch ≠ lf then s.fail .strict
  else
    ({ s with state := .headerValueLws, flags := s.flags.ofHeader s.headerState } : Parser).brk

/-- One more digit of a length, in 64 bits; `none` where the test for an overflow holds. -/
def addDigit (base contentLength digit : Nat) : Option Nat :=
  let t := (contentLength * base + digit) % 18446744073709551616
  if t < contentLength ∨ t = ullongMax then none else some t

/-- The `switch (parser->header_state)` of `s_header_value`. -/
def valueByte (s : Parser) (ch : UInt8) : Turn :=
  let c := lower ch
  match s.headerState with
  | .general => s.brk
  | .connection | .transferEncoding => s.stuck
  | .contentLength =>
      if ch = 32 then s.brk
      else if !isNum ch then s.fail .invalidContentLength
      else
        match addDigit 10 s.contentLength (ch.toNat - 48) with
        | some t => ({ s with contentLength := t } : Parser).brk
        | none => s.fail .invalidContentLength
  | .matchingTransferEncodingChunked =>
      (matching chunkedText .transferEncodingChunked s c).brk
  | .matchingConnectionKeepAlive => (matching keepAliveText .connectionKeepAlive s c).brk
  | .matchingConnectionClose => (matching closeText .connectionClose s c).brk
  | .transferEncodingChunked | .connectionKeepAlive | .connectionClose =>
      if ch ≠ 32 then ({ s with headerState := .general } : Parser).brk else s.brk
  | _ => ({ s with state := .headerValue, headerState := .general } : Parser).brk

def caseHeaderValue (s : Parser) (ch : UInt8) : Turn :=
  if ch = cr then (s.goTo .headerAlmostDone).brk.after [.data .headerValue 0]
  else if ch = lf then
    (caseHeaderAlmostDone (s.goTo .headerAlmostDone) ch).after [.data .headerValue 0]
  else valueByte s ch

def caseHeaderValueLws (s : Parser) (ch : UInt8) : Turn :=
  if ch = 32 ∨ ch = 9 then (s.goTo .headerValueStart).brk
  else caseHeaderFieldStart (s.goTo .headerFieldStart) ch

/-! ### Bodies; `avail` is `(data + len) - p` -/

def caseBodyIdentity (s : Parser) (avail : Nat) : Turn :=
  if s.contentLength = 0 ∨ s.contentLength = ullongMax then s.stuck
  else
    let toRead := min s.contentLength avail
    let s := { s with contentLength := s.contentLength - toRead }
    if s.contentLength = 0 then
      { (caseMessageDone (s.goTo .messageDone)).after [.mark .body, .data .body toRead] with
        skip := toRead - 1 }
    else { s.brk.after [.mark .body] with skip := toRead - 1 }

def caseChunkSizeStart (s : Parser) (ch : UInt8) : Turn :=
  if s.nread ≠ 1 ∨ !s.flags.chunked then s.stuck
  else
    match unhex ch with
    | none => s.fail .invalidChunkSize
    | some digit => ({ s with contentLength := digit, state := .chunkSize } : Parser).brk

def caseChunkSize (s : Parser) (ch : UInt8) : Turn :=
  if !s.flags.chunked then s.stuck
  else if ch = cr then (s.goTo .chunkSizeAlmostDone).brk
  else
    match unhex ch with
    | none =>
        if ch = 59 ∨ ch = 32 then (s.goTo .chunkParameters).brk else s.fail .invalidChunkSize
    | some digit =>
        match addDigit 16 s.contentLength digit with
        | some t => ({ s with contentLength := t } : Parser).brk
        | none => s.fail .invalidContentLength

def caseChunkParameters (s : Parser) (ch : UInt8) : Turn :=
  if !s.flags.chunked then s.stuck
  else if ch = cr then (s.goTo .chunkSizeAlmostDone).brk
  else s.brk

def caseChunkSizeAlmostDone (s : Parser) (ch : UInt8) : Turn :=
  if !s.flags.chunked then s.stuck
  else if ch ≠ lf then s.fail .strict
  else
    let s := { s with nread := 0 }
    if s.contentLength = 0 then
      ({ s with flags := { s.flags with trailing := true }, state := .headerFieldStart } :
        Parser).brk
    else (s.goTo .chunkData).brk

def caseChunkData (s : Parser) (avail : Nat) : Turn :=
  if !s.flags.chunked ∨ s.contentLength = 0 ∨ s.contentLength = ullongMax then s.stuck
  else
    let toRead := min s.contentLength avail
    let s := { s with contentLength := s.contentLength - toRead }
    let s := if s.contentLength = 0 then s.goTo .chunkDataAlmostDone else s
    { s.brk.after [.mark .body] with skip := toRead - 1 }

def caseChunkDataAlmostDone (s : Parser) (ch : UInt8) : Turn :=
  if !s.flags.chunked ∨ s.contentLength ≠ 0 then s.stuck
  else if ch ≠ cr then s.fail .strict
  else (s.goTo .chunkDataDone).brk.after [.data .body 0]

def caseChunkDataDone (s : Parser) (ch : UInt8) : Turn :=
  if !s.flags.chunked then s.stuck
  else if ch ≠ lf then s.fail .strict
  else ({ s with nread := 0, state := .chunkSizeStart } : Parser).brk

def caseDead (s : Parser) (ch : UInt8) : Turn :=
  if ch = cr ∨ ch = lf then s.brk else s.fail .closedConnection

/-- `switch (parser->state)`. -/
def Parser.turn (s : Parser) (ch : UInt8) (avail : Nat) : Turn :=
  match s.state with
  | .dead => caseDead s ch
  | .startReq => caseStartReq s ch
  | .reqMethod => caseReqMethod s ch
  | .reqSpacesBeforeUrl => caseReqSpacesBeforeUrl s ch
  | .reqSchema | .reqSchemaSlash | .reqSchemaSlashSlash | .reqServerStart => caseReqSchema s ch
  | .reqServer | .reqServerWithAt | .reqPath | .reqQueryStringStart | .reqQueryString
  | .reqFragmentStart | .reqFragment => caseReqUrl s ch
  | .reqHttpStart => caseReqHttpStart s ch
  | .reqHttpH => strictByte 84 .reqHttpHT s ch
  | .reqHttpHT => strictByte 84 .reqHttpHTT s ch
  | .reqHttpHTT => strictByte 80 .reqHttpHTTP s ch
  | .reqHttpHTTP => strictByte 47 .reqFirstHttpMajor s ch
  | .reqFirstHttpMajor => caseReqFirstHttpMajor s ch
  | .reqHttpMajor => caseReqHttpMajor s ch
  | .reqFirstHttpMinor => caseReqFirstHttpMinor s ch
  | .reqHttpMinor => caseReqHttpMinor s ch
  | .reqLineAlmostDone => caseReqLineAlmostDone s ch
  | .headerFieldStart => caseHeaderFieldStart s ch
  | .headerField => caseHeaderField s ch
  | .headerValueStart => caseHeaderValueStart s ch
  | .headerValue => caseHeaderValue s ch
  | .headerValueLws => caseHeaderValueLws s ch
  | .headerAlmostDone => caseHeaderAlmostDone s ch
  | .chunkSizeStart => caseChunkSizeStart s ch
  | .chunkSize => caseChunkSize s ch
  | .chunkParameters => caseChunkParameters s ch
  | .chunkSizeAlmostDone => caseChunkSizeAlmostDone s ch
  | .headersAlmostDone => caseHeadersAlmostDone s ch
  | .headersDone => caseHeadersDone s ch
  | .chunkData => caseChunkData s avail
  | .chunkDataAlmostDone => caseChunkDataAlmostDone s ch
  | .chunkDataDone => caseChunkDataDone s ch
  | .bodyIdentity => caseBodyIdentity s avail
  | .messageDone => caseMessageDone s

end Machine
end Http
end TcMuzi
