import TcMuzi.Http.WellFormed

/-!
# Chunked bodies

The size in front of a chunk may be spelled in any hexadecimal digits.  The parser gives out
the bytes of the chunks, one chunk behind the other, and nothing else.
-/

namespace TcMuzi
namespace Http
namespace Machine

open Base Lib

/-! ## Chunks -/

/-- A digit, in upper or lower case. -/
def isHexDigit (b : UInt8) : Bool :=
  (48 ≤ b && b ≤ 57) || (65 ≤ b && b ≤ 70) || (97 ≤ b && b ≤ 102)

def hexDigit (b : UInt8) : Nat :=
  if b ≤ 57 then b.toNat - 48 else if b ≤ 70 then b.toNat - 55 else b.toNat - 87

/-- The number that hexadecimal digits behind other ones make. -/
def hexFrom (n : Nat) (digits : List UInt8) : Nat :=
  digits.foldl (fun n b => n * 16 + hexDigit b) n

/-- A chunk with its size as it is spelled. -/
structure Chunk where
  digits : List UInt8
  data : List UInt8
  digits_ne : digits ≠ []
  isHexDigit : ∀ b ∈ digits, isHexDigit b = true
  size : hexFrom 0 digits = data.length
  data_ne : data ≠ []
  data_lt : data.length < ullongMax
  digits_fit : digits.length + 2 ≤ httpMaxHeaderSize

def Chunk.bytes (c : Chunk) : List UInt8 := c.digits ++ [13, 10] ++ (c.data ++ [13, 10])

/-- A body in chunks, with the last one, which is empty, and no trailer. -/
def chunkedBytes (chunks : List Chunk) : List UInt8 :=
  chunks.flatMap Chunk.bytes ++ [48, 13, 10, 13, 10]

theorem unhex_of_isHexDigit {b : UInt8} (h : Machine.isHexDigit b = true) :
    unhex b = some (hexDigit b) ∧ b ≠ cr := by
  have hall : ∀ n < 256, Machine.isHexDigit (UInt8.ofNat n) = true →
      unhex (UInt8.ofNat n) = some (hexDigit (UInt8.ofNat n)) ∧ UInt8.ofNat n ≠ cr := by
    decide +kernel
  have hone := hall b.toNat b.toNat_lt
  rw [UInt8.ofNat_toNat] at hone
  exact hone h

theorem le_hexFrom (digits : List UInt8) (n : Nat) : n ≤ hexFrom n digits := by
  induction digits generalizing n with
  | nil => exact le_rfl
  | cons b digits ih => exact (by omega : n ≤ n * 16 + hexDigit b).trans (ih _)

/-! ## Sizes -/

/-- The parser in front of a chunk. -/
structure Parser.AtChunk (s : Parser) : Prop where
  sound : s.Sound
  state : s.state = .chunkSizeStart
  nread : s.nread = 0
  chunked : s.flags.chunked = true

/-- The first digit of a size. -/
theorem unlimited_sizeStart {s : Parser} (h : s.AtChunk) {b : UInt8}
    (hdigit : Machine.isHexDigit b = true) :
    unlimited s b = .go { s with contentLength := hexDigit b, state := .chunkSize, nread := 1 } [] := by
  refine unlimited_brk ?_ (by rw [h.state]; nofun) (by rw [h.state]; nofun) rfl
  rw [count_of_header (by rw [h.state]; rfl), h.nread]
  unfold Parser.turn
  simp only [h.state]
  unfold caseChunkSizeStart
  simp [h.chunked, (unhex_of_isHexDigit hdigit).1]

/-- The next one. -/
theorem unlimited_sizeByte {s : Parser} (h : s.state = .chunkSize)
    (hchunked : s.flags.chunked = true) {b : UInt8} (hdigit : Machine.isHexDigit b = true)
    (hfits : s.contentLength * 16 + hexDigit b < ullongMax) :
    unlimited s b = .go { s with
      contentLength := s.contentLength * 16 + hexDigit b, nread := s.nread + 1 } [] := by
  obtain ⟨hunhex, hcr⟩ := unhex_of_isHexDigit hdigit
  have hadd : addDigit 16 s.contentLength (hexDigit b) =
      some (s.contentLength * 16 + hexDigit b) := by
    unfold ullongMax at hfits
    unfold addDigit ullongMax
    dsimp only
    rw [Nat.mod_eq_of_lt (by omega), if_neg (by omega)]
  refine unlimited_brk ?_ (by rw [h]; nofun) (by rw [h]; nofun) (by rw [show _ = s.state from rfl, h]; rfl)
  rw [count_of_header (by rw [h]; rfl)]
  unfold Parser.turn
  simp only [h]
  unfold caseChunkSize
  simp [hchunked, hunhex, hcr, hadd]

theorem takes_sizeBytes (digits : List UInt8) : ∀ {s : Parser}, s.state = .chunkSize →
    s.flags.chunked = true → (∀ b ∈ digits, Machine.isHexDigit b = true) →
      hexFrom s.contentLength digits < ullongMax →
      Takes unlimited s digits { s with
        contentLength := hexFrom s.contentLength digits, nread := s.nread + digits.length } [] := by
  induction digits with
  | nil => exact fun _ _ _ _ => Takes.nil _
  | cons b digits ih =>
      intro s h hchunked hdigits hfits
      have hnext : hexFrom s.contentLength (b :: digits) =
          hexFrom (s.contentLength * 16 + hexDigit b) digits := rfl
      rw [hnext] at hfits ⊢
      have hfirst := unlimited_sizeByte h hchunked (hdigits b List.mem_cons_self)
        ((le_hexFrom digits _).trans_lt hfits)
      have hrest := ih (s := { s with
        contentLength := s.contentLength * 16 + hexDigit b, nread := s.nread + 1 })
        h hchunked (fun b hb => hdigits b (List.mem_cons_of_mem _ hb)) hfits
      have hsum : s.nread + 1 + digits.length = s.nread + (b :: digits).length := by
        rw [List.length_cons]
        omega
      rw [← hsum]
      exact Takes.cons hfirst hrest

/-- The end of the line behind the size of a chunk. -/
theorem takes_sizeEnd {s : Parser} (h : s.state = .chunkSize) (hchunked : s.flags.chunked = true) :
    Takes unlimited s [13, 10] (if s.contentLength = 0 then { s with
        nread := 0, flags := { s.flags with trailing := true }, state := .headerFieldStart }
      else { s with nread := 0, state := .chunkData }) [] := by
  have hcr : unlimited s 13 =
      .go { s with state := .chunkSizeAlmostDone, nread := s.nread + 1 } [] := by
    refine unlimited_brk ?_ (by rw [h]; decide) (by rw [h]; decide) rfl
    rw [count_of_header (by rw [h]; rfl)]
    unfold Parser.turn
    simp only [h]
    unfold caseChunkSize
    simp [hchunked, cr, Parser.goTo]
  refine Takes.cons (o := []) hcr (Takes.single ?_)
  refine unlimited_brk ?_ (fun h => by cases h) (fun h => by cases h) ?_
  · rw [count_of_header rfl]
    show caseChunkSizeAlmostDone _ 10 = _
    unfold caseChunkSizeAlmostDone
    simp only [hchunked, lf, Parser.goTo]
    split_ifs <;> first | rfl | contradiction
  · split_ifs <;> rfl

/-- A size and the end of its line. -/
theorem takes_size {s : Parser} (h : s.AtChunk) {digits : List UInt8} (hne : digits ≠ [])
    (hdigits : ∀ b ∈ digits, Machine.isHexDigit b = true) (hfits : hexFrom 0 digits < ullongMax)
    (hshort : digits.length + 2 ≤ httpMaxHeaderSize) :
    Takes react s (digits ++ [13, 10]) (if hexFrom 0 digits = 0 then { s with
        nread := 0, contentLength := 0, flags := { s.flags with trailing := true }
        state := .headerFieldStart }
      else { s with nread := 0, contentLength := hexFrom 0 digits, state := .chunkData }) [] := by
  obtain ⟨b, digits, rfl⟩ := List.exists_cons_of_ne_nil hne
  have hvalue : hexFrom (hexDigit b) digits = hexFrom 0 (b :: digits) := by
    show _ = hexFrom (0 * 16 + _) digits
    rw [Nat.zero_mul, Nat.zero_add]
  have hfirst := unlimited_sizeStart h (hdigits b List.mem_cons_self)
  have hrest := takes_sizeBytes digits (s := { s with
    contentLength := hexDigit b, state := .chunkSize, nread := 1 }) rfl h.chunked
    (fun b hb => hdigits b (List.mem_cons_of_mem _ hb)) (by rwa [hvalue])
  have hend := takes_sizeEnd (s := { s with
    contentLength := hexFrom (hexDigit b) digits, state := .chunkSize
    nread := 1 + digits.length }) rfl h.chunked
  have hall := (Takes.cons hfirst hrest).append hend
  rw [hvalue] at hall
  refine takes_of_unlimited ?_ h.sound (by rw [h.nread]; simp at hshort ⊢; omega)
  by_cases hzero : hexFrom 0 (b :: digits) = 0
  · rw [if_pos hzero]
    simp only [hzero, if_true] at hall
    exact hall
  · rw [if_neg hzero]
    simp only [hzero, if_false] at hall
    exact hall

/-! ## Bodies -/

theorem react_of_body {s : Parser} (h : s.state.parsingHeader = false) (ch : UInt8) :
    react s ch = unlimited s ch := by
  refine if_neg fun hover => ?_
  have hheader := hover.1
  rw [h] at hheader
  cases hheader

/-- The end of the line behind the bytes of a chunk. -/
theorem takes_chunkEnd {s : Parser} (h : s.state = .chunkDataAlmostDone)
    (hchunked : s.flags.chunked = true) (hzero : s.contentLength = 0) :
    Takes react s [13, 10] { s with state := .chunkSizeStart, nread := 0 } [] := by
  have hcr : react s 13 = .go { s with state := .chunkDataDone } [] := by
    rw [react_of_body (by rw [h]; rfl)]
    have hcount : s.count = s := if_neg (by rw [h]; decide)
    refine unlimited_go (a := [.data .body 0]) ?_ (by rw [h]; rfl)
    rw [hcount]
    unfold Parser.turn
    simp only [h]
    unfold caseChunkDataAlmostDone
    simp [hchunked, hzero, cr, Parser.goTo]
  have hlf : react { s with state := .chunkDataDone } 10 =
      .go { s with state := .chunkSizeStart, nread := 0 } [] := by
    rw [react_of_body rfl]
    refine unlimited_brk ?_ (fun h => by cases h) (fun h => by cases h) rfl
    show caseChunkDataDone _ 10 = _
    unfold caseChunkDataDone
    simp [hchunked, lf, Parser.count, State.parsingHeader]
  exact Takes.cons (o := []) hcr (Takes.single hlf)

theorem takes_chunk {s : Parser} (h : s.AtChunk) (c : Chunk) :
    Takes react s c.bytes { s with contentLength := 0 } (c.data.map (.data .body)) := by
  have hpos := List.length_pos_iff.mpr c.data_ne
  have hsize := takes_size h c.digits_ne c.isHexDigit (by rw [c.size]; exact c.data_lt) c.digits_fit
  rw [c.size, if_neg hpos.ne'] at hsize
  have hinBody : ({ s with
      nread := 0, contentLength := c.data.length, state := .chunkData } : Parser).InBody
        c.data.length := ⟨.inr rfl, fun _ => h.chunked, rfl, hpos, c.data_lt⟩
  have hdata := takes_body_last hinBody (Eq.refl c.data.length)
  have hend := takes_chunkEnd (s := { s with
    nread := 0, contentLength := 0, state := .chunkDataAlmostDone }) rfl h.chunked rfl
  have hall := hsize.append (hdata.append hend)
  have hback : ({ s with nread := 0, contentLength := 0, state := .chunkSizeStart } : Parser) =
      { s with contentLength := 0 } := by rw [← h.state, ← h.nread]
  have hacts : (({ s with
      nread := 0, contentLength := c.data.length, state := .chunkData } : Parser).bodyActs
        c.data.length).flatMap Act.notes = [] := rfl
  rw [List.nil_append, List.append_nil, hacts, List.append_nil] at hall
  rw [← hback]
  exact hall

theorem Parser.AtChunk.next {s s' : Parser} (h : s.AtChunk) {word : List UInt8} {out : List Event}
    (htakes : Takes react s word s' out) (hstate : s'.state = .chunkSizeStart) (hnread : s'.nread = 0)
    (hchunked : s'.flags.chunked = true) : s'.AtChunk := by
  have hstops := (feed_stops h.sound word).1
  rw [show feed react s word = _ from htakes] at hstops
  exact ⟨(hstops rfl).1, hstate, hnread, hchunked⟩

theorem takes_chunks (chunks : List Chunk) : ∀ {s : Parser}, s.AtChunk →
    ∃ length, Takes react s (chunks.flatMap Chunk.bytes) { s with contentLength := length }
        ((chunks.flatMap Chunk.data).map (.data .body)) ∧
      ({ s with contentLength := length } : Parser).AtChunk := by
  induction chunks with
  | nil => exact fun h => ⟨_, Takes.nil _, h⟩
  | cons c chunks ih =>
      intro s h
      have hfirst := takes_chunk h c
      obtain ⟨length, hrest, hat⟩ := ih (h.next hfirst h.state h.nread h.chunked)
      refine ⟨length, ?_, hat⟩
      rw [List.flatMap_cons, List.flatMap_cons, List.map_append]
      exact hfirst.append hrest

/-- The last chunk and the empty line behind it. -/
theorem takes_lastChunk {s : Parser} (h : s.AtChunk) :
    Takes react s [48, 13, 10, 13, 10] { s with
      contentLength := 0, flags := { s.flags with trailing := true }, nread := 2
      state := s.newMessage } [.messageComplete] := by
  have hsize := takes_size h (show ([48] : List UInt8) ≠ [] by decide)
    (by decide +kernel) (by decide) (by decide)
  rw [if_pos (by decide)] at hsize
  have hsound := (feed_stops h.sound [48, 13, 10]).1
  rw [show feed react s [48, 13, 10] = _ from hsize] at hsound
  have hcr := unlimited_headCr (s := { s with
    nread := 0, contentLength := 0, flags := { s.flags with trailing := true }
    state := .headerFieldStart }) rfl
  have hlf : unlimited { s with
      nread := 1, contentLength := 0, flags := { s.flags with trailing := true }
      state := .headersAlmostDone } 10 = .go { s with
        contentLength := 0, flags := { s.flags with trailing := true }, nread := 2
        state := s.newMessage } [.messageComplete] := by
    refine unlimited_go (a := [.messageComplete]) rfl ?_
    have hmarked : datum .headersAlmostDone s.newMessage = none := marked_newMessage s
    show ((datum .headersAlmostDone s.newMessage).map _).toList ++ _ = _
    rw [hmarked]
    rfl
  exact hsize.append (takes_of_unlimited (Takes.cons (o := []) hcr (Takes.single hlf))
    (hsound rfl).1 (show 0 + 2 ≤ httpMaxHeaderSize by decide))

/-- The bytes of the chunks are given out, one chunk behind the other. -/
theorem takes_chunkedBytes {s : Parser} (h : s.AtChunk) (chunks : List Chunk) :
    Takes react s (chunkedBytes chunks) { s with
      contentLength := 0, flags := { s.flags with trailing := true }, nread := 2
      state := s.newMessage }
      ((chunks.flatMap Chunk.data).map (.data .body) ++ [.messageComplete]) := by
  obtain ⟨length, hchunks, hat⟩ := takes_chunks chunks h
  exact hchunks.append (takes_lastChunk hat)

/-! ## Requests -/

def transferEncodingLine : List UInt8 := (CString.lit "Transfer-Encoding: chunked").bytes

/-- A well-formed request with a chunked body: one `Transfer-Encoding`, no `Connection` and no
`Upgrade`, no extensions of the chunks and no trailers. -/
structure ChunkedRequest where
  method : List UInt8
  url : List UInt8
  before : List (List UInt8)
  behind : List (List UInt8)
  chunks : List Chunk
  method_mem : method ∈ methods
  url_slash : url.head? = some 47
  url_visible : ∀ b ∈ url, 33 ≤ b ∧ b ≤ 126
  isField : ∀ line ∈ before ++ behind, IsField line

namespace ChunkedRequest

def head (r : ChunkedRequest) : List UInt8 :=
  headLines (requestLine r.method r.url :: (r.before ++ transferEncodingLine :: r.behind)) ++ [13, 10]

def bytes (r : ChunkedRequest) : List UInt8 := r.head ++ chunkedBytes r.chunks

/-- What the parser gives out for it. -/
def events (r : ChunkedRequest) : List Event :=
  r.url.map (.data .url) ++ (r.before ++ transferEncodingLine :: r.behind).flatMap fieldEvents ++
    .headersComplete :: ((r.chunks.flatMap Chunk.data).map (.data .body) ++ [.messageComplete])

end ChunkedRequest

theorem takes_plainFields (lines : List (List UInt8)) : ∀ {s : Parser}, s.state.atField = true →
    (∀ line ∈ lines, IsField line) →
      ∃ (state : State) (headerState : HeaderState) (index n : Nat), state.atField = true ∧
        Takes unlimited s (headLines lines) { s with
          state := state, headerState := headerState, index := index, nread := n }
          (lines.flatMap fieldEvents) := by
  induction lines with
  | nil => exact fun h _ => ⟨_, _, _, _, h, Takes.nil _⟩
  | cons line lines ih =>
      intro s h hlines
      obtain ⟨headerState, index, n, hfirst⟩ := takes_field h (hlines line List.mem_cons_self)
      obtain ⟨state, headerState', index', n', hfield, hrest⟩ := ih (s := { s with
        state := .headerValueLws, headerState := headerState, index := index, nread := n }) rfl
        fun line' hline' => hlines line' (List.mem_cons_of_mem line hline')
      exact ⟨state, headerState', index', n', hfield, hfirst.append hrest⟩

/-- The field that announces chunks. -/
theorem takes_transferEncoding {s : Parser} (h : s.state.atField = true) :
    ∃ headerState index n, Takes unlimited s (transferEncodingLine ++ [13, 10]) { s with
      state := .headerValueLws, headerState := headerState, index := index, nread := n
      flags := { s.flags with chunked := true } } (fieldEvents transferEncodingLine) := by
  have hlower : (CString.lit "Transfer-Encoding").bytes.map token = transferEncodingName := by decide
  obtain ⟨headerState, index, n, hnamed, hname⟩ := takes_name h
    (show (CString.lit "Transfer-Encoding").bytes ≠ [] by decide) (by decide +kernel)
  rw [hlower] at hnamed
  have hstate : headerState = .transferEncoding :=
    (hnamed.found_iff (by decide)).mpr ⟨⟨.matchingTransferEncoding, transferEncodingName,
      .transferEncoding, 1⟩, by decide, rfl, rfl⟩
  subst hstate
  have hvalue : Takes unlimited ({ s with
      state := .headerValueStart, headerState := .transferEncoding, index := index
      nread := n } : Parser) (32 :: chunkedText) { s with
        state := .headerValue, headerState := .transferEncodingChunked, index := 6
        nread := n + 8 } (chunkedText.map (.data .headerValue)) := by
    have hbytes : chunkedText = [99, 104, 117, 110, 107, 101, 100] := by decide
    rw [hbytes]
    refine Takes.cons (o := []) (unlimited_valueBlank rfl) ?_
    refine Takes.cons (o := [_]) (unlimited_valueStart rfl (by decide) (by decide) rfl) ?_
    refine Takes.cons (o := [_]) (unlimited_go (a := []) rfl rfl) ?_
    refine Takes.cons (o := [_]) (unlimited_go (a := []) rfl rfl) ?_
    refine Takes.cons (o := [_]) (unlimited_go (a := []) rfl rfl) ?_
    refine Takes.cons (o := [_]) (unlimited_go (a := []) rfl rfl) ?_
    refine Takes.cons (o := [_]) (unlimited_go (a := []) rfl rfl) ?_
    exact Takes.cons (o := [_]) (unlimited_go (a := []) rfl rfl) (Takes.nil _)
  have hend := takes_valueEnd (s := { s with
    state := .headerValue, headerState := .transferEncodingChunked, index := 6
    nread := n + 8 }) rfl
  have hall := hname.append (hvalue.append hend)
  have hbytes : (CString.lit "Transfer-Encoding").bytes ++ [58] ++ (32 :: chunkedText ++ [13, 10]) =
      transferEncodingLine ++ [13, 10] := by decide
  have hevents : (CString.lit "Transfer-Encoding").bytes.map (Event.data .headerField) ++
      (chunkedText.map (.data .headerValue) ++ []) = fieldEvents transferEncodingLine := by decide
  rw [hbytes, hevents] at hall
  exact ⟨.transferEncodingChunked, 6, _, hall⟩

theorem takes_chunkedFields (r : ChunkedRequest) {s : Parser} (h : s.Ready) :
    ∃ (m : Method) (headerState : HeaderState) (index : Nat), m ≠ .connect ∧
      Takes unlimited s r.head { s with
        flags := { Flags.none with chunked := true }, contentLength := ullongMax, method := m
        headerState := headerState, index := index, state := .chunkSizeStart, httpMajor := 1
        httpMinor := 1, nread := 0, upgrade := false }
        (r.url.map (.data .url) ++
          (r.before ++ transferEncodingLine :: r.behind).flatMap fieldEvents ++ [.headersComplete]) := by
  obtain ⟨m, index, n, hconnect, hline⟩ := takes_requestLine h.state r.method_mem r.url_slash
    r.url_visible
  obtain ⟨state, headerState, index, n, hfield, hbefore⟩ := takes_plainFields r.before (s := { s with
    flags := .none, contentLength := ullongMax, method := m, index := index
    state := .headerFieldStart, httpMajor := 1, httpMinor := 1, nread := n }) rfl
    fun line hline => r.isField line (List.mem_append_left _ hline)
  obtain ⟨headerState, index, n, hencoding⟩ := takes_transferEncoding (s := { s with
    flags := .none, contentLength := ullongMax, method := m, index := index
    headerState := headerState, state := state, httpMajor := 1, httpMinor := 1, nread := n }) hfield
  obtain ⟨state, headerState, index, n, hfield, hbehind⟩ := takes_plainFields r.behind (s := { s with
    flags := { Flags.none with chunked := true }, contentLength := ullongMax, method := m
    index := index, headerState := headerState, state := .headerValueLws, httpMajor := 1
    httpMinor := 1, nread := n }) rfl
    fun line hline => r.isField line (List.mem_append_right _ hline)
  have hcr := unlimited_headCr (s := { s with
    flags := { Flags.none with chunked := true }, contentLength := ullongMax, method := m
    index := index, headerState := headerState, state := state, httpMajor := 1, httpMinor := 1
    nread := n }) hfield
  have hlf : unlimited ({ s with
      flags := { Flags.none with chunked := true }, contentLength := ullongMax, method := m
      index := index, headerState := headerState, state := .headersAlmostDone, httpMajor := 1
      httpMinor := 1, nread := n + 1 } : Parser) 10 = .go { s with
        flags := { Flags.none with chunked := true }, contentLength := ullongMax, method := m
        headerState := headerState, index := index, state := .chunkSizeStart, httpMajor := 1
        httpMinor := 1, nread := 0, upgrade := false } [.headersComplete] := by
    have hnot : (m == Method.connect) = false := by simpa using hconnect
    refine unlimited_go (a := [.headersComplete]) ?_ rfl
    show caseHeadersAlmostDone _ 10 = _
    simp [caseHeadersAlmostDone, caseHeadersDone, Parser.count, State.parsingHeader, lf, Flags.none,
      hnot, Parser.goTo, Parser.brk, Turn.after]
  refine ⟨m, headerState, index, hconnect, ?_⟩
  have hall := (hline.append (hbefore.append (hencoding.append hbehind))).append
    (Takes.cons (o := []) hcr (Takes.single hlf))
  have hbytes : requestLine r.method r.url ++ [13, 10] ++
      (headLines r.before ++ (transferEncodingLine ++ [13, 10] ++ headLines r.behind)) ++ [13, 10] =
        r.head := by
    rw [ChunkedRequest.head]
    simp [headLines]
  rw [hbytes] at hall
  simpa using hall

/-- A request with a chunked body: its URL, its fields and the bytes of its chunks. -/
theorem takes_chunkedRequest (r : ChunkedRequest) {s : Parser} (h : s.Ready)
    (hhead : r.head.length ≤ httpMaxHeaderSize) :
    ∃ s', Takes react s r.bytes s' r.events ∧ s'.Sound ∧ s'.state = .startReq ∧
      s'.upgrade = false := by
  obtain ⟨m, headerState, index, -, hfields⟩ := takes_chunkedFields r h
  have hhead := takes_of_unlimited hfields h.sound (by rw [h.nread]; omega)
  have hstops := (feed_stops h.sound r.head).1
  rw [show feed react s r.head = _ from hhead] at hstops
  have hbody := takes_chunkedBytes ⟨(hstops rfl).1, rfl, rfl, rfl⟩ r.chunks
  have hall := hhead.append hbody
  have hdone := (feed_stops h.sound (r.head ++ chunkedBytes r.chunks)).1
  rw [show feed react s (r.head ++ chunkedBytes r.chunks) = _ from hall] at hdone
  refine ⟨_, ?_, (hdone rfl).1, ?_, (hdone rfl).2 h.upgrade⟩
  · rw [ChunkedRequest.bytes, ChunkedRequest.events]
    simpa using hall
  · rfl

/-- The same in any buffers. -/
theorem executeAll_chunked {r : ChunkedRequest} {bufs : List (List UInt8)}
    (hbufs : ∀ data ∈ bufs, data ≠ []) (hstream : bufs.flatten = r.bytes)
    (hhead : r.head.length ≤ httpMaxHeaderSize) :
    ∃ e, executeAll .init bufs = some e ∧ e.parser.errno = .ok ∧ e.parser.state = .startReq ∧
      e.unread = [] ∧ spelled e.calls = r.events := by
  obtain ⟨s, htakes, hsound, hstate, -⟩ := takes_chunkedRequest r ready_init hhead
  obtain ⟨e, he, hparser, hunread, hcalls⟩ :=
    executeAll_of_takes (hstream ▸ htakes) sound_init rfl hsound.errno hbufs
  exact ⟨e, he, hparser ▸ hsound.errno, hparser ▸ hstate, hunread, hcalls⟩

/-- Two chunks, with their sizes in both cases and with a leading zero. -/
def twoChunks : ChunkedRequest where
  method := (CString.lit "PUT").bytes
  url := (CString.lit "/api/md5").bytes
  before := []
  behind := [(CString.lit "Host: muzi").bytes]
  chunks :=
    [⟨[48, 97], List.replicate 10 65, nofun, by decide +kernel, by decide, nofun, by decide, by decide⟩,
      ⟨[66], List.replicate 11 66, nofun, by decide +kernel, by decide, nofun, by decide, by decide⟩]
  method_mem := by decide
  url_slash := by decide
  url_visible := by decide +kernel
  isField := by
    intro line hline
    refine ⟨(CString.lit "Host").bytes, (CString.lit "muzi").bytes, ?_, by decide, by decide,
      by decide, by decide +kernel⟩
    exact List.mem_singleton.mp hline

theorem executeAll_chunked_two :
    ∃ e, executeAll .init [twoChunks.bytes.take 60, twoChunks.bytes.drop 60] = some e ∧
      e.parser.errno = .ok ∧ e.parser.state = .startReq ∧ e.unread = [] ∧
      spelled e.calls = twoChunks.events :=
  executeAll_chunked (by decide) (by decide) (by decide)

end Machine
end Http
end TcMuzi
