import TcMuzi.Http.Sound
import TcMuzi.Lib.Consumer

/-!
# The parser byte by byte

`react` is the machine without buffers: a byte at a time, and every byte of a URL, a header or
a body is given out by itself.  `Moves` says what a turn outside of the bodies does to the
marks, so that no later proof looks into the `switch`.
-/

namespace TcMuzi
namespace Http
namespace Machine

open Base Lib

/-! ## Events -/

/-- A byte of a string, or a notification. -/
inductive Event
  | data (d : Data) (b : UInt8)
  | headersComplete
  | messageComplete
deriving DecidableEq

def Call.events : Call → List Event
  | .data d at_ length => (at_.take length).map (.data d)
  | .headersComplete => [.headersComplete]
  | .messageComplete => [.messageComplete]

/-- What a list of calls reports. -/
def spelled (calls : List Call) : List Event := calls.flatMap Call.events

@[simp] theorem spelled_nil : spelled [] = [] := rfl

theorem spelled_append (calls calls' : List Call) :
    spelled (calls ++ calls') = spelled calls ++ spelled calls' := List.flatMap_append

theorem spelled_single (c : Call) : spelled [c] = c.events := List.flatMap_singleton ..

def Act.notes : Act → List Event
  | .headersComplete => [.headersComplete]
  | .messageComplete => [.messageComplete]
  | _ => []

/-- The string that a byte belongs to: the body that is being read, or the one that the state
behind the byte is in. -/
def datum (before after : State) : Option Data :=
  match before with
  | .bodyIdentity => some .body
  | .chunkData => some .body
  | _ => after.marked

/-- What a turn gives out for its byte. -/
def Turn.out (t : Turn) (before : State) (ch : UInt8) : List Event :=
  ((datum before t.parser.state).map fun d => Event.data d ch).toList ++ t.acts.flatMap Act.notes

@[simp] theorem count_state (s : Parser) : s.count.state = s.state := by
  unfold Parser.count
  split_ifs <;> rfl

@[simp] theorem count_errno (s : Parser) : s.count.errno = s.errno := by
  unfold Parser.count
  split_ifs <;> rfl

@[simp] theorem count_upgrade (s : Parser) : s.count.upgrade = s.upgrade := by
  unfold Parser.count
  split_ifs <;> rfl

/-- The test for too long headers. -/
def Parser.Overflows (s : Parser) : Prop :=
  s.state.parsingHeader = true ∧ httpMaxHeaderSize < s.count.nread

instance (s : Parser) : Decidable s.Overflows := instDecidableAnd

/-- One byte, without the limit on the headers. -/
def unlimited (s : Parser) (ch : UInt8) : Reaction Parser Event :=
  let t := s.count.turn ch 1
  match t.ctrl with
  | .next => .go t.parser (t.out s.state ch)
  | .leave => .leave t.parser (t.out s.state ch)
  | .error => .refuse t.parser
  | .stuck => .refuse t.parser

/-- One byte. -/
def react (s : Parser) (ch : UInt8) : Reaction Parser Event :=
  if s.Overflows then .refuse { s.count with errno := .headerOverflow } else unlimited s ch

/-! ## What a turn does to the marks -/

/-- The bytes that a string can have. -/
def Data.Clean (ch : UInt8) : Data → Prop
  | .url => 33 ≤ ch ∧ ch ≤ 126
  | .headerField => token ch ≠ 0
  | .headerValue => ch ≠ cr ∧ ch ≠ lf
  | .body => True

/-- A turn outside of the bodies, by the states before and behind it. -/
inductive Moves (before : State) (ch : UInt8) (t : Turn) : Prop
  | idle (hbefore : before.marked = none) (hafter : t.parser.state.marked = none)
      (hacts : ∀ act ∈ t.acts, act = .headersComplete ∨ act = .messageComplete)
  | stays (d : Data) (hbefore : before.marked = some d) (hafter : t.parser.state.marked = some d)
      (hacts : t.acts = []) (hclean : d.Clean ch)
  | opens (d : Data) (hbefore : before.marked = none) (hafter : t.parser.state.marked = some d)
      (hacts : t.acts = [.mark d]) (hclean : d.Clean ch)
  | closes (d : Data) (hbefore : before.marked = some d) (hafter : t.parser.state.marked = none)
      (hacts : t.acts = [.data d 0])
  | empty (d : Data) (hbefore : before.marked = none) (hafter : t.parser.state.marked = none)
      (hacts : t.acts = [.mark d, .data d 0])
  | chunk (hbefore : before = .chunkDataAlmostDone) (hafter : t.parser.state.marked = none)
      (hacts : t.acts = [.data .body 0])

/-- The turns that go on. -/
def Turn.Goes (t : Turn) : Prop := t.ctrl = .next ∨ t.ctrl = .leave

theorem not_goes_fail (s : Parser) (e : Errno) : ¬ (s.fail e).Goes := by
  rintro (h | h) <;> cases h

theorem not_goes_stuck (s : Parser) : ¬ s.stuck.Goes := by
  rintro (h | h) <;> cases h

/-- A `break` between two states without a mark. -/
theorem moves_brk {before : State} {ch : UInt8} {s : Parser} (hbefore : before.marked = none)
    (hafter : s.state.marked = none) : Moves before ch s.brk :=
  .idle hbefore hafter fun _ h => absurd h List.not_mem_nil

section Moves

variable {s : Parser} {ch : UInt8}

theorem moves_caseDead (h : s.state = .dead) (hgoes : (caseDead s ch).Goes) :
    Moves .dead ch (caseDead s ch) := by
  unfold caseDead at hgoes ⊢
  split_ifs at hgoes ⊢
  · exact moves_brk rfl (by rw [h]; rfl)
  · exact absurd hgoes (not_goes_fail _ _)

theorem moves_caseStartReq (h : s.state = .startReq) (hgoes : (caseStartReq s ch).Goes) :
    Moves .startReq ch (caseStartReq s ch) := by
  unfold caseStartReq at hgoes ⊢
  dsimp only at hgoes ⊢
  split_ifs at hgoes ⊢
  · exact moves_brk rfl (by rw [h]; rfl)
  · exact absurd hgoes (not_goes_fail _ _)
  · cases hfirst : firstMethod ch with
    | none =>
        rw [hfirst] at hgoes
        exact absurd hgoes (not_goes_fail _ _)
    | some method => exact moves_brk rfl rfl

theorem moves_caseReqMethod (h : s.state = .reqMethod) (hgoes : (caseReqMethod s ch).Goes) :
    Moves .reqMethod ch (caseReqMethod s ch) := by
  unfold caseReqMethod at hgoes ⊢
  dsimp only at hgoes ⊢
  split_ifs at hgoes ⊢
  · exact absurd hgoes (not_goes_fail _ _)
  · exact absurd hgoes (not_goes_stuck _)
  · exact moves_brk rfl rfl
  · exact moves_brk rfl (by rw [h]; rfl)
  · cases hnext : nextMethod s.method s.index ch with
    | none =>
        rw [hnext] at hgoes
        exact absurd hgoes (not_goes_fail _ _)
    | some method => exact moves_brk rfl (by dsimp only; rw [h]; rfl)

theorem visible_of_parseUrlChar {state : State} (h : parseUrlChar state ch ≠ .dead) :
    33 ≤ ch ∧ ch ≤ 126 := by
  have hall : ∀ n < 256, parseUrlChar state (UInt8.ofNat n) ≠ .dead →
      33 ≤ UInt8.ofNat n ∧ UInt8.ofNat n ≤ 126 := by
    cases state <;> decide +kernel
  have hone := hall ch.toNat ch.toNat_lt
  rw [UInt8.ofNat_toNat] at hone
  exact hone h

/-- A byte of a URL leads to a URL state. -/
theorem urlByte_goes (hgoes : (urlByte s ch).Goes) :
    (urlByte s ch).parser.state.marked = some .url ∧ (urlByte s ch).acts = [] ∧
      Data.Clean ch .url := by
  unfold urlByte at hgoes ⊢
  dsimp only at hgoes ⊢
  split_ifs at hgoes ⊢ with hdead
  · exact absurd hgoes (not_goes_fail _ _)
  · exact ⟨(marked_parseUrlChar ch s.state).resolve_left hdead, rfl, visible_of_parseUrlChar hdead⟩

theorem moves_caseReqSpacesBeforeUrl (h : s.state = .reqSpacesBeforeUrl)
    (hgoes : (caseReqSpacesBeforeUrl s ch).Goes) :
    Moves .reqSpacesBeforeUrl ch (caseReqSpacesBeforeUrl s ch) := by
  have hopens : ∀ s : Parser, (urlByte s ch).Goes →
      Moves .reqSpacesBeforeUrl ch ((urlByte s ch).after [.mark .url]) := by
    intro s hgoes
    obtain ⟨hmarked, hacts, hclean⟩ := urlByte_goes hgoes
    exact .opens .url rfl hmarked (by rw [Turn.after, hacts]; rfl) hclean
  unfold caseReqSpacesBeforeUrl at hgoes ⊢
  dsimp only at hgoes ⊢
  split_ifs at hgoes ⊢
  · exact moves_brk rfl (by rw [h]; rfl)
  · exact hopens _ hgoes
  · exact hopens s hgoes

theorem moves_urlByte {before : State} (hbefore : before.marked = some .url)
    (hgoes : (urlByte s ch).Goes) : Moves before ch (urlByte s ch) := by
  obtain ⟨hmarked, hacts, hclean⟩ := urlByte_goes hgoes
  exact .stays .url hbefore hmarked hacts hclean

theorem moves_caseReqSchema {before : State} (hbefore : before.marked = some .url)
    (hgoes : (caseReqSchema s ch).Goes) : Moves before ch (caseReqSchema s ch) := by
  unfold caseReqSchema at hgoes ⊢
  split_ifs at hgoes ⊢
  · exact absurd hgoes (not_goes_fail _ _)
  · exact moves_urlByte hbefore hgoes

theorem moves_caseReqUrl {before : State} (hbefore : before.marked = some .url)
    (hgoes : (caseReqUrl s ch).Goes) : Moves before ch (caseReqUrl s ch) := by
  unfold caseReqUrl at hgoes ⊢
  dsimp only at hgoes ⊢
  split_ifs at hgoes ⊢
  · exact .closes .url hbefore rfl rfl
  · exact .closes .url hbefore rfl rfl
  · exact .closes .url hbefore rfl rfl
  · exact moves_urlByte hbefore hgoes

theorem moves_strictByte {before after : State} {expected : UInt8} (hbefore : before.marked = none)
    (hafter : after.marked = none) (hgoes : (strictByte expected after s ch).Goes) :
    Moves before ch (strictByte expected after s ch) := by
  unfold strictByte at hgoes ⊢
  split_ifs at hgoes ⊢
  · exact absurd hgoes (not_goes_fail _ _)
  · exact moves_brk hbefore hafter

theorem moves_caseReqHttpStart (h : s.state = .reqHttpStart) (hgoes : (caseReqHttpStart s ch).Goes) :
    Moves .reqHttpStart ch (caseReqHttpStart s ch) := by
  unfold caseReqHttpStart at hgoes ⊢
  split_ifs at hgoes ⊢
  · exact moves_brk rfl rfl
  · exact moves_brk rfl (by rw [h]; rfl)
  · exact absurd hgoes (not_goes_fail _ _)

theorem moves_caseReqFirstHttpMajor (hgoes : (caseReqFirstHttpMajor s ch).Goes) :
    Moves .reqFirstHttpMajor ch (caseReqFirstHttpMajor s ch) := by
  unfold caseReqFirstHttpMajor at hgoes ⊢
  split_ifs at hgoes ⊢
  · exact absurd hgoes (not_goes_fail _ _)
  · exact moves_brk rfl rfl

theorem moves_caseReqHttpMajor (h : s.state = .reqHttpMajor) (hgoes : (caseReqHttpMajor s ch).Goes) :
    Moves .reqHttpMajor ch (caseReqHttpMajor s ch) := by
  unfold caseReqHttpMajor at hgoes ⊢
  dsimp only at hgoes ⊢
  split_ifs at hgoes ⊢
  · exact moves_brk rfl rfl
  · exact absurd hgoes (not_goes_fail _ _)
  · exact absurd hgoes (not_goes_fail _ _)
  · exact moves_brk rfl (by dsimp only; rw [h]; rfl)

theorem moves_caseReqFirstHttpMinor (hgoes : (caseReqFirstHttpMinor s ch).Goes) :
    Moves .reqFirstHttpMinor ch (caseReqFirstHttpMinor s ch) := by
  unfold caseReqFirstHttpMinor at hgoes ⊢
  split_ifs at hgoes ⊢
  · exact absurd hgoes (not_goes_fail _ _)
  · exact moves_brk rfl rfl

theorem moves_caseReqHttpMinor (h : s.state = .reqHttpMinor) (hgoes : (caseReqHttpMinor s ch).Goes) :
    Moves .reqHttpMinor ch (caseReqHttpMinor s ch) := by
  unfold caseReqHttpMinor at hgoes ⊢
  dsimp only at hgoes ⊢
  split_ifs at hgoes ⊢
  · exact moves_brk rfl rfl
  · exact moves_brk rfl rfl
  · exact absurd hgoes (not_goes_fail _ _)
  · exact absurd hgoes (not_goes_fail _ _)
  · exact moves_brk rfl (by dsimp only; rw [h]; rfl)

theorem moves_caseReqLineAlmostDone (hgoes : (caseReqLineAlmostDone s ch).Goes) :
    Moves .reqLineAlmostDone ch (caseReqLineAlmostDone s ch) := by
  unfold caseReqLineAlmostDone at hgoes ⊢
  split_ifs at hgoes ⊢
  · exact absurd hgoes (not_goes_fail _ _)
  · exact moves_brk rfl rfl

theorem marked_newMessage (s : Parser) : s.newMessage.marked = none := by
  obtain h | h := newMessage_cases s <;> rw [h] <;> rfl

/-- A turn that leaves no mark and runs notifications only. -/
structure Turn.Idle (t : Turn) : Prop where
  marked : t.parser.state.marked = none
  notes : ∀ act ∈ t.acts, act = .headersComplete ∨ act = .messageComplete

theorem Turn.Idle.moves {t : Turn} (h : t.Idle) {before : State} {ch : UInt8}
    (hbefore : before.marked = none) : Moves before ch t :=
  .idle hbefore h.marked h.notes

theorem idle_caseMessageDone (s : Parser) : (caseMessageDone s).Idle :=
  ⟨marked_newMessage s, fun _ h => Or.inr (List.mem_singleton.mp h)⟩

theorem idle_brk {s : Parser} (h : s.state.marked = none) : s.brk.Idle :=
  ⟨h, fun _ h => absurd h List.not_mem_nil⟩

theorem idle_caseHeadersDone (hgoes : (caseHeadersDone s ch).Goes) : (caseHeadersDone s ch).Idle := by
  unfold caseHeadersDone at hgoes ⊢
  dsimp only at hgoes ⊢
  split_ifs at hgoes ⊢
  · exact absurd hgoes (not_goes_fail _ _)
  · exact ⟨marked_newMessage _, fun _ h => Or.inr (List.mem_singleton.mp h)⟩
  · exact idle_brk rfl
  · exact idle_caseMessageDone _
  · exact idle_brk rfl
  · exact idle_caseMessageDone _

theorem idle_caseHeadersAlmostDone (hgoes : (caseHeadersAlmostDone s ch).Goes) :
    (caseHeadersAlmostDone s ch).Idle := by
  unfold caseHeadersAlmostDone at hgoes ⊢
  dsimp only at hgoes ⊢
  split_ifs at hgoes ⊢
  · exact absurd hgoes (not_goes_fail _ _)
  · exact idle_caseMessageDone s
  · obtain ⟨hmarked, hnotes⟩ := idle_caseHeadersDone hgoes
    exact ⟨hmarked, fun act hact => (List.mem_cons.mp hact).elim Or.inl (hnotes act)⟩

theorem moves_caseHeaderFieldStart {before : State} (hbefore : before.marked = none)
    (hgoes : (caseHeaderFieldStart s ch).Goes) : Moves before ch (caseHeaderFieldStart s ch) := by
  unfold caseHeaderFieldStart at hgoes ⊢
  dsimp only at hgoes ⊢
  split_ifs at hgoes ⊢ with hcr hlf htoken
  · exact moves_brk hbefore rfl
  · exact (idle_caseHeadersAlmostDone hgoes).moves hbefore
  · exact absurd hgoes (not_goes_fail _ _)
  · exact .opens .headerField hbefore rfl rfl htoken

theorem moves_caseHeaderField (h : s.state = .headerField) (hgoes : (caseHeaderField s ch).Goes) :
    Moves .headerField ch (caseHeaderField s ch) := by
  unfold caseHeaderField at hgoes ⊢
  dsimp only at hgoes ⊢
  split_ifs at hgoes ⊢ with htoken
  · cases hname : headerNameByte s ch (token ch) with
    | none =>
        rw [hname] at hgoes
        exact absurd hgoes (not_goes_stuck _)
    | some s' =>
        refine .stays .headerField rfl ?_ rfl htoken
        show s'.state.marked = _
        rw [headerNameByte_eq ch hname, h]
        rfl
  · exact .closes .headerField rfl rfl rfl
  · exact .closes .headerField rfl rfl rfl
  · exact .closes .headerField rfl rfl rfl
  · exact absurd hgoes (not_goes_fail _ _)

theorem moves_caseHeaderValueStart (h : s.state = .headerValueStart)
    (hgoes : (caseHeaderValueStart s ch).Goes) :
    Moves .headerValueStart ch (caseHeaderValueStart s ch) := by
  unfold caseHeaderValueStart at hgoes ⊢
  dsimp only at hgoes ⊢
  split_ifs at hgoes ⊢ with hblank hcr hlf
  · exact moves_brk rfl (by rw [h]; rfl)
  · exact .empty .headerValue rfl rfl rfl
  · exact .empty .headerValue rfl rfl rfl
  · cases hfirst : firstValueByte { s with state := .headerValue, index := 0 } ch with
    | none =>
        rw [hfirst] at hgoes
        obtain hctrl | hctrl := hgoes <;> cases hctrl
    | some s' =>
        refine .opens .headerValue rfl ?_ rfl ⟨hcr, hlf⟩
        show s'.state.marked = _
        rw [(firstValueByte_ofValue hfirst).1]
        rfl

theorem goes_caseHeaderAlmostDone (hgoes : (caseHeaderAlmostDone s ch).Goes) :
    (caseHeaderAlmostDone s ch).parser.state = .headerValueLws ∧
      (caseHeaderAlmostDone s ch).acts = [] := by
  unfold caseHeaderAlmostDone at hgoes ⊢
  split_ifs at hgoes ⊢
  · exact absurd hgoes (not_goes_fail _ _)
  · exact ⟨rfl, rfl⟩

theorem moves_valueByte (h : s.state = .headerValue) (hclean : Data.Clean ch .headerValue)
    (hgoes : (valueByte s ch).Goes) : Moves .headerValue ch (valueByte s ch) := by
  have hstays : ∀ s' : Parser, s'.state = .headerValue → Moves .headerValue ch s'.brk := by
    intro s' hs'
    refine .stays .headerValue rfl ?_ rfl hclean
    show s'.state.marked = _
    rw [hs']
    rfl
  unfold valueByte at hgoes ⊢
  dsimp only at hgoes ⊢
  split at hgoes
  case h_2 | h_3 => exact absurd hgoes (not_goes_stuck _)
  case h_4 =>
    split_ifs at hgoes ⊢
    · exact hstays s h
    · exact absurd hgoes (not_goes_fail _ _)
    · cases hadd : addDigit 10 s.contentLength (ch.toNat - 48) with
      | none =>
          rw [hadd] at hgoes
          exact absurd hgoes (not_goes_fail _ _)
      | some t => exact hstays _ h
  case h_5 | h_6 | h_7 => exact hstays _ ((headerState_matching s _ _ _).1.trans h)
  case h_8 | h_9 | h_10 =>
    split_ifs
    · exact hstays _ h
    · exact hstays s h
  case h_11 => exact hstays _ rfl
  case h_1 => exact hstays s h

theorem moves_caseHeaderValue (h : s.state = .headerValue) (hgoes : (caseHeaderValue s ch).Goes) :
    Moves .headerValue ch (caseHeaderValue s ch) := by
  unfold caseHeaderValue at hgoes ⊢
  split_ifs at hgoes ⊢ with hcr hlf
  · exact .closes .headerValue rfl rfl rfl
  · obtain ⟨hstate, hacts⟩ := goes_caseHeaderAlmostDone hgoes
    refine .closes .headerValue rfl ?_ ?_
    · exact (congrArg State.marked hstate : _)
    · rw [Turn.after, hacts]
      rfl
  · exact moves_valueByte h ⟨hcr, hlf⟩ hgoes

theorem moves_caseHeaderAlmostDone (hgoes : (caseHeaderAlmostDone s ch).Goes) :
    Moves .headerAlmostDone ch (caseHeaderAlmostDone s ch) := by
  obtain ⟨hstate, hacts⟩ := goes_caseHeaderAlmostDone hgoes
  refine .idle rfl (congrArg State.marked hstate) ?_
  rw [hacts]
  exact fun _ h => absurd h List.not_mem_nil

theorem moves_caseHeaderValueLws (hgoes : (caseHeaderValueLws s ch).Goes) :
    Moves .headerValueLws ch (caseHeaderValueLws s ch) := by
  unfold caseHeaderValueLws at hgoes ⊢
  split_ifs at hgoes ⊢
  · exact moves_brk rfl rfl
  · exact moves_caseHeaderFieldStart rfl hgoes

theorem moves_caseChunkSizeStart (hgoes : (caseChunkSizeStart s ch).Goes) :
    Moves .chunkSizeStart ch (caseChunkSizeStart s ch) := by
  unfold caseChunkSizeStart at hgoes ⊢
  split_ifs at hgoes ⊢
  · exact absurd hgoes (not_goes_stuck _)
  · cases hdigit : unhex ch with
    | none =>
        rw [hdigit] at hgoes
        exact absurd hgoes (not_goes_fail _ _)
    | some digit => exact moves_brk rfl rfl

theorem moves_caseChunkSize (h : s.state = .chunkSize) (hgoes : (caseChunkSize s ch).Goes) :
    Moves .chunkSize ch (caseChunkSize s ch) := by
  unfold caseChunkSize at hgoes ⊢
  by_cases hchunked : (!s.flags.chunked) = true
  · rw [if_pos hchunked] at hgoes
    exact absurd hgoes (not_goes_stuck _)
  · rw [if_neg hchunked] at hgoes ⊢
    by_cases hcr : ch = cr
    · rw [if_pos hcr]
      exact moves_brk rfl rfl
    · rw [if_neg hcr] at hgoes ⊢
      cases hdigit : unhex ch with
      | none =>
          simp only [hdigit] at hgoes ⊢
          split_ifs at hgoes ⊢
          · exact moves_brk rfl rfl
          · exact absurd hgoes (not_goes_fail _ _)
      | some digit =>
          simp only [hdigit] at hgoes ⊢
          cases hadd : addDigit 16 s.contentLength digit with
          | none =>
              rw [hadd] at hgoes
              exact absurd hgoes (not_goes_fail _ _)
          | some t => exact moves_brk rfl (by dsimp only; rw [h]; rfl)

theorem moves_caseChunkParameters (h : s.state = .chunkParameters)
    (hgoes : (caseChunkParameters s ch).Goes) : Moves .chunkParameters ch (caseChunkParameters s ch) := by
  unfold caseChunkParameters at hgoes ⊢
  split_ifs at hgoes ⊢
  · exact absurd hgoes (not_goes_stuck _)
  · exact moves_brk rfl rfl
  · exact moves_brk rfl (by rw [h]; rfl)

theorem moves_caseChunkSizeAlmostDone (hgoes : (caseChunkSizeAlmostDone s ch).Goes) :
    Moves .chunkSizeAlmostDone ch (caseChunkSizeAlmostDone s ch) := by
  unfold caseChunkSizeAlmostDone at hgoes ⊢
  dsimp only at hgoes ⊢
  split_ifs at hgoes ⊢
  · exact absurd hgoes (not_goes_stuck _)
  · exact absurd hgoes (not_goes_fail _ _)
  · exact moves_brk rfl rfl
  · exact moves_brk rfl rfl

theorem moves_caseChunkDataAlmostDone (hgoes : (caseChunkDataAlmostDone s ch).Goes) :
    Moves .chunkDataAlmostDone ch (caseChunkDataAlmostDone s ch) := by
  unfold caseChunkDataAlmostDone at hgoes ⊢
  split_ifs at hgoes ⊢
  · exact absurd hgoes (not_goes_stuck _)
  · exact absurd hgoes (not_goes_fail _ _)
  · exact .chunk rfl rfl rfl

theorem moves_caseChunkDataDone (hgoes : (caseChunkDataDone s ch).Goes) :
    Moves .chunkDataDone ch (caseChunkDataDone s ch) := by
  unfold caseChunkDataDone at hgoes ⊢
  split_ifs at hgoes ⊢
  · exact absurd hgoes (not_goes_stuck _)
  · exact absurd hgoes (not_goes_fail _ _)
  · exact moves_brk rfl rfl

theorem moves_turn (hbody : s.state ≠ .bodyIdentity) (hchunk : s.state ≠ .chunkData)
    {avail : Nat} (hgoes : (s.turn ch avail).Goes) : Moves s.state ch (s.turn ch avail) := by
  unfold Parser.turn at hgoes ⊢
  cases hstate : s.state <;> simp only [hstate] at hgoes ⊢
  case dead => exact moves_caseDead hstate hgoes
  case startReq => exact moves_caseStartReq hstate hgoes
  case reqMethod => exact moves_caseReqMethod hstate hgoes
  case reqSpacesBeforeUrl => exact moves_caseReqSpacesBeforeUrl hstate hgoes
  case reqSchema | reqSchemaSlash | reqSchemaSlashSlash | reqServerStart =>
    exact moves_caseReqSchema rfl hgoes
  case reqServer | reqServerWithAt | reqPath | reqQueryStringStart | reqQueryString
      | reqFragmentStart | reqFragment =>
    exact moves_caseReqUrl rfl hgoes
  case reqHttpStart => exact moves_caseReqHttpStart hstate hgoes
  case reqHttpH | reqHttpHT | reqHttpHTT | reqHttpHTTP => exact moves_strictByte rfl rfl hgoes
  case reqFirstHttpMajor => exact moves_caseReqFirstHttpMajor hgoes
  case reqHttpMajor => exact moves_caseReqHttpMajor hstate hgoes
  case reqFirstHttpMinor => exact moves_caseReqFirstHttpMinor hgoes
  case reqHttpMinor => exact moves_caseReqHttpMinor hstate hgoes
  case reqLineAlmostDone => exact moves_caseReqLineAlmostDone hgoes
  case headerFieldStart => exact moves_caseHeaderFieldStart rfl hgoes
  case headerField => exact moves_caseHeaderField hstate hgoes
  case headerValueStart => exact moves_caseHeaderValueStart hstate hgoes
  case headerValue => exact moves_caseHeaderValue hstate hgoes
  case headerValueLws => exact moves_caseHeaderValueLws hgoes
  case headerAlmostDone => exact moves_caseHeaderAlmostDone hgoes
  case chunkSizeStart => exact moves_caseChunkSizeStart hgoes
  case chunkSize => exact moves_caseChunkSize hstate hgoes
  case chunkParameters => exact moves_caseChunkParameters hstate hgoes
  case chunkSizeAlmostDone => exact moves_caseChunkSizeAlmostDone hgoes
  case headersAlmostDone => exact (idle_caseHeadersAlmostDone hgoes).moves rfl
  case headersDone => exact (idle_caseHeadersDone hgoes).moves rfl
  case chunkData => exact absurd hstate hchunk
  case chunkDataAlmostDone => exact moves_caseChunkDataAlmostDone hgoes
  case chunkDataDone => exact moves_caseChunkDataDone hgoes
  case bodyIdentity => exact absurd hstate hbody
  case messageDone => exact (idle_caseMessageDone s).moves rfl

end Moves

/-! ## How a turn ends -/

/-- What a turn tells the caller of `http_parser_execute`. -/
inductive Turn.Ends (before : Parser) (t : Turn) : Prop
  | next (hctrl : t.ctrl = .next) (herrno : t.parser.errno = before.errno)
      (hupgrade : before.upgrade = false → t.parser.upgrade = false)
  | leave (hctrl : t.ctrl = .leave) (herrno : t.parser.errno = before.errno)
      (hupgrade : t.parser.upgrade = true) (hmarked : t.parser.state.marked = none)
  | error (hctrl : t.ctrl = .error) (herrno : t.parser.errno ≠ .ok)
      (hacts : ∀ act ∈ t.acts, ∃ d, act = .mark d)
  | stuck (hctrl : t.ctrl = .stuck)

section Ends

variable {before s : Parser}

theorem ends_brk (herrno : s.errno = before.errno) (hupgrade : s.upgrade = before.upgrade) :
    s.brk.Ends before :=
  .next rfl herrno fun h => hupgrade.trans h

theorem ends_fail {e : Errno} (h : e ≠ .ok) : (s.fail e).Ends before :=
  .error rfl h fun _ hact => absurd hact List.not_mem_nil

theorem ends_stuck : s.stuck.Ends before := .stuck rfl

theorem ends_after {t : Turn} {acts : List Act} (h : t.Ends before) (hgo : t.ctrl ≠ .error) :
    (t.after acts).Ends before := by
  obtain ⟨hctrl, herrno, hupgrade⟩ | ⟨hctrl, herrno, hupgrade, hmarked⟩ | ⟨hctrl⟩ | hctrl := h
  · exact .next hctrl herrno hupgrade
  · exact .leave hctrl herrno hupgrade hmarked
  · exact absurd hctrl hgo
  · exact .stuck hctrl

theorem ends_mark {t : Turn} {d : Data} (h : t.Ends before) : (t.after [.mark d]).Ends before := by
  obtain ⟨hctrl, herrno, hupgrade⟩ | ⟨hctrl, herrno, hupgrade, hmarked⟩ |
    ⟨hctrl, herrno, hacts⟩ | hctrl := h
  · exact .next hctrl herrno hupgrade
  · exact .leave hctrl herrno hupgrade hmarked
  · exact .error hctrl herrno fun act hact => (List.mem_cons.mp hact).elim (⟨d, ·⟩) (hacts act)
  · exact .stuck hctrl

theorem ends_jump {t : Turn} {skip : Nat} (h : t.Ends before) :
    ({ t with skip := skip } : Turn).Ends before := by
  obtain ⟨hctrl, herrno, hupgrade⟩ | ⟨hctrl, herrno, hupgrade, hmarked⟩ |
    ⟨hctrl, herrno, hacts⟩ | hctrl := h
  · exact .next hctrl herrno hupgrade
  · exact .leave hctrl herrno hupgrade hmarked
  · exact .error hctrl herrno hacts
  · exact .stuck hctrl

theorem ends_urlByte {ch : UInt8} (herrno : s.errno = before.errno)
    (hupgrade : s.upgrade = before.upgrade) : (urlByte s ch).Ends before := by
  unfold urlByte
  dsimp only
  split_ifs
  · exact ends_fail nofun
  · exact ends_brk herrno hupgrade

theorem ends_caseMessageDone (herrno : s.errno = before.errno)
    (hupgrade : s.upgrade = before.upgrade) : (caseMessageDone s).Ends before :=
  ends_after (ends_brk herrno hupgrade) nofun

/-- Behind the headers only an upgrade ends the call. -/
theorem ends_caseHeadersDone {ch : UInt8} (herrno : s.errno = before.errno) :
    (caseHeadersDone s ch).Ends before := by
  have hnext : ∀ {t : Turn}, t.ctrl = .next → t.parser.errno = s.errno →
      t.parser.upgrade = s.upgrade → ¬ s.upgrade = true → t.Ends before :=
    fun hctrl herrno' hsame hnot => .next hctrl (herrno'.trans herrno) fun _ =>
      hsame.trans (Bool.eq_false_iff.mpr hnot)
  unfold caseHeadersDone
  dsimp only
  split_ifs with hlf hup
  · exact ends_fail nofun
  · exact .leave rfl herrno hup (marked_newMessage _)
  all_goals exact hnext rfl rfl rfl hup

theorem ctrl_caseHeadersDone {ch : UInt8} (h : ch = lf) : (caseHeadersDone s ch).ctrl ≠ .error := by
  unfold caseHeadersDone
  rw [if_neg (not_not.mpr h)]
  dsimp only
  split_ifs <;> nofun

theorem ends_caseHeadersAlmostDone {ch : UInt8} (herrno : s.errno = before.errno)
    (hupgrade : s.upgrade = before.upgrade) : (caseHeadersAlmostDone s ch).Ends before := by
  unfold caseHeadersAlmostDone
  dsimp only
  split_ifs
  · exact ends_fail nofun
  · exact ends_caseMessageDone herrno hupgrade
  · exact ends_after (ends_caseHeadersDone herrno) (ctrl_caseHeadersDone (not_not.mp ‹_›))

theorem ends_caseHeaderFieldStart {ch : UInt8} (herrno : s.errno = before.errno)
    (hupgrade : s.upgrade = before.upgrade) : (caseHeaderFieldStart s ch).Ends before := by
  unfold caseHeaderFieldStart
  dsimp only
  split_ifs
  · exact ends_brk herrno hupgrade
  · exact ends_caseHeadersAlmostDone herrno hupgrade
  · exact ends_fail nofun
  · exact ends_after (ends_brk herrno hupgrade) nofun

theorem ends_caseHeaderField {ch : UInt8} : (caseHeaderField s ch).Ends s := by
  unfold caseHeaderField
  dsimp only
  split_ifs
  · cases hname : headerNameByte s ch (token ch) with
    | none => exact ends_stuck
    | some s' =>
        have heq := headerNameByte_eq ch hname
        exact ends_brk (by rw [heq]) (by rw [heq])
  · exact ends_after (ends_brk rfl rfl) nofun
  · exact ends_after (ends_brk rfl rfl) nofun
  · exact ends_after (ends_brk rfl rfl) nofun
  · exact ends_fail nofun

theorem firstValueByte_keeps {s' : Parser} {ch : UInt8} (h : firstValueByte s ch = some s') :
    s'.errno = s.errno ∧ s'.upgrade = s.upgrade := by
  unfold firstValueByte at h
  dsimp only at h
  split at h
  case h_3 =>
    split_ifs at h
    obtain rfl := Option.some.inj h
    exact ⟨rfl, rfl⟩
  all_goals
    obtain rfl := Option.some.inj h
    exact ⟨rfl, rfl⟩

theorem ends_caseHeaderValueStart {ch : UInt8} : (caseHeaderValueStart s ch).Ends s := by
  unfold caseHeaderValueStart
  dsimp only
  split_ifs
  · exact ends_brk rfl rfl
  · exact ends_mark (ends_after (ends_brk rfl rfl) nofun)
  · exact ends_mark (ends_after (ends_brk rfl rfl) nofun)
  · refine ends_mark ?_
    cases hfirst : firstValueByte { s with state := .headerValue, index := 0 } ch with
    | none => exact ends_fail nofun
    | some s' =>
        obtain ⟨herrno, hupgrade⟩ := firstValueByte_keeps hfirst
        exact ends_brk herrno hupgrade

theorem ends_caseHeaderAlmostDone {ch : UInt8} (herrno : s.errno = before.errno)
    (hupgrade : s.upgrade = before.upgrade) : (caseHeaderAlmostDone s ch).Ends before := by
  unfold caseHeaderAlmostDone
  split_ifs
  · exact ends_fail nofun
  · exact ends_brk herrno hupgrade

theorem ctrl_caseHeaderAlmostDone {ch : UInt8} (h : ch = lf) :
    (caseHeaderAlmostDone s ch).ctrl ≠ .error := by
  unfold caseHeaderAlmostDone
  rw [if_neg (not_not.mpr h)]
  nofun

theorem ends_matching (text : List UInt8) (done : HeaderState) (c : UInt8) :
    (matching text done s c).brk.Ends s := by
  rw [matching_eq]
  exact ends_brk rfl rfl

theorem ends_valueByte {ch : UInt8} : (valueByte s ch).Ends s := by
  unfold valueByte
  dsimp only
  split
  case h_2 | h_3 => exact ends_stuck
  case h_4 =>
    split_ifs
    · exact ends_brk rfl rfl
    · exact ends_fail nofun
    · cases addDigit 10 s.contentLength (ch.toNat - 48) with
      | none => exact ends_fail nofun
      | some t => exact ends_brk rfl rfl
  case h_5 | h_6 | h_7 => exact ends_matching _ _ _
  case h_8 | h_9 | h_10 => split_ifs <;> exact ends_brk rfl rfl
  case h_1 | h_11 => exact ends_brk rfl rfl

theorem ends_caseHeaderValue {ch : UInt8} : (caseHeaderValue s ch).Ends s := by
  unfold caseHeaderValue
  split_ifs
  · exact ends_after (ends_brk rfl rfl) nofun
  · exact ends_after (ends_caseHeaderAlmostDone rfl rfl) (ctrl_caseHeaderAlmostDone ‹_›)
  · exact ends_valueByte

theorem ends_caseBodyIdentity (avail : Nat) : (caseBodyIdentity s avail).Ends s := by
  unfold caseBodyIdentity
  dsimp only
  split_ifs
  · exact ends_stuck
  · exact ends_jump (ends_after (ends_caseMessageDone rfl rfl) nofun)
  · exact ends_jump (ends_mark (ends_brk rfl rfl))

theorem ends_caseChunkSize {ch : UInt8} : (caseChunkSize s ch).Ends s := by
  unfold caseChunkSize
  by_cases hchunked : (!s.flags.chunked) = true
  · rw [if_pos hchunked]
    exact ends_stuck
  · rw [if_neg hchunked]
    by_cases hcr : ch = cr
    · rw [if_pos hcr]
      exact ends_brk rfl rfl
    · rw [if_neg hcr]
      cases hdigit : unhex ch with
      | none =>
          dsimp only
          split_ifs
          · exact ends_brk rfl rfl
          · exact ends_fail nofun
      | some digit =>
          dsimp only
          cases hadd : addDigit 16 s.contentLength digit with
          | none => exact ends_fail nofun
          | some t => exact ends_brk rfl rfl

theorem ends_caseChunkData (avail : Nat) : (caseChunkData s avail).Ends s := by
  unfold caseChunkData
  dsimp only
  split_ifs
  · exact ends_stuck
  · exact ends_jump (ends_mark (ends_brk rfl rfl))
  · exact ends_jump (ends_mark (ends_brk rfl rfl))

theorem ends_turn (ch : UInt8) (avail : Nat) : (s.turn ch avail).Ends s := by
  have hbrk : ∀ {s' : Parser}, s'.errno = s.errno → s'.upgrade = s.upgrade → s'.brk.Ends s := ends_brk
  unfold Parser.turn
  cases s.state <;> simp only
  case dead => unfold caseDead; split_ifs <;> first | exact hbrk rfl rfl | exact ends_fail nofun
  case startReq =>
    unfold caseStartReq
    dsimp only
    split_ifs
    · exact hbrk rfl rfl
    · exact ends_fail nofun
    · cases firstMethod ch with
      | none => exact ends_fail nofun
      | some method => exact hbrk rfl rfl
  case reqMethod =>
    unfold caseReqMethod
    dsimp only
    split_ifs
    · exact ends_fail nofun
    · exact ends_stuck
    · exact hbrk rfl rfl
    · exact hbrk rfl rfl
    · cases nextMethod s.method s.index ch with
      | none => exact ends_fail nofun
      | some method => exact hbrk rfl rfl
  case reqSpacesBeforeUrl =>
    unfold caseReqSpacesBeforeUrl
    dsimp only
    split_ifs
    · exact hbrk rfl rfl
    · exact ends_mark (ends_urlByte rfl rfl)
    · exact ends_mark (ends_urlByte rfl rfl)
  case reqSchema | reqSchemaSlash | reqSchemaSlashSlash | reqServerStart =>
    unfold caseReqSchema
    split_ifs
    · exact ends_fail nofun
    · exact ends_urlByte rfl rfl
  case reqServer | reqServerWithAt | reqPath | reqQueryStringStart | reqQueryString
      | reqFragmentStart | reqFragment =>
    unfold caseReqUrl
    dsimp only
    split_ifs
    · exact ends_after (hbrk rfl rfl) nofun
    · exact ends_after (hbrk rfl rfl) nofun
    · exact ends_after (hbrk rfl rfl) nofun
    · exact ends_urlByte rfl rfl
  case headersAlmostDone => exact ends_caseHeadersAlmostDone rfl rfl
  case headersDone => exact ends_caseHeadersDone rfl
  case headerFieldStart => exact ends_caseHeaderFieldStart rfl rfl
  case headerField => exact ends_caseHeaderField
  case headerValueStart => exact ends_caseHeaderValueStart
  case headerValue => exact ends_caseHeaderValue
  case headerValueLws =>
    unfold caseHeaderValueLws
    split_ifs
    · exact hbrk rfl rfl
    · exact ends_caseHeaderFieldStart rfl rfl
  case headerAlmostDone => exact ends_caseHeaderAlmostDone rfl rfl
  case chunkSizeStart =>
    unfold caseChunkSizeStart
    split_ifs
    · exact ends_stuck
    · cases unhex ch with
      | none => exact ends_fail nofun
      | some digit => exact hbrk rfl rfl
  case chunkSize => exact ends_caseChunkSize
  case chunkData => exact ends_caseChunkData avail
  case bodyIdentity => exact ends_caseBodyIdentity avail
  case messageDone => exact ends_caseMessageDone rfl rfl
  case reqHttpStart =>
    unfold caseReqHttpStart
    split_ifs <;> first | exact hbrk rfl rfl | exact ends_fail nofun
  case reqHttpH | reqHttpHT | reqHttpHTT | reqHttpHTTP =>
    unfold strictByte
    split_ifs <;> first | exact hbrk rfl rfl | exact ends_fail nofun
  case reqFirstHttpMajor =>
    unfold caseReqFirstHttpMajor
    split_ifs <;> first | exact hbrk rfl rfl | exact ends_fail nofun
  case reqHttpMajor =>
    unfold caseReqHttpMajor
    dsimp only
    split_ifs <;> first | exact hbrk rfl rfl | exact ends_fail nofun
  case reqFirstHttpMinor =>
    unfold caseReqFirstHttpMinor
    split_ifs <;> first | exact hbrk rfl rfl | exact ends_fail nofun
  case reqHttpMinor =>
    unfold caseReqHttpMinor
    dsimp only
    split_ifs <;> first | exact hbrk rfl rfl | exact ends_fail nofun
  case reqLineAlmostDone =>
    unfold caseReqLineAlmostDone
    split_ifs <;> first | exact hbrk rfl rfl | exact ends_fail nofun
  case chunkParameters =>
    unfold caseChunkParameters
    split_ifs <;> first | exact hbrk rfl rfl | exact ends_stuck
  case chunkSizeAlmostDone =>
    unfold caseChunkSizeAlmostDone
    dsimp only
    split_ifs <;> first | exact hbrk rfl rfl | exact ends_stuck | exact ends_fail nofun
  case chunkDataAlmostDone =>
    unfold caseChunkDataAlmostDone
    split_ifs
    · exact ends_stuck
    · exact ends_fail nofun
    · exact ends_after (hbrk rfl rfl) nofun
  case chunkDataDone =>
    unfold caseChunkDataDone
    split_ifs <;> first | exact hbrk rfl rfl | exact ends_stuck | exact ends_fail nofun

end Ends

namespace Turn.Ends

variable {before : Parser} {t : Turn}

theorem of_next (h : t.Ends before) (hctrl : t.ctrl = .next) :
    t.parser.errno = before.errno ∧ (before.upgrade = false → t.parser.upgrade = false) := by
  obtain ⟨-, herrno, hupgrade⟩ | ⟨hctrl'⟩ | ⟨hctrl'⟩ | hctrl' := h
  · exact ⟨herrno, hupgrade⟩
  all_goals
    rw [hctrl] at hctrl'
    cases hctrl'

theorem of_leave (h : t.Ends before) (hctrl : t.ctrl = .leave) :
    t.parser.errno = before.errno ∧ t.parser.upgrade = true ∧ t.parser.state.marked = none := by
  obtain ⟨hctrl'⟩ | ⟨-, herrno, hupgrade, hmarked⟩ | ⟨hctrl'⟩ | hctrl' := h
  · rw [hctrl] at hctrl'
    cases hctrl'
  · exact ⟨herrno, hupgrade, hmarked⟩
  all_goals
    rw [hctrl] at hctrl'
    cases hctrl'

theorem of_error (h : t.Ends before) (hctrl : t.ctrl = .error) :
    t.parser.errno ≠ .ok ∧ ∀ act ∈ t.acts, ∃ d, act = .mark d := by
  obtain ⟨hctrl'⟩ | ⟨hctrl'⟩ | ⟨-, herrno, hacts⟩ | hctrl' := h
  · rw [hctrl] at hctrl'
    cases hctrl'
  · rw [hctrl] at hctrl'
    cases hctrl'
  · exact ⟨herrno, hacts⟩
  · rw [hctrl] at hctrl'
    cases hctrl'

end Turn.Ends

/-! ## Turns outside of the bodies take one byte -/

@[simp] theorem skip_brk (s : Parser) : s.brk.skip = 0 := rfl
@[simp] theorem skip_fail (s : Parser) (e : Errno) : (s.fail e).skip = 0 := rfl
@[simp] theorem skip_stuck (s : Parser) : s.stuck.skip = 0 := rfl
@[simp] theorem skip_after (acts : List Act) (t : Turn) : (t.after acts).skip = t.skip := rfl

@[simp] theorem skip_urlByte (s : Parser) (ch : UInt8) : (urlByte s ch).skip = 0 := by
  unfold urlByte
  dsimp only
  split_ifs <;> rfl

@[simp] theorem skip_caseHeadersDone (s : Parser) (ch : UInt8) : (caseHeadersDone s ch).skip = 0 := by
  unfold caseHeadersDone
  dsimp only
  split_ifs <;> rfl

@[simp] theorem skip_caseHeadersAlmostDone (s : Parser) (ch : UInt8) :
    (caseHeadersAlmostDone s ch).skip = 0 := by
  unfold caseHeadersAlmostDone
  dsimp only
  split_ifs
  · rfl
  · rfl
  · rw [skip_after, skip_caseHeadersDone]

@[simp] theorem skip_caseHeaderFieldStart (s : Parser) (ch : UInt8) :
    (caseHeaderFieldStart s ch).skip = 0 := by
  unfold caseHeaderFieldStart
  dsimp only
  split_ifs
  · rfl
  · exact skip_caseHeadersAlmostDone _ _
  · rfl
  · rfl

@[simp] theorem skip_caseHeaderAlmostDone (s : Parser) (ch : UInt8) :
    (caseHeaderAlmostDone s ch).skip = 0 := by
  unfold caseHeaderAlmostDone
  split_ifs <;> rfl

@[simp] theorem skip_valueByte (s : Parser) (ch : UInt8) : (valueByte s ch).skip = 0 := by
  unfold valueByte
  dsimp only
  split
  case h_4 =>
    split_ifs
    · rfl
    · rfl
    · cases addDigit 10 s.contentLength (ch.toNat - 48) <;> rfl
  case h_8 | h_9 | h_10 => split_ifs <;> rfl
  all_goals rfl

/-- Only the bodies are jumped over, and only they look at the end of the buffer. -/
theorem turn_one {s : Parser} (hbody : s.state ≠ .bodyIdentity) (hchunk : s.state ≠ .chunkData)
    (ch : UInt8) (avail : Nat) :
    (s.turn ch avail).skip = 0 ∧ s.turn ch avail = s.turn ch 1 := by
  unfold Parser.turn
  cases hstate : s.state
  case bodyIdentity => exact absurd hstate hbody
  case chunkData => exact absurd hstate hchunk
  all_goals refine ⟨?_, rfl⟩; dsimp only
  case startReq =>
    unfold caseStartReq
    cases firstMethod ch <;> simp only [apply_ite Turn.skip, skip_brk, skip_fail, ite_self]
  case reqMethod =>
    unfold caseReqMethod
    cases nextMethod s.method s.index ch <;>
      simp only [apply_ite Turn.skip, skip_brk, skip_fail, skip_stuck, ite_self]
  case headerField =>
    unfold caseHeaderField
    dsimp only
    split_ifs
    · cases headerNameByte s ch (token ch) <;> rfl
    all_goals rfl
  case headerValueStart =>
    unfold caseHeaderValueStart
    dsimp only
    split_ifs
    · rfl
    · rfl
    · rfl
    · cases firstValueByte { s with state := .headerValue, index := 0 } ch <;> rfl
  case chunkSizeStart =>
    unfold caseChunkSizeStart
    cases unhex ch <;>
      simp only [apply_ite Turn.skip, skip_brk, skip_fail, skip_stuck, ite_self]
  case chunkSize =>
    unfold caseChunkSize
    cases unhex ch with
    | none => simp only [apply_ite Turn.skip, skip_brk, skip_fail, skip_stuck, ite_self]
    | some digit =>
        dsimp only
        split_ifs
        · rfl
        · rfl
        · cases addDigit 16 s.contentLength digit <;> rfl
  all_goals
    simp only [caseDead, caseReqSpacesBeforeUrl, caseReqSchema, caseReqUrl, caseReqHttpStart,
      strictByte, caseReqFirstHttpMajor, caseReqHttpMajor, caseReqFirstHttpMinor, caseReqHttpMinor,
      caseReqLineAlmostDone, caseMessageDone, caseHeaderValue, caseHeaderValueLws,
      caseChunkParameters, caseChunkSizeAlmostDone, caseChunkDataAlmostDone, caseChunkDataDone,
      apply_ite Turn.skip, skip_brk, skip_fail, skip_stuck, skip_after, skip_urlByte,
      skip_caseHeadersDone, skip_caseHeadersAlmostDone, skip_caseHeaderFieldStart,
      skip_caseHeaderAlmostDone, skip_valueByte, ite_self]

end Machine
end Http
end TcMuzi
