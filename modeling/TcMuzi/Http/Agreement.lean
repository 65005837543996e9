import TcMuzi.Http.Events

/-!
# One buffer

`execute_agrees` says that `http_parser_execute`, with its marks and its jumps over bodies,
calls back what `react` gives out for the same bytes.  At an error it keeps back the string
whose mark is still set.  `Follows` relates the marks at a position to what was given out in
front of it.
-/

namespace TcMuzi
namespace Http
namespace Machine

open Base Lib

/-! ## Marks -/

def noMark : Data → Option (List UInt8) := fun _ => none

def oneMark (d : Data) (at_ : List UInt8) : Data → Option (List UInt8) :=
  Function.update noMark d (some at_)

theorem oneMark_self (d : Data) (at_ : List UInt8) : oneMark d at_ d = some at_ :=
  Function.update_self ..

theorem update_oneMark (d : Data) (at_ : List UInt8) :
    Function.update (oneMark d at_) d none = noMark := by
  rw [oneMark, Function.update_idem]
  exact Function.update_eq_self d noMark

/-- The marks at `p` belong to what was given out in front of `p`. -/
inductive Tracks (state : State) (l : Locals) (p : List UInt8) (out : List Event) : Prop
  | closed (hstate : state.marked = none) (hmark : l.mark = noMark) (hout : out = spelled l.calls)
  | opened (d : Data) (word : List UInt8) (hstate : state.marked = some d)
      (hmark : l.mark = oneMark d (word ++ p)) (hout : out = spelled l.calls ++ word.map (.data d))

/-- The same, or behind a jump over a part of a body. -/
inductive Follows (state : State) (l : Locals) (p : List UInt8) (out : List Event) : Prop
  | tracks (h : Tracks state l p out)
  | body (word : List UInt8) (hstate : state.marked = none)
      (hwhere : state = .chunkDataAlmostDone ∨ p = [])
      (hmark : l.mark = oneMark .body (word ++ p))
      (hout : out = spelled l.calls ++ word.map (.data .body))

section Acts

variable {l : Locals} {p : List UInt8}

theorem acts_nil : l.acts p [] = l := rfl

theorem acts_cons (act : Act) (acts : List Act) :
    l.acts p (act :: acts) = (l.act p act).acts p acts := rfl

theorem act_mark (d : Data) (h : l.mark = noMark) :
    l.act p (.mark d) = ⟨oneMark d p, l.calls⟩ := by
  have hnone : l.mark d = none := by rw [h]; rfl
  rw [Locals.act, hnone, h]
  rfl

theorem act_data {d : Data} {at_ : List UInt8} (more : Nat) (h : l.mark = oneMark d at_) :
    l.act p (.data d more) =
      ⟨noMark, l.calls ++ [.data d at_ (at_.length - p.length + more)]⟩ := by
  have hsome : l.mark d = some at_ := by rw [h, oneMark_self]
  rw [Locals.act, hsome, h]
  simp only [update_oneMark]

theorem act_data_other {d : Data} (more : Nat) (h : l.mark d = none) :
    l.act p (.data d more) = l := by
  rw [Locals.act, h]

theorem events_data (d : Data) (word p : List UInt8) :
    (Call.data d (word ++ p) ((word ++ p).length - p.length + 0)).events = word.map (.data d) := by
  have hlength : (word ++ p).length - p.length + 0 = word.length := by
    rw [List.length_append]
    omega
  rw [Call.events, hlength, List.take_left]

/-- Notifications are called at once. -/
theorem acts_notes {acts : List Act}
    (h : ∀ act ∈ acts, act = .headersComplete ∨ act = .messageComplete) :
    (l.acts p acts).mark = l.mark ∧
      spelled (l.acts p acts).calls = spelled l.calls ++ acts.flatMap Act.notes := by
  induction acts generalizing l with
  | nil => exact ⟨rfl, (List.append_nil _).symm⟩
  | cons act acts ih =>
      obtain ⟨hmark, hcalls⟩ := ih (l := l.act p act) fun a ha => h a (List.mem_cons_of_mem act ha)
      rw [acts_cons, hmark, hcalls, List.flatMap_cons, ← List.append_assoc]
      obtain rfl | rfl := h act List.mem_cons_self
      · exact ⟨rfl, congrArg (· ++ _) (spelled_append l.calls [.headersComplete])⟩
      · exact ⟨rfl, congrArg (· ++ _) (spelled_append l.calls [.messageComplete])⟩

end Acts

/-! ## A turn outside of the bodies -/

theorem datum_eq_marked {before : State} (hbody : before ≠ .bodyIdentity)
    (hchunk : before ≠ .chunkData) (after : State) : datum before after = after.marked := by
  unfold datum
  split
  · exact absurd rfl hbody
  · exact absurd rfl hchunk
  · rfl

theorem acts_of_chunkDataAlmostDone {s : Parser} {ch : UInt8} {avail : Nat}
    (h : s.state = .chunkDataAlmostDone) (hgoes : (s.turn ch avail).Goes) :
    (s.turn ch avail).acts = [.data .body 0] := by
  unfold Parser.turn at hgoes ⊢
  simp only [h, caseChunkDataAlmostDone] at hgoes ⊢
  split_ifs at hgoes ⊢
  · exact absurd hgoes (not_goes_stuck _)
  · exact absurd hgoes (not_goes_fail _ _)
  · rfl

theorem Moves.tracks {before : State} {ch : UInt8} {t : Turn} (h : Moves before ch t)
    (hbody : before ≠ .bodyIdentity) (hchunk : before ≠ .chunkData)
    (hend : before = .chunkDataAlmostDone → t.acts = [.data .body 0])
    {l : Locals} {rest : List UInt8} {out : List Event} (hf : Follows before l (ch :: rest) out) :
    Tracks t.parser.state (l.acts (ch :: rest) t.acts) rest (out ++ t.out before ch) := by
  rw [Turn.out, datum_eq_marked hbody hchunk]
  -- behind a jump the only act is the callback for the chunk
  obtain htracks | ⟨word, hstate, hwhere, hmark, hout⟩ := hf
  swap
  · have hacts := hend (hwhere.resolve_right (List.cons_ne_nil _ _))
    have hafter : t.parser.state.marked = none := by
      cases h with
      | idle _ hafter => exact hafter
      | stays d hbefore =>
          rw [hstate] at hbefore
          cases hbefore
      | opens d _ _ hacts' =>
          rw [hacts'] at hacts
          cases hacts
      | closes _ _ hafter => exact hafter
      | empty _ _ hafter => exact hafter
      | chunk _ hafter => exact hafter
    rw [hacts, acts_cons, act_data 0 hmark, acts_nil, hafter]
    refine .closed hafter rfl ?_
    rw [spelled_append, spelled_single, events_data, hout]
    simp [Act.notes]
  obtain ⟨hnone, hmark, hout⟩ | ⟨d, word, hsome, hmark, hout⟩ := htracks
  · cases h with
    | idle _ hafter hacts =>
        obtain ⟨hsame, hcalls⟩ := acts_notes (l := l) (p := ch :: rest) hacts
        rw [hafter]
        exact .closed hafter (hsame.trans hmark) (by rw [hcalls, hout]; rfl)
    | stays d hbefore =>
        rw [hnone] at hbefore
        cases hbefore
    | opens d _ hafter hacts =>
        rw [hacts, acts_cons, act_mark d hmark, acts_nil, hafter]
        exact .opened d [ch] hafter rfl (by rw [hout]; simp [Act.notes])
    | closes d hbefore =>
        rw [hnone] at hbefore
        cases hbefore
    | empty d _ hafter hacts =>
        rw [hacts, acts_cons, act_mark d hmark, acts_cons, act_data 0 rfl, acts_nil, hafter]
        refine .closed hafter rfl ?_
        rw [spelled_append, spelled_single, hout]
        simp [Call.events, Act.notes]
    | chunk hbefore hafter hacts =>
        have hnot : l.mark .body = none := by rw [hmark]; rfl
        rw [hacts, acts_cons, act_data_other 0 hnot, acts_nil, hafter]
        exact .closed hafter hmark (by rw [hout]; simp [Act.notes])
  · cases h with
    | idle hbefore =>
        rw [hsome] at hbefore
        cases hbefore
    | stays d' hbefore hafter hacts =>
        rw [hsome] at hbefore
        obtain rfl := Option.some.inj hbefore
        rw [hacts, acts_nil, hafter]
        refine .opened d (word ++ [ch]) hafter ?_ ?_
        · rw [hmark, List.append_assoc]
          rfl
        · rw [hout]
          simp
    | opens d' hbefore =>
        rw [hsome] at hbefore
        cases hbefore
    | closes d' hbefore hafter hacts =>
        rw [hsome] at hbefore
        obtain rfl := Option.some.inj hbefore
        rw [hacts, acts_cons, act_data 0 hmark, acts_nil, hafter]
        refine .closed hafter rfl ?_
        rw [spelled_append, spelled_single, events_data, hout]
        simp [Act.notes]
    | empty d' hbefore =>
        rw [hsome] at hbefore
        cases hbefore
    | chunk hbefore =>
        rw [hbefore] at hsome
        cases hsome

/-! ## The end of a buffer -/

/-- At the end of a buffer the marked string is called back. -/
theorem finish_follows {s : Parser} {l : Locals} {out : List Event}
    (h : Follows s.state l [] out) :
    ∃ e, finish s l = some e ∧ e.parser = s ∧ e.unread = [] ∧ spelled e.calls = out := by
  have hclosed : l.mark = noMark → ∃ e, finish s l = some e ∧ e.parser = s ∧ e.unread = [] ∧
      e.calls = l.calls := by
    intro hmark
    have hnone : ∀ d, l.mark d = none := fun d => by rw [hmark]; rfl
    refine ⟨⟨s, l.calls, [], 0⟩, ?_, rfl, rfl, rfl⟩
    rw [finish, if_neg (by simp [hnone])]
    simp only [allData, List.map_cons, List.map_nil, acts_cons, act_data_other 0 (hnone _), acts_nil]
  have hopened : ∀ d word, l.mark = oneMark d (word ++ []) →
      ∃ e, finish s l = some e ∧ e.parser = s ∧ e.unread = [] ∧
        spelled e.calls = spelled l.calls ++ word.map (.data d) := by
    intro d word hmark
    have hnone : ∀ d' more, d' ≠ d → l.act [] (.data d' more) = l := fun d' more hne =>
      act_data_other more (by rw [hmark, oneMark, Function.update_of_ne hne]; rfl)
    have hdone : ∀ d' more, (l.act [] (.data d 0)).act [] (.data d' more) = l.act [] (.data d 0) := by
      intro d' more
      rw [act_data 0 hmark]
      exact act_data_other more rfl
    have hacts : l.acts [] (allData.map fun d' => .data d' 0) = l.act [] (.data d 0) := by
      cases d <;> simp [allData, acts_cons, acts_nil, hnone, hdone]
    have hcount : ¬ 1 < (allData.filter fun d' => (l.mark d').isSome).length := by
      rw [hmark]
      cases d <;> simp [allData, oneMark, noMark, Function.update]
    refine ⟨⟨s, (l.act [] (.data d 0)).calls, [], 0⟩, ?_, rfl, rfl, ?_⟩
    · rw [finish, if_neg hcount, hacts]
    · rw [act_data 0 hmark, spelled_append, spelled_single, events_data]
  obtain (⟨_, hmark, hout⟩ | ⟨d, word, _, hmark, hout⟩) | ⟨word, _, _, hmark, hout⟩ := h
  · obtain ⟨e, he, hparser, hunread, hcalls⟩ := hclosed hmark
    exact ⟨e, he, hparser, hunread, by rw [hcalls, hout]⟩
  · obtain ⟨e, he, hparser, hunread, hcalls⟩ := hopened d word hmark
    exact ⟨e, he, hparser, hunread, hcalls.trans hout.symm⟩
  · obtain ⟨e, he, hparser, hunread, hcalls⟩ := hopened .body word hmark
    exact ⟨e, he, hparser, hunread, hcalls.trans hout.symm⟩

/-! ## Bodies -/

/-- What a state between two bytes promises, with no error set. -/
structure Parser.Sound (s : Parser) : Prop where
  errno : s.errno = .ok
  expects : s.Expects
  bounded : s.Bounded httpMaxHeaderSize

theorem sound_init : Parser.init.Sound := ⟨rfl, trivial, ⟨by decide, by decide, by decide, by decide⟩⟩

/-- The parser inside of a body, with the bytes that are still missing. -/
structure Parser.InBody (s : Parser) (n : Nat) : Prop where
  state : s.state = .bodyIdentity ∨ s.state = .chunkData
  chunked : s.state = .chunkData → s.flags.chunked = true
  length : s.contentLength = n
  pos : 0 < n
  lt : n < ullongMax

theorem Parser.Sound.inBody {s : Parser} (h : s.Sound)
    (hstate : s.state = .bodyIdentity ∨ s.state = .chunkData) : s.InBody s.contentLength := by
  have hle := h.bounded.contentLength
  have hexpects := h.expects
  unfold Parser.Expects at hexpects
  obtain hbody | hchunk := hstate
  · rw [hbody] at hexpects
    have hzero : s.contentLength ≠ 0 := hexpects.1
    have hmax : s.contentLength ≠ ullongMax := hexpects.2
    exact ⟨.inl hbody, by rw [hbody]; exact nofun, rfl, by omega, by omega⟩
  · rw [hchunk] at hexpects
    have hzero : s.contentLength ≠ 0 := hexpects.2.1
    have hmax : s.contentLength ≠ ullongMax := hexpects.2.2
    exact ⟨.inr hchunk, fun _ => hexpects.1, rfl, by omega, by omega⟩

section Bodies

variable {s : Parser} {n : Nat}

theorem Parser.InBody.parsingHeader (h : s.InBody n) : s.state.parsingHeader = false := by
  obtain hstate | hstate := h.state <;> rw [hstate] <;> rfl

theorem Parser.InBody.count (h : s.InBody n) : s.count = s := by
  rw [Parser.count, h.parsingHeader]
  rfl

theorem Parser.InBody.fits (h : s.InBody n) : ¬ s.Overflows := fun hover => by
  have hheader := hover.1
  rw [h.parsingHeader] at hheader
  cases hheader

theorem Parser.InBody.marked (h : s.InBody n) : s.state.marked = none := by
  obtain hstate | hstate := h.state <;> rw [hstate] <;> rfl

theorem Parser.InBody.datum (h : s.InBody n) (after : State) :
    datum s.state after = some .body := by
  obtain hstate | hstate := h.state <;> rw [hstate] <;> rfl

/-- The turn that does not reach the end of the body. -/
theorem Parser.InBody.turn_more (h : s.InBody n) (ch : UInt8) {avail : Nat} (hmore : avail < n) :
    s.turn ch avail = ⟨{ s with contentLength := n - avail }, [.mark .body], .next, avail - 1⟩ := by
  have hpos := h.pos
  have hlt := h.lt
  have hmin : min n avail = avail := by omega
  have hleft : ¬ n - avail = 0 := by omega
  have hne : n ≠ ullongMax := by omega
  unfold Parser.turn
  obtain hstate | hstate := h.state
  · simp [hstate, caseBodyIdentity, h.length, hmin, hleft, hne, hpos.ne', Parser.brk, Turn.after]
  · simp [hstate, caseChunkData, h.chunked hstate, h.length, hmin, hleft, hne, hpos.ne', Parser.brk,
      Turn.after]

/-- The parser behind the last byte of a body. -/
def Parser.bodyDone (s : Parser) : Parser :=
  let s := { s with contentLength := 0 }
  if s.state = .bodyIdentity then s.goTo s.newMessage else s.goTo .chunkDataAlmostDone

/-- A body with a length ends its message. -/
def Parser.bodyActs (s : Parser) (more : Nat) : List Act :=
  if s.state = .bodyIdentity then [.mark .body, .data .body more, .messageComplete]
  else [.mark .body]

/-- The turn that does. -/
theorem Parser.InBody.turn_last (h : s.InBody n) (ch : UInt8) {avail : Nat} (hle : n ≤ avail) :
    s.turn ch avail = ⟨s.bodyDone, s.bodyActs n, .next, n - 1⟩ := by
  have hpos := h.pos
  have hlt := h.lt
  have hmin : min n avail = n := by omega
  have hne : n ≠ ullongMax := by omega
  unfold Parser.turn
  obtain hstate | hstate := h.state
  · simp [hstate, caseBodyIdentity, caseMessageDone, h.length, hmin, hne, hpos.ne', Parser.brk,
      Turn.after, Parser.bodyDone, Parser.bodyActs, Parser.goTo, Parser.newMessage,
      Parser.shouldKeepAlive]
  · simp [hstate, caseChunkData, h.chunked hstate, h.length, hmin, hne, hpos.ne', Parser.brk,
      Turn.after, Parser.bodyDone, Parser.bodyActs]

theorem Parser.InBody.less (h : s.InBody n) {m : Nat} (hpos : 0 < m) (hle : m ≤ n) :
    ({ s with contentLength := m } : Parser).InBody m :=
  ⟨h.state, h.chunked, rfl, hpos, hle.trans_lt h.lt⟩

theorem react_body (h : s.InBody n) (ch : UInt8) :
    react s ch =
      .go (if 1 < n then { s with contentLength := n - 1 } else s.bodyDone)
        (.data .body ch :: if 1 < n then [] else (s.bodyActs 1).flatMap Act.notes) := by
  rw [react, if_neg h.fits, unlimited, h.count]
  by_cases hmore : 1 < n
  · rw [h.turn_more ch hmore]
    simp [Turn.out, h.datum, hmore, Act.notes]
  · have hone : n = 1 := by
      have := h.pos
      omega
    subst hone
    rw [h.turn_last ch le_rfl]
    simp [Turn.out, h.datum]

/-- A word that is shorter than what is missing. -/
theorem takes_body (word : List UInt8) :
    ∀ {s : Parser} {n : Nat}, s.InBody n → word.length < n →
      Takes react s word { s with contentLength := n - word.length } (word.map (.data .body)) := by
  induction word with
  | nil =>
      intro s n h _
      have hlength := h.length
      subst hlength
      exact Takes.nil s
  | cons ch word ih =>
      intro s n h hlt
      have hmore : 1 < n := by
        rw [List.length_cons] at hlt
        omega
      have hfirst := react_body h ch
      rw [if_pos hmore, if_pos hmore] at hfirst
      have hrest := ih (h.less (m := n - 1) (by omega) (by omega)) (by
        rw [List.length_cons] at hlt
        omega)
      have hsub : n - 1 - word.length = n - (ch :: word).length := by
        rw [List.length_cons]
        omega
      rw [hsub] at hrest
      exact Takes.cons hfirst hrest

/-- The whole of what is missing. -/
theorem takes_body_last {word : List UInt8} (h : s.InBody n) (hlength : word.length = n) :
    Takes react s word s.bodyDone
      (word.map (.data .body) ++ (s.bodyActs n).flatMap Act.notes) := by
  have hne : word ≠ [] := fun hnil => by
    have := h.pos
    rw [hnil] at hlength
    exact absurd hlength (by simp; omega)
  have hsplit := List.dropLast_append_getLast hne
  have hfront : word.dropLast.length = n - 1 := by rw [List.length_dropLast, hlength]
  have hpos := h.pos
  have hmost := takes_body word.dropLast h (by omega)
  have hone : n - word.dropLast.length = 1 := by omega
  rw [hone] at hmost
  have hlast := react_body (h.less (m := 1) (by omega) (by omega)) (word.getLast hne)
  rw [if_neg (by omega), if_neg (by omega)] at hlast
  have htakes := hmost.append (Takes.single hlast)
  rw [hsplit] at htakes
  have hout : word.map (Event.data .body) =
      word.dropLast.map (.data .body) ++ [.data .body (word.getLast hne)] := by
    rw [← List.map_singleton, ← List.map_append, hsplit]
  have hnotes : (s.bodyActs 1).flatMap Act.notes = (s.bodyActs n).flatMap Act.notes := by
    unfold Parser.bodyActs
    split_ifs <;> rfl
  rw [hout, List.append_assoc, ← hnotes]
  exact htakes

end Bodies

/-! ## One buffer -/

theorem bounded_count {s : Parser} (h : s.Bounded httpMaxHeaderSize) (hfits : ¬ s.Overflows) :
    s.count.Bounded httpMaxHeaderSize := by
  unfold Parser.Overflows Parser.count at hfits
  unfold Parser.count
  split_ifs at hfits ⊢ with hheader
  · exact ⟨Nat.le_of_not_lt fun hlt => hfits ⟨hheader, hlt⟩, h.contentLength, h.httpMajor,
      h.httpMinor⟩
  · exact h

theorem sound_turn {s : Parser} (h : s.Sound) (hfits : ¬ s.Overflows) {ch : UInt8} {avail : Nat}
    (hgoes : (s.count.turn ch avail).Goes) : (s.count.turn ch avail).parser.Sound := by
  have herror : (s.count.turn ch avail).ctrl ≠ .error := by
    obtain hctrl | hctrl := hgoes <;> rw [hctrl] <;> exact nofun
  refine ⟨?_, (fine_turn h.expects h.bounded.contentLength ch avail).2 herror,
    bounded_turn (bounded_count h.bounded hfits) ch avail herror⟩
  have herrno := (count_errno s).trans h.errno
  have hends := ends_turn (s := s.count) ch avail
  obtain hctrl | hctrl := hgoes
  · exact (hends.of_next hctrl).1.trans herrno
  · exact (hends.of_leave hctrl).1.trans herrno

/-- A call against `react`: the same parser, the same unread bytes, and the same events, but for
the end of a string at an error. -/
structure Agrees (e : Executed) (out : List Event) (fed : Fed Parser UInt8 Event) : Prop where
  parser : e.parser = fed.state
  unread : e.unread = fed.rest
  calls : ∃ (d : Data) (word : List UInt8),
    out ++ fed.out = spelled e.calls ++ word.map (.data d) ∧ (fed.state.errno = .ok → word = [])

theorem agrees_all {e : Executed} {out : List Event} {fed : Fed Parser UInt8 Event}
    (hparser : e.parser = fed.state) (hunread : e.unread = fed.rest)
    (hcalls : spelled e.calls = out ++ fed.out) : Agrees e out fed :=
  ⟨hparser, hunread, .body, [], by rw [hcalls, List.map_nil, List.append_nil], fun _ => rfl⟩

/-- The string that is kept back at an error. -/
theorem agrees_error {s : Parser} {state : State} {l : Locals} {p : List UInt8} {out : List Event}
    {calls : List Call} (h : Follows state l p out) (hcalls : calls = l.calls)
    (herrno : s.errno ≠ .ok) : Agrees ⟨s, calls, p, 0⟩ out ⟨s, [], p, false⟩ := by
  have hlost : ∃ (d : Data) (word : List UInt8), out = spelled l.calls ++ word.map (.data d) := by
    obtain (⟨_, _, hout⟩ | ⟨d, word, _, _, hout⟩) | ⟨word, _, _, _, hout⟩ := h
    · exact ⟨.body, [], by rw [hout, List.map_nil, List.append_nil]⟩
    · exact ⟨d, word, hout⟩
    · exact ⟨.body, word, hout⟩
  obtain ⟨d, word, hout⟩ := hlost
  exact ⟨rfl, rfl, d, word, by rw [hcalls, List.append_nil, hout], fun hok => absurd hok herrno⟩

theorem Agrees.behind {e : Executed} {out out' : List Event} {fed : Fed Parser UInt8 Event}
    (h : Agrees e (out ++ out') fed) : Agrees e out (fed.behind out') := by
  refine ⟨h.parser, h.unread, ?_⟩
  rw [Fed.behind_out, ← List.append_assoc]
  exact h.calls

theorem loop_skip (s : Parser) (l : Locals) :
    ∀ (skip : Nat) (p : List UInt8), loop skip s l p = loop 0 s l (p.drop skip) := by
  intro skip
  induction skip with
  | zero => exact fun p => rfl
  | succ skip ih =>
      intro p
      cases p with
      | nil => rfl
      | cons ch rest => exact ih rest

theorem calls_of_marks {l : Locals} {p : List UInt8} {acts : List Act}
    (h : ∀ act ∈ acts, ∃ d, act = .mark d) : (l.acts p acts).calls = l.calls := by
  induction acts generalizing l with
  | nil => rfl
  | cons act acts ih =>
      obtain ⟨d, rfl⟩ := h act List.mem_cons_self
      rw [acts_cons, ih fun a ha => h a (List.mem_cons_of_mem _ ha)]
      unfold Locals.act
      dsimp only
      cases l.mark d <;> rfl

/-- A byte that is not jumped over. -/
theorem loop_cons (s : Parser) (l : Locals) (ch : UInt8) (rest : List UInt8) :
    loop 0 s l (ch :: rest) =
      if s.Overflows then some ⟨{ s.count with errno := .headerOverflow }, l.calls, ch :: rest, 0⟩
      else
        let t := s.count.turn ch (rest.length + 1)
        let l := l.acts (ch :: rest) t.acts
        match t.ctrl with
        | .next => loop t.skip t.parser l rest
        | .leave => some ⟨t.parser, l.calls, rest, 0⟩
        | .error => some ⟨t.parser, l.calls, ch :: rest, 0⟩
        | .stuck => none := by
  rw [loop]
  simp only [count_state]
  rfl

theorem loop_body_more {s : Parser} {n : Nat} (h : s.InBody n) {l : Locals} {out : List Event}
    {p : List UInt8} (hmark : l.mark = noMark) (hout : out = spelled l.calls) (hne : p ≠ [])
    (hmore : p.length < n) :
    ∃ e, loop 0 s l p = some e ∧ Agrees e out (feed react s p) := by
  obtain ⟨ch, rest, rfl⟩ := List.exists_cons_of_ne_nil hne
  have hturn := @Parser.InBody.turn_more _ _ h ch (rest.length + 1) hmore
  rw [loop_cons, if_neg h.fits, h.count]
  simp only [hturn, acts_cons, act_mark .body hmark, acts_nil]
  rw [loop_skip, Nat.add_sub_cancel, List.drop_length]
  have hfollows : Follows ({ s with contentLength := n - (rest.length + 1) } : Parser).state
      ⟨oneMark .body (ch :: rest), l.calls⟩ [] (out ++ (ch :: rest).map (.data .body)) :=
    .body (ch :: rest) h.marked (.inr rfl) (by rw [List.append_nil]) (by rw [hout])
  obtain ⟨e, he, hparser, hunread, hcalls⟩ := finish_follows hfollows
  have hfed := takes_body (ch :: rest) h hmore
  rw [Takes] at hfed
  exact ⟨e, he, agrees_all (by rw [hparser, hfed]; rfl) (by rw [hunread, hfed])
    (by rw [hcalls, hfed])⟩

/-- The jump over the rest of a body. -/
theorem follows_bodyDone {s : Parser} {n : Nat} (h : s.InBody n) {l : Locals} {out : List Event}
    (hmark : l.mark = noMark) (hout : out = spelled l.calls) (p : List UInt8) :
    Follows s.bodyDone.state (l.acts p (s.bodyActs n)) (p.drop n)
      (out ++ ((p.take n).map (.data .body) ++ (s.bodyActs n).flatMap Act.notes)) := by
  unfold Parser.bodyDone Parser.bodyActs
  obtain hstate | hstate := h.state
  · rw [if_pos hstate, if_pos hstate]
    refine .tracks (.closed (marked_newMessage _) ?_ ?_)
    · rw [acts_cons, act_mark .body hmark, acts_cons, act_data n rfl]
      rfl
    · rw [acts_cons, act_mark .body hmark, acts_cons, act_data n rfl, acts_cons, acts_nil]
      have hlength : p.length - p.length + n = n := by omega
      rw [hlength, hout]
      simp [Locals.act, spelled, Call.events, Act.notes]
  · have hne : s.state ≠ .bodyIdentity := by rw [hstate]; nofun
    rw [if_neg hne, if_neg hne]
    refine .body (p.take n) rfl (.inl rfl) ?_ ?_
    · rw [acts_cons, act_mark .body hmark, acts_nil, List.take_append_drop]
    · rw [acts_cons, act_mark .body hmark, acts_nil, hout]
      simp [Act.notes]

/-- The loop calls back what `react` gives out. -/
theorem loop_agrees (p : List UInt8) : ∀ {s : Parser} {l : Locals} {out : List Event},
    s.Sound → Follows s.state l p out →
      ∃ e, loop 0 s l p = some e ∧ Agrees e out (feed react s p) := by
  induction hp : p.length using Nat.strong_induction_on generalizing p with
  | _ size ih =>
  intro s l out hs hf
  subst hp
  cases p with
  | nil =>
      obtain ⟨e, he, hparser, hunread, hcalls⟩ := finish_follows hf
      refine ⟨e, ?_, agrees_all hparser hunread ?_⟩
      · rw [loop, he]
      · rw [hcalls]
        exact (List.append_nil out).symm
  | cons ch rest =>
  by_cases hstate : s.state = .bodyIdentity ∨ s.state = .chunkData
  · -- a body is left in one jump
    have hbody := hs.inBody hstate
    have hclosed : l.mark = noMark ∧ out = spelled l.calls := by
      obtain (⟨_, hmark, hout⟩ | ⟨d, _, hsome, _, _⟩) | ⟨_, _, hwhere, _, _⟩ := hf
      · exact ⟨hmark, hout⟩
      · rw [hbody.marked] at hsome
        cases hsome
      · obtain hend | hnil := hwhere
        · rw [hend] at hstate
          obtain hstate | hstate := hstate <;> cases hstate
        · cases hnil
    obtain ⟨hmark, hout⟩ := hclosed
    by_cases hmore : (ch :: rest).length < s.contentLength
    · exact loop_body_more hbody hmark hout (List.cons_ne_nil ch rest) hmore
    · have hle : s.contentLength ≤ (ch :: rest).length := Nat.le_of_not_lt hmore
      have hpos := hbody.pos
      have hdrop : rest.drop (s.contentLength - 1) = (ch :: rest).drop s.contentLength := by
        rw [← List.drop_succ_cons, Nat.sub_add_cancel hpos]
      have hturn := @Parser.InBody.turn_last _ _ hbody ch (rest.length + 1) hle
      have htake : ((ch :: rest).take s.contentLength).length = s.contentLength :=
        List.length_take_of_le hle
      have htakes := takes_body_last hbody htake
      have hfed := htakes.feed_append ((ch :: rest).drop s.contentLength)
      rw [List.take_append_drop] at hfed
      have hsound : s.bodyDone.Sound := by
        have hgoes : (s.count.turn ch (rest.length + 1)).Goes := by
          rw [hbody.count, hturn]
          exact .inl rfl
        have hsound := sound_turn hs hbody.fits hgoes
        rwa [hbody.count, hturn] at hsound
      obtain ⟨e, he, hagrees⟩ := ih ((ch :: rest).drop s.contentLength).length
        (by rw [List.length_drop]; omega) _ rfl hsound (follows_bodyDone hbody hmark hout _)
      refine ⟨e, ?_, ?_⟩
      · rw [loop_cons, if_neg hbody.fits, hbody.count]
        simp only [hturn]
        rw [loop_skip, hdrop, he]
      · rw [hfed]
        exact hagrees.behind
  · obtain ⟨hidentity, hchunk⟩ := not_or.mp hstate
    by_cases hover : s.Overflows
    · refine ⟨⟨{ s.count with errno := .headerOverflow }, l.calls, ch :: rest, 0⟩, ?_, ?_⟩
      · rw [loop_cons, if_pos hover]
      · rw [feed_refuse (if_pos hover)]
        exact agrees_error hf rfl nofun
    · have hidentity' : s.count.state ≠ .bodyIdentity := by rwa [count_state]
      have hchunk' : s.count.state ≠ .chunkData := by rwa [count_state]
      obtain ⟨hskip, hone⟩ := turn_one hidentity' hchunk' ch (rest.length + 1)
      rw [loop_cons, if_neg hover]
      dsimp only
      rw [hskip, hone]
      have hsound := @sound_turn s hs hover ch 1
      have hfine := (fine_turn hs.expects hs.bounded.contentLength ch 1).1
      have hends := ends_turn (s := s.count) ch 1
      have hmoves := @moves_turn s.count ch hidentity' hchunk' 1
      have hend := @acts_of_chunkDataAlmostDone s.count ch 1
      have hreact : react s ch = unlimited s ch := if_neg hover
      rw [unlimited] at hreact
      generalize s.count.turn ch 1 = t at *
      rw [count_state] at hmoves hend
      cases hctrl : t.ctrl with
      | next =>
          have hgoes : t.Goes := .inl hctrl
          rw [hctrl] at hreact
          have htracks := (hmoves hgoes).tracks hidentity hchunk (fun h => hend h hgoes) hf
          obtain ⟨e, he, hagrees⟩ := ih rest.length (Nat.lt_succ_self _) rest rfl (hsound hgoes)
            (.tracks htracks)
          refine ⟨e, he, ?_⟩
          rw [feed_go hreact]
          exact hagrees.behind
      | leave =>
          have hgoes : t.Goes := .inr hctrl
          rw [hctrl] at hreact
          refine ⟨_, rfl, ?_⟩
          rw [feed_leave hreact]
          refine agrees_all rfl rfl ?_
          have hunmarked := (hends.of_leave hctrl).2.2
          obtain ⟨-, -, hout⟩ | ⟨d, _, hsome⟩ :=
            (hmoves hgoes).tracks hidentity hchunk (fun h => hend h hgoes) hf
          · exact hout.symm
          · rw [hunmarked] at hsome
            cases hsome
      | error =>
          rw [hctrl] at hreact
          refine ⟨_, rfl, ?_⟩
          rw [feed_refuse hreact]
          obtain ⟨herrno, hacts⟩ := hends.of_error hctrl
          exact agrees_error hf (calls_of_marks hacts) herrno
      | stuck => exact absurd hctrl hfine

/-- `http_parser_execute` on a buffer with at least one byte. -/
theorem execute_agrees {s : Parser} (hs : s.Sound) {data : List UInt8} (hdata : data ≠ []) :
    ∃ e, execute s data = some e ∧ Agrees e [] (feed react s data) := by
  rw [execute, if_neg (not_not.mpr hs.errno), if_neg hdata]
  refine loop_agrees data hs (.tracks ?_)
  cases hmarked : s.state.marked with
  | none => exact .closed hmarked rfl rfl
  | some d =>
      refine .opened d [] hmarked ?_ rfl
      funext d'
      by_cases hd : d' = d
      · subst hd
        rw [List.nil_append, oneMark_self]
        exact if_pos rfl
      · rw [oneMark, Function.update_of_ne hd]
        exact if_neg fun h => hd (Option.some.inj h).symm

end Machine
end Http
end TcMuzi
