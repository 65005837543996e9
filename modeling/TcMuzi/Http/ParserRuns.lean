import TcMuzi.Http.Agreement

/-!
# Buffer after buffer

A stream may be cut into buffers anywhere, and no stream makes an assertion fail or a string
leave its buffer.

* `executeAll` is the documented use: the next buffer is passed as long as there is no error
  and no upgrade.
* `executeEach` passes every buffer, whatever the calls before it have found.
-/

namespace TcMuzi
namespace Http
namespace Machine

open Base Lib

/-! ## Runs -/

/-- What a byte can do. -/
inductive Reacts (s : Parser) : Reaction Parser Event → Prop
  | go {s' : Parser} {out : List Event} (hs : s'.Sound)
      (hupgrade : s.upgrade = false → s'.upgrade = false) : Reacts s (.go s' out)
  | leave {s' : Parser} {out : List Event} (hs : s'.Sound) (hupgrade : s'.upgrade = true) :
      Reacts s (.leave s' out)
  | refuse {s' : Parser} (herrno : s'.errno ≠ .ok) : Reacts s (.refuse s')

theorem reacts {s : Parser} (hs : s.Sound) (ch : UInt8) : Reacts s (react s ch) := by
  by_cases hover : s.Overflows
  · rw [react, if_pos hover]
    exact .refuse fun h => by cases h
  rw [react, if_neg hover, unlimited]
  have hends := ends_turn (s := s.count) ch 1
  cases hctrl : (s.count.turn ch 1).ctrl with
  | next =>
      exact .go (sound_turn hs hover (.inl hctrl)) fun hup =>
        (hends.of_next hctrl).2 ((count_upgrade s).trans hup)
  | leave =>
      exact .leave (sound_turn hs hover (.inr hctrl)) (hends.of_leave hctrl).2.1
  | error =>
      exact .refuse (hends.of_error hctrl).1
  | stuck => exact absurd hctrl (fine_turn hs.expects hs.bounded.contentLength ch 1).1

/-- A parser that goes on has neither an error nor an upgrade; one that has stopped has one. -/
theorem feed_stops {s : Parser} (hs : s.Sound) (word : List UInt8) :
    ((feed react s word).running = true → (feed react s word).state.Sound ∧
      (s.upgrade = false → (feed react s word).state.upgrade = false)) ∧
    ((feed react s word).running = false → (feed react s word).state.errno ≠ .ok ∨
      (feed react s word).state.Sound ∧ (feed react s word).state.upgrade = true) := by
  refine state_feed (P := fun s' : Parser => s'.Sound ∧ (s.upgrade = false → s'.upgrade = false))
    (Q := fun s' : Parser => s'.errno ≠ .ok ∨ s'.Sound ∧ s'.upgrade = true) ?_ ?_ ?_ ⟨hs, id⟩ word
  · rintro s ch s' out ⟨hs, hup⟩ h
    have hreacts := reacts hs ch
    rw [h] at hreacts
    cases hreacts with
    | go hs' hup' => exact ⟨hs', fun hfalse => hup' (hup hfalse)⟩
  · rintro s ch s' out ⟨hs, -⟩ h
    have hreacts := reacts hs ch
    rw [h] at hreacts
    cases hreacts with
    | leave hs' hup' => exact .inr ⟨hs', hup'⟩
  · rintro s ch s' ⟨hs, -⟩ h
    have hreacts := reacts hs ch
    rw [h] at hreacts
    cases hreacts with
    | refuse herrno => exact .inl herrno

/-- Buffer after buffer, until there is an error or an upgrade. -/
def executeAll : Parser → List (List UInt8) → Option Executed
  | s, [] => some ⟨s, [], [], 0⟩
  | s, data :: bufs => do
      let e ← execute s data
      if e.parser.errno ≠ .ok ∨ e.parser.upgrade then
        return { e with unread := e.unread ++ bufs.flatten }
      else
        let e' ← executeAll e.parser bufs
        return { e' with calls := e.calls ++ e'.calls }

theorem executeAll_cons {s : Parser} {data : List UInt8} {bufs : List (List UInt8)} {e : Executed}
    (h : execute s data = some e) :
    executeAll s (data :: bufs) =
      if e.parser.errno ≠ .ok ∨ e.parser.upgrade then
        some { e with unread := e.unread ++ bufs.flatten }
      else (executeAll e.parser bufs).map fun e' => { e' with calls := e.calls ++ e'.calls } := by
  rw [executeAll, h]
  simp only [Option.bind_eq_bind, Option.bind_some, Option.pure_def]
  split_ifs
  · rfl
  · cases executeAll e.parser bufs <;> rfl

/-- The pieces of a stream, against the whole stream byte by byte. -/
theorem executeAll_agrees {s : Parser} (hs : s.Sound) (hupgrade : s.upgrade = false)
    {bufs : List (List UInt8)} (hbufs : ∀ data ∈ bufs, data ≠ []) :
    ∃ e, executeAll s bufs = some e ∧ Agrees e [] (feed react s bufs.flatten) := by
  induction bufs generalizing s with
  | nil => exact ⟨⟨s, [], [], 0⟩, rfl, agrees_all rfl rfl rfl⟩
  | cons data bufs ih =>
      obtain ⟨e, he, hagrees⟩ := execute_agrees hs (hbufs data List.mem_cons_self)
      obtain ⟨hgo, hstop⟩ := feed_stops hs data
      rw [executeAll_cons he, List.flatten_cons, feed_append, hagrees.parser]
      cases hrunning : (feed react s data).running with
      | false =>
          rw [if_pos ((hstop hrunning).imp_right And.right), if_neg nofun, ← hagrees.unread]
          exact ⟨_, rfl, rfl, rfl, hagrees.calls⟩
      | true =>
          obtain ⟨hs', hkept⟩ := hgo hrunning
          have hupgrade' := hkept hupgrade
          obtain ⟨e', he', hagrees'⟩ := ih hs' hupgrade' fun data h =>
            hbufs data (List.mem_cons_of_mem _ h)
          obtain ⟨d, word, hcalls, hlost⟩ := hagrees.calls
          rw [hlost hs'.errno, List.map_nil, List.append_nil, List.nil_append] at hcalls
          rw [if_neg (by simp [hs'.errno, hupgrade']), he', if_pos rfl]
          obtain ⟨d', word', hcalls', hlost'⟩ := hagrees'.calls
          refine ⟨_, rfl, hagrees'.parser, hagrees'.unread, d', word', ?_, hlost'⟩
          rw [List.nil_append] at hcalls' ⊢
          rw [Fed.behind_out, hcalls, hcalls', spelled_append, List.append_assoc]

/-- A stream that is taken, in any buffers. -/
theorem executeAll_of_takes {s s' : Parser} {out : List Event} {bufs : List (List UInt8)}
    (h : Takes react s bufs.flatten s' out) (hs : s.Sound) (hupgrade : s.upgrade = false)
    (herrno : s'.errno = .ok) (hbufs : ∀ data ∈ bufs, data ≠ []) :
    ∃ e, executeAll s bufs = some e ∧ e.parser = s' ∧ e.unread = [] ∧ spelled e.calls = out := by
  obtain ⟨e, he, hagrees⟩ := executeAll_agrees hs hupgrade hbufs
  rw [show feed react _ _ = _ from h] at hagrees
  obtain ⟨d, word, hcalls, hlost⟩ := hagrees.calls
  rw [hlost herrno, List.map_nil, List.append_nil, List.nil_append] at hcalls
  exact ⟨e, he, hagrees.parser, hagrees.unread, hcalls.symm⟩

/-- The cut of a stream into buffers does not matter.  Only at an error does a string come out
that was kept back for the other cut. -/
theorem executeAll_cut {bufs bufs' : List (List UInt8)} (hbufs : ∀ data ∈ bufs, data ≠ [])
    (hbufs' : ∀ data ∈ bufs', data ≠ []) (hstream : bufs.flatten = bufs'.flatten) :
    ∃ e e', executeAll .init bufs = some e ∧ executeAll .init bufs' = some e' ∧
      e.parser = e'.parser ∧ e.unread = e'.unread ∧
      (e.parser.errno = .ok → spelled e.calls = spelled e'.calls) ∧
      ∃ (d : Data) (word : List UInt8),
        spelled e'.calls = spelled e.calls ++ word.map (.data d) ∨
          spelled e.calls = spelled e'.calls ++ word.map (.data d) := by
  obtain ⟨e, he, hagrees⟩ := executeAll_agrees sound_init rfl hbufs
  obtain ⟨e', he', hagrees'⟩ := executeAll_agrees sound_init rfl hbufs'
  rw [← hstream] at hagrees'
  obtain ⟨d, word, hcalls, hlost⟩ := hagrees.calls
  obtain ⟨d', word', hcalls', hlost'⟩ := hagrees'.calls
  refine ⟨e, e', he, he', hagrees.parser.trans hagrees'.parser.symm,
    hagrees.unread.trans hagrees'.unread.symm, fun hok => ?_, ?_⟩
  · rw [hagrees.parser] at hok
    rw [hlost hok, List.map_nil, List.append_nil] at hcalls
    rw [hlost' hok, List.map_nil, List.append_nil] at hcalls'
    exact hcalls.symm.trans hcalls'
  · obtain ⟨more, hfront, hback⟩ | ⟨more, hfront, hback⟩ :=
      List.append_eq_append_iff.mp (hcalls.symm.trans hcalls')
    · obtain ⟨front, back, -, rfl, -⟩ := List.map_eq_append_iff.mp hback
      exact ⟨d, front, .inl hfront⟩
    · obtain ⟨front, back, -, rfl, -⟩ := List.map_eq_append_iff.mp hback
      exact ⟨d', front, .inr hfront⟩

/-- The first bytes of a request in one buffer and in two. -/
theorem executeAll_cut_get :
    ∃ e e', executeAll .init [[71, 69, 84, 32, 47]] = some e ∧
      executeAll .init [[71, 69], [84, 32, 47]] = some e' ∧
      e.parser = e'.parser ∧ e.unread = e'.unread ∧
      (e.parser.errno = .ok → spelled e.calls = spelled e'.calls) ∧
      ∃ (d : Data) (word : List UInt8),
        spelled e'.calls = spelled e.calls ++ word.map (.data d) ∨
          spelled e.calls = spelled e'.calls ++ word.map (.data d) :=
  executeAll_cut (by decide) (by decide) rfl

/-- A byte of a string is one that the string can have. -/
def Event.Clean : Event → Prop
  | .data d b => d.Clean b
  | .headersComplete => True
  | .messageComplete => True

theorem turn_clean {s : Parser} {ch : UInt8} (hgoes : (s.count.turn ch 1).Goes) :
    ∀ e ∈ (s.count.turn ch 1).out s.state ch, e.Clean := by
  have hnotes : ∀ act : Act, ∀ e ∈ act.notes, e.Clean := by
    intro act e he
    cases act with
    | headersComplete | messageComplete =>
        rw [List.mem_singleton.mp he]
        trivial
    | mark d | data d more => exact absurd he List.not_mem_nil
  intro e he
  obtain he | he := List.mem_append.mp he
  · obtain ⟨d, hd, rfl⟩ := Option.map_eq_some_iff.mp (Option.mem_toList.mp he)
    by_cases hbody : s.state = .bodyIdentity
    · rw [hbody] at hd
      obtain rfl := Option.some.inj hd
      trivial
    by_cases hchunk : s.state = .chunkData
    · rw [hchunk] at hd
      obtain rfl := Option.some.inj hd
      trivial
    rw [datum_eq_marked hbody hchunk] at hd
    cases moves_turn (by rwa [count_state]) (by rwa [count_state]) hgoes with
    | idle _ hafter | closes _ _ hafter | empty _ _ hafter | chunk _ hafter =>
        rw [hafter] at hd
        cases hd
    | stays d' _ hafter _ hclean | opens d' _ hafter _ hclean =>
        rw [hafter] at hd
        obtain rfl := Option.some.inj hd
        exact hclean
  · obtain ⟨act, -, hmem⟩ := List.mem_flatMap.mp he
    exact hnotes act e hmem

theorem react_clean {s s' : Parser} {ch : UInt8} {out : List Event}
    (h : react s ch = .go s' out ∨ react s ch = .leave s' out) : ∀ e ∈ out, e.Clean := by
  by_cases hover : s.Overflows
  · rw [react, if_pos hover] at h
    obtain h | h := h <;> cases h
  rw [react, if_neg hover, unlimited] at h
  have hclean := @turn_clean s ch
  cases hctrl : (s.count.turn ch 1).ctrl with
  | next =>
      simp only [hctrl] at h
      obtain h | h := h <;> cases h
      exact hclean (.inl hctrl)
  | leave =>
      simp only [hctrl] at h
      obtain h | h := h <;> cases h
      exact hclean (.inr hctrl)
  | error | stuck =>
      simp only [hctrl] at h
      obtain h | h := h <;> cases h

/-- URLs are visible, names are tokens, and values have no line ends, whatever the bytes of the
stream and its buffers are. -/
theorem executeAll_clean {bufs : List (List UInt8)} (hbufs : ∀ data ∈ bufs, data ≠ []) :
    ∃ e, executeAll .init bufs = some e ∧ ∀ event ∈ spelled e.calls, event.Clean := by
  obtain ⟨e, he, hagrees⟩ := executeAll_agrees sound_init rfl hbufs
  obtain ⟨d, word, hcalls, -⟩ := hagrees.calls
  rw [List.nil_append] at hcalls
  have hclean := @forall_out_feed _ _ _ react (fun _ => True) Event.Clean
    (fun s ch s' out _ hgo => ⟨trivial, react_clean (.inl hgo)⟩)
    (fun s ch s' out _ hleave => react_clean (.inr hleave)) .init trivial bufs.flatten
  rw [hcalls] at hclean
  exact ⟨e, he, fun event hevent => hclean event (List.mem_append_left _ hevent)⟩

theorem executeAll_clean_slash :
    ∃ e, executeAll .init [[71, 69, 84, 32, 47]] = some e ∧
      ∀ event ∈ spelled e.calls, event.Clean :=
  executeAll_clean (by decide)

/-! ## Any calls -/

/-- A string of a callback lies in the buffer. -/
def Call.InBuffer (data : List UInt8) : Call → Prop
  | .data _ at_ length => at_ <:+ data ∧ length ≤ at_.length
  | .headersComplete => True
  | .messageComplete => True

/-- The marks point into the buffer, not behind `p`. -/
structure Locals.InBuffer (data : List UInt8) (l : Locals) (p : List UInt8) : Prop where
  mark : ∀ d at_, l.mark d = some at_ → p <:+ at_ ∧ at_ <:+ data
  calls : ∀ call ∈ l.calls, call.InBuffer data

section InBuffer

variable {data p : List UInt8} {l : Locals}

theorem Locals.InBuffer.later (h : l.InBuffer data p) {p' : List UInt8} (hp : p' <:+ p) :
    l.InBuffer data p' :=
  ⟨fun d at_ hat => ⟨hp.trans (h.mark d at_ hat).1, (h.mark d at_ hat).2⟩, h.calls⟩

theorem Locals.InBuffer.call (h : l.InBuffer data p) {call : Call} (hcall : call.InBuffer data) :
    ∀ c ∈ l.calls ++ [call], c.InBuffer data := by
  intro c hc
  obtain hc | hc := List.mem_append.mp hc
  · exact h.calls c hc
  · rwa [List.mem_singleton.mp hc]

theorem Locals.InBuffer.act (h : l.InBuffer data p) (hp : p <:+ data) {act : Act}
    (hmore : ∀ d more, act = .data d more → more ≤ p.length) : (l.act p act).InBuffer data p := by
  cases act with
  | mark d =>
      cases hmark : l.mark d with
      | some at_ => rwa [Locals.act, hmark]
      | none =>
          rw [Locals.act, hmark]
          refine ⟨fun d' at_ hat => ?_, h.calls⟩
          by_cases hd : d' = d
          · subst hd
            have hself : Function.update l.mark d' (some p) d' = some p := Function.update_self ..
            obtain rfl := Option.some.inj (hself.symm.trans hat)
            exact ⟨List.suffix_rfl, hp⟩
          · exact h.mark d' at_ ((Function.update_of_ne hd ..).symm.trans hat)
  | data d more =>
      cases hmark : l.mark d with
      | none => rwa [act_data_other more hmark]
      | some at_ =>
          rw [Locals.act, hmark]
          obtain ⟨hpat, hat⟩ := h.mark d at_ hmark
          have hle := hpat.length_le
          have hlength := hmore d more rfl
          refine ⟨fun d' at' hat' => ?_, h.call ⟨hat, by omega⟩⟩
          by_cases hd : d' = d
          · subst hd
            have hself : Function.update l.mark d' none d' = none := Function.update_self ..
            cases hself.symm.trans hat'
          · exact h.mark d' at' ((Function.update_of_ne hd ..).symm.trans hat')
  | headersComplete => exact ⟨h.mark, h.call trivial⟩
  | messageComplete => exact ⟨h.mark, h.call trivial⟩

theorem Locals.InBuffer.acts (h : l.InBuffer data p) (hp : p <:+ data) {acts : List Act}
    (hmore : ∀ act ∈ acts, ∀ d more, act = .data d more → more ≤ p.length) :
    (l.acts p acts).InBuffer data p := by
  induction acts generalizing l with
  | nil => exact h
  | cons act acts ih =>
      exact ih (h.act hp (hmore act List.mem_cons_self))
        fun a ha => hmore a (List.mem_cons_of_mem act ha)

/-- No macro counts more bytes than there are. -/
theorem more_turn {s : Parser} {ch : UInt8} {avail : Nat} (hstuck : (s.turn ch avail).ctrl ≠ .stuck) :
    ∀ act ∈ (s.turn ch avail).acts, ∀ d more, act = .data d more → more ≤ avail := by
  rintro _ hact d more rfl
  by_cases hbody : s.state = .bodyIdentity
  · unfold Parser.turn caseBodyIdentity at hact
    simp only [hbody] at hact
    split_ifs at hact
    · cases hact
    · simp [Turn.after, caseMessageDone, Parser.brk] at hact
      omega
    · simp [Turn.after, Parser.brk] at hact
  by_cases hchunk : s.state = .chunkData
  · unfold Parser.turn caseChunkData at hact
    simp only [hchunk] at hact
    split_ifs at hact
    · cases hact
    · simp [Turn.after, Parser.brk] at hact
    · simp [Turn.after, Parser.brk] at hact
  cases hctrl : (s.turn ch avail).ctrl with
  | stuck => exact absurd hctrl hstuck
  | error =>
      obtain ⟨d', h⟩ := ((ends_turn ch avail).of_error hctrl).2 _ hact
      cases h
  | next | leave =>
      have hgoes : (s.turn ch avail).Goes := by simp [Turn.Goes, hctrl]
      cases moves_turn hbody hchunk hgoes with
      | idle _ _ hacts => exact absurd (hacts _ hact) (by simp)
      | stays _ _ _ hacts | opens _ _ _ hacts =>
          rw [hacts] at hact
          simp at hact
      | closes _ _ _ hacts | empty _ _ _ hacts | chunk _ _ hacts =>
          rw [hacts] at hact
          simp at hact
          omega

theorem finish_inBuffer {s : Parser} {e : Executed} (h : l.InBuffer data [])
    (he : finish s l = some e) : ∀ call ∈ e.calls, call.InBuffer data := by
  unfold finish at he
  split_ifs at he
  obtain rfl := Option.some.inj he
  refine (h.acts List.nil_suffix fun act hact d more heq => ?_).calls
  obtain ⟨d', -, rfl⟩ := List.mem_map.mp hact
  cases heq
  exact le_rfl

theorem loop_inBuffer {e : Executed} : ∀ {skip : Nat} {s : Parser} {l : Locals},
    l.InBuffer data p → p <:+ data → loop skip s l p = some e →
      ∀ call ∈ e.calls, call.InBuffer data := by
  induction p with
  | nil =>
      intro skip s l h _ he
      cases skip <;> exact finish_inBuffer h he
  | cons ch rest ih =>
      intro skip s l h hp he
      have hrest : rest <:+ ch :: rest := List.suffix_cons ch rest
      cases skip with
      | succ skip => exact ih (h.later hrest) (hrest.trans hp) he
      | zero =>
          rw [loop_cons] at he
          split_ifs at he
          · obtain rfl := Option.some.inj he
            exact h.calls
          · cases hctrl : (s.count.turn ch (rest.length + 1)).ctrl with
            | stuck =>
                simp only [hctrl] at he
                cases he
            | next | leave | error =>
                have hacts := h.acts hp (@more_turn s.count ch
                  (rest.length + 1) (by rw [hctrl]; exact nofun))
                simp only [hctrl] at he
                first
                  | exact ih (hacts.later hrest) (hrest.trans hp) he
                  | obtain rfl := Option.some.inj he
                    exact hacts.calls

end InBuffer

/-- The strings of the callbacks lie in the buffer of the call. -/
theorem execute_inBuffer {s : Parser} {data : List UInt8} {e : Executed}
    (h : execute s data = some e) : ∀ call ∈ e.calls, call.InBuffer data := by
  unfold execute at h
  split_ifs at h
  · obtain rfl := Option.some.inj h
    exact fun _ h => absurd h List.not_mem_nil
  · obtain rfl := Option.some.inj h
    unfold executeEof
    split_ifs <;> exact fun _ h => absurd h List.not_mem_nil
  · refine loop_inBuffer ⟨fun d at_ hat => ?_, fun _ h => absurd h List.not_mem_nil⟩
      List.suffix_rfl h
    dsimp only at hat
    split_ifs at hat
    obtain rfl := Option.some.inj hat
    exact ⟨List.suffix_rfl, List.suffix_rfl⟩

theorem loop_excess {e : Executed} {p : List UInt8} : ∀ {skip : Nat} {s : Parser} {l : Locals},
    loop skip s l p = some e → e.excess = 0 := by
  induction p with
  | nil =>
      intro skip s l he
      have hfinish : finish s l = some e := by cases skip <;> exact he
      unfold finish at hfinish
      split_ifs at hfinish
      obtain rfl := Option.some.inj hfinish
      rfl
  | cons ch rest ih =>
      intro skip s l he
      cases skip with
      | succ skip => exact ih he
      | zero =>
          rw [loop_cons] at he
          split_ifs at he
          · obtain rfl := Option.some.inj he
            rfl
          · cases hctrl : (s.count.turn ch (rest.length + 1)).ctrl with
            | stuck =>
                simp only [hctrl] at he
                cases he
            | next =>
                simp only [hctrl] at he
                exact ih he
            | leave | error =>
                simp only [hctrl] at he
                obtain rfl := Option.some.inj he
                rfl

/-- Only the end of the stream can return too much, and where it does it is an error. -/
theorem nparsed_le {s : Parser} {data : List UInt8} {e : Executed} (h : execute s data = some e) :
    e.nparsed data ≤ data.length ∨
      data = [] ∧ e.nparsed data = 1 ∧ e.parser.errno = .invalidEofState := by
  have hread : e.excess = 0 → e.nparsed data ≤ data.length := fun hexcess => by
    rw [Executed.nparsed, hexcess]
    exact Nat.sub_le _ _
  unfold execute at h
  split_ifs at h with herrno hdata
  · obtain rfl := Option.some.inj h
    exact .inl (hread rfl)
  · obtain rfl := Option.some.inj h
    unfold executeEof at hread ⊢
    split_ifs at hread ⊢
    · exact .inl (hread rfl)
    · subst hdata
      exact .inr ⟨rfl, rfl, rfl⟩
  · exact .inl (hread (loop_excess h))

/-- Call after call, whatever comes out of them; an empty buffer is the end of the stream. -/
def executeEach : Parser → List (List UInt8) → Option (List Executed)
  | _, [] => some []
  | s, data :: bufs => do
      let e ← execute s data
      let es ← executeEach e.parser bufs
      return e :: es

/-- What a call promises for its buffer. -/
structure Executed.Safe (data : List UInt8) (e : Executed) : Prop where
  calls : ∀ call ∈ e.calls, call.InBuffer data
  unread : e.unread <:+ data
  -- an unexpected end of the stream returns 1
  nparsed : e.nparsed data ≤ data.length ∨
    data = [] ∧ e.nparsed data = 1 ∧ e.parser.errno = .invalidEofState
  bounded : e.parser.errno = .ok → e.parser.Bounded httpMaxHeaderSize

theorem execute_sound {s : Parser} (hs : s.errno = .ok → s.Sound) (data : List UInt8) :
    ∃ e, execute s data = some e ∧ e.unread <:+ data ∧ (e.parser.errno = .ok → e.parser.Sound) := by
  by_cases herrno : s.errno = .ok
  · by_cases hdata : data = []
    · subst hdata
      refine ⟨executeEof s, by rw [execute, if_neg (not_not.mpr herrno), if_pos rfl], ?_⟩
      unfold executeEof
      split_ifs
      · exact ⟨List.suffix_rfl, hs⟩
      · exact ⟨List.suffix_rfl, fun h => by cases h⟩
    · obtain ⟨e, he, hagrees⟩ := execute_agrees (hs herrno) hdata
      refine ⟨e, he, by rw [hagrees.unread]; exact rest_suffix s data, ?_⟩
      obtain ⟨hgo, hstop⟩ := feed_stops (hs herrno) data
      rw [hagrees.parser]
      cases hrunning : (feed react s data).running with
      | true => exact fun _ => (hgo hrunning).1
      | false => exact fun hok => ((hstop hrunning).resolve_left (not_not.mpr hok)).1
  · exact ⟨⟨s, [], data, 0⟩, by rw [execute, if_pos herrno], List.suffix_rfl, hs⟩

theorem executeEach_sound {s : Parser} (hs : s.errno = .ok → s.Sound) (bufs : List (List UInt8)) :
    ∃ es, executeEach s bufs = some es ∧ List.Forall₂ Executed.Safe bufs es := by
  induction bufs generalizing s with
  | nil => exact ⟨[], rfl, .nil⟩
  | cons data bufs ih =>
      obtain ⟨e, he, hunread, hs'⟩ := execute_sound hs data
      obtain ⟨es, hes, hsafe⟩ := ih hs'
      refine ⟨e :: es, by rw [executeEach, he]; simp [hes], .cons ?_ hsafe⟩
      exact ⟨execute_inBuffer he, hunread, nparsed_le he, fun hok => (hs' hok).bounded⟩

/-- No assertion of the parser fails and no string of it leaves its buffer, for any buffers. -/
theorem executeEach_safe (bufs : List (List UInt8)) :
    ∃ es, executeEach .init bufs = some es ∧ List.Forall₂ Executed.Safe bufs es :=
  executeEach_sound (fun _ => sound_init) bufs

end Machine
end Http
end TcMuzi
