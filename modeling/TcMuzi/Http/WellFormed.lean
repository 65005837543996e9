import TcMuzi.Http.Methods
import TcMuzi.Http.Names
import TcMuzi.Http.Parser

/-!
# What the parser reads in a well-formed request

`takes_request` follows the bytes of an `HttpRequest` through the `switch`: the URL, the
fields and the body are given out as they are, and the parser is ready for the next request.

The head is followed in `unlimited` first, so that its length matters in one place only.
-/

namespace TcMuzi
namespace Http
namespace Machine

open Base Lib

/-! ## Turns -/

theorem count_eq (s : Parser) : s.count = { s with nread := s.count.nread } := by
  unfold Parser.count
  split_ifs <;> rfl

/-- A short enough word is taken with the limit as well. -/
theorem takes_of_unlimited {word : List UInt8} : ∀ {s s' : Parser} {out : List Event},
    Takes unlimited s word s' out → s.Sound → s.nread + word.length ≤ httpMaxHeaderSize →
      Takes react s word s' out := by
  induction word with
  | nil => exact fun h _ _ => h
  | cons ch word ih =>
      intro s s' out h hs hfits
      rw [List.length_cons] at hfits
      have hcount : s.count.nread ≤ s.nread + 1 := by
        unfold Parser.count
        split_ifs
        · exact le_rfl
        · exact Nat.le_succ _
      have hlimit : ¬ s.Overflows := fun hover => by
        have hlt := hover.2
        omega
      have hreact : react s ch = unlimited s ch := if_neg hlimit
      have hreacts := reacts hs ch
      rw [hreact] at hreacts
      have hnread : ∀ s1 out1, unlimited s ch = .go s1 out1 → s1.nread ≤ s.nread + 1 := by
        intro s1 out1 hgo
        have hbounded : s.count.Bounded s.count.nread := by
          have hcounted := bounded_count hs.bounded hlimit
          exact ⟨le_rfl, hcounted.contentLength, hcounted.httpMajor, hcounted.httpMinor⟩
        rw [unlimited] at hgo
        cases hctrl : (s.count.turn ch 1).ctrl with
        | next =>
            simp only [hctrl] at hgo
            injection hgo with hparser
            rw [← hparser]
            exact (bounded_turn hbounded ch 1 (by rw [hctrl]; exact fun h => by cases h)).nread.trans hcount
        | leave => simp [hctrl] at hgo
        | error => simp [hctrl] at hgo
        | stuck => simp [hctrl] at hgo
      rw [Takes] at h ⊢
      cases hgo : unlimited s ch with
      | go s1 out1 =>
          rw [hgo] at hreacts
          cases hreacts with
          | go hs1 _ =>
              have hle := hnread s1 out1 hgo
              rw [feed_go hgo] at h
              rw [feed_go (hreact.trans hgo)]
              have hrest := takes_of_running (congrArg Fed.running h)
              have hsame : feed react s1 word = feed unlimited s1 word :=
                (ih hrest hs1 (by omega)).trans hrest.symm
              rw [hsame]
              exact h
      | leave s1 out1 =>
          rw [feed_leave hgo] at h
          cases h
      | refuse s1 =>
          rw [feed_refuse hgo] at h
          cases h

/-! ## The request line -/

/-- The parser in front of a request. -/
structure Parser.Ready (s : Parser) : Prop where
  sound : s.Sound
  state : s.state = .startReq
  nread : s.nread = 0
  upgrade : s.upgrade = false

theorem ready_init : Parser.init.Ready := ⟨sound_init, rfl, rfl, rfl⟩

/-- The states in which a URL that begins with a slash goes on. -/
def State.inUrl : State → Bool
  | .reqPath | .reqQueryStringStart | .reqQueryString | .reqFragmentStart | .reqFragment => true
  | _ => false

/-- What a field without a meaning for the framing leaves alone. -/
structure Parser.Same (s s' : Parser) : Prop where
  flags : s'.flags = s.flags
  contentLength : s'.contentLength = s.contentLength
  httpMajor : s'.httpMajor = s.httpMajor
  httpMinor : s'.httpMinor = s.httpMinor
  method : s'.method = s.method
  upgrade : s'.upgrade = s.upgrade

/-- A method that does not concern the connection, and a blank. -/
theorem takes_method {s : Parser} (h : s.state = .startReq) {method : List UInt8}
    (hmethod : method ∈ methods) :
    ∃ m index n, m ≠ .connect ∧
      Takes unlimited s (method ++ [32]) { s with
        flags := .none, contentLength := ullongMax, method := m, index := index
        state := .reqSpacesBeforeUrl, nread := n } [] := by
  have hall : ∀ method ∈ methods, ∃ m, m ≠ .connect ∧ ∃ ch ∈ method.head?, ∃ start,
      firstMethod ch = some start ∧
        methodRun start 1 method.tail = some (m, (methodString m).length) := by
    simp only [methods, List.map_cons, List.map_nil, List.forall_mem_cons]
    refine ⟨⟨.delete, nofun, 68, rfl, .delete, rfl, by decide⟩,
      ⟨.get, nofun, 71, rfl, .get, rfl, by decide⟩, ⟨.head, nofun, 72, rfl, .head, rfl, by decide⟩,
      ⟨.post, nofun, 80, rfl, .post, rfl, by decide⟩, ⟨.put, nofun, 80, rfl, .post, rfl, by decide⟩,
      ⟨.options, nofun, 79, rfl, .options, rfl, by decide⟩,
      ⟨.trace, nofun, 84, rfl, .trace, rfl, by decide⟩,
      ⟨.patch, nofun, 80, rfl, .post, rfl, by decide⟩, fun _ h => absurd h List.not_mem_nil⟩
  obtain ⟨m, hne, ch, hhead, start, hfirst, hrun⟩ := hall method hmethod
  have htakes := takes_method_of_run h hfirst hrun
  rw [List.cons_head?_tail hhead] at htakes
  exact ⟨m, _, _, hne, htakes⟩

theorem visible_parseUrlChar {state : State} (h : state.inUrl = true) {ch : UInt8}
    (hch : 33 ≤ ch ∧ ch ≤ 126) : (parseUrlChar state ch).inUrl = true := by
  have hall : ∀ state ∈ [State.reqPath, .reqQueryStringStart, .reqQueryString, .reqFragmentStart,
      .reqFragment], ∀ n < 256, 33 ≤ UInt8.ofNat n ∧ UInt8.ofNat n ≤ 126 →
        (parseUrlChar state (UInt8.ofNat n)).inUrl = true := by decide +kernel
  have hmem : state ∈ [State.reqPath, .reqQueryStringStart, .reqQueryString, .reqFragmentStart,
      .reqFragment] := by
    cases state <;> first | decide | cases h
  have hone := hall state hmem ch.toNat ch.toNat_lt
  rw [UInt8.ofNat_toNat] at hone
  exact hone hch

theorem marked_of_inUrl {state : State} (h : state.inUrl = true) : state.marked = some .url := by
  cases state <;> first | rfl | cases h

theorem header_of_inUrl {state : State} (h : state.inUrl = true) : state.parsingHeader = true := by
  cases state <;> first | rfl | cases h

theorem turn_inUrl {s : Parser} (h : s.state.inUrl = true) (ch : UInt8) (avail : Nat) :
    s.turn ch avail = caseReqUrl s ch := by
  unfold Parser.turn
  cases hstate : s.state <;> rw [hstate] at h <;> first | rfl | cases h

theorem datum_inUrl {before after : State} (hbefore : before.marked ≠ none ∨ before.parsingHeader)
    (hafter : after.inUrl = true) : datum before after = some .url := by
  rw [datum_eq_marked, marked_of_inUrl hafter]
  · rintro rfl
    simp [State.marked, State.parsingHeader] at hbefore
  · rintro rfl
    simp [State.marked, State.parsingHeader] at hbefore

/-- A byte of a URL. -/
theorem urlByte_visible {s : Parser} {ch : UInt8}
    (hin : (parseUrlChar s.state ch).inUrl = true) :
    urlByte s ch = (s.goTo (parseUrlChar s.state ch)).brk := by
  have hdead : parseUrlChar s.state ch ≠ .dead := fun h => by
    rw [h] at hin
    cases hin
  unfold urlByte
  dsimp only
  rw [if_neg hdead]

theorem unlimited_urlByte {s : Parser} (h : s.state.inUrl = true) {ch : UInt8}
    (hch : 33 ≤ ch ∧ ch ≤ 126) :
    unlimited s ch =
      .go { s with state := parseUrlChar s.state ch, nread := s.nread + 1 } [.data .url ch] := by
  have hin := visible_parseUrlChar h hch
  have hnot : ch ≠ 32 ∧ ¬ (ch = cr ∨ ch = lf) := by
    refine ⟨?_, ?_⟩
    · rintro rfl
      exact absurd hch.1 (by decide)
    · rintro (rfl | rfl)
      · exact absurd hch.1 (by decide)
      · exact absurd hch.1 (by decide)
  have hturn : s.count.turn ch 1 =
      ({ s with state := parseUrlChar s.state ch, nread := s.nread + 1 } : Parser).brk := by
    rw [turn_inUrl (by rwa [count_state])]
    unfold caseReqUrl
    rw [if_neg hnot.1, if_neg hnot.2, urlByte_visible (by rwa [count_state]),
      count_of_header (header_of_inUrl h)]
    rfl
  refine unlimited_go (a := []) hturn ?_
  rw [datum_inUrl (.inl (by rw [marked_of_inUrl h]; nofun)) hin]
  rfl

theorem takes_urlBytes (word : List UInt8) : ∀ {s : Parser}, s.state.inUrl = true →
    (∀ b ∈ word, 33 ≤ b ∧ b ≤ 126) →
      ∃ state : State, state.inUrl = true ∧ Takes unlimited s word
        { s with state := state, nread := s.nread + word.length } (word.map (.data .url)) := by
  induction word with
  | nil => exact fun h _ => ⟨_, h, Takes.nil _⟩
  | cons ch word ih =>
      intro s h hvisible
      have hch := hvisible ch List.mem_cons_self
      obtain ⟨state, hin, hrest⟩ := ih
        (s := { s with state := parseUrlChar s.state ch, nread := s.nread + 1 })
        (visible_parseUrlChar h hch) fun b hb => hvisible b (List.mem_cons_of_mem ch hb)
      refine ⟨state, hin, ?_⟩
      have hsum : s.nread + 1 + word.length = s.nread + (ch :: word).length := by
        rw [List.length_cons]
        omega
      rw [← hsum]
      exact Takes.cons (unlimited_urlByte h hch) hrest

/-- The slash in front. -/
theorem unlimited_urlStart {s : Parser} (h : s.state = .reqSpacesBeforeUrl)
    (hmethod : s.method ≠ .connect) :
    unlimited s 47 = .go { s with state := .reqPath, nread := s.nread + 1 } [.data .url 47] := by
  have hturn : s.count.turn 47 1 =
      ({ s with state := .reqPath, nread := s.nread + 1 } : Parser).brk.after [.mark .url] := by
    rw [count_of_header (by rw [h]; rfl)]
    unfold Parser.turn
    simp only [h]
    unfold caseReqSpacesBeforeUrl
    dsimp only
    rw [if_neg (by decide), if_neg hmethod, urlByte_visible rfl]
    rfl
  refine unlimited_go hturn ?_
  rw [h]
  rfl

theorem takes_url {s : Parser} (h : s.state = .reqSpacesBeforeUrl) (hmethod : s.method ≠ .connect)
    {url : List UInt8} (hslash : url.head? = some 47) (hvisible : ∀ b ∈ url, 33 ≤ b ∧ b ≤ 126) :
    ∃ state : State, state.inUrl = true ∧ Takes unlimited s url
      { s with state := state, nread := s.nread + url.length } (url.map (.data .url)) := by
  obtain ⟨tail, rfl⟩ := List.head?_eq_some_iff.mp hslash
  obtain ⟨state, hin, htail⟩ := takes_urlBytes tail
    (s := { s with state := .reqPath, nread := s.nread + 1 }) rfl
    fun b hb => hvisible b (List.mem_cons_of_mem _ hb)
  refine ⟨state, hin, ?_⟩
  have hsum : s.nread + 1 + tail.length = s.nread + (47 :: tail).length := by
    rw [List.length_cons]
    omega
  rw [← hsum]
  exact Takes.cons (unlimited_urlStart h hmethod) htail

/-- The blank behind a URL. -/
theorem unlimited_urlEnd {s : Parser} (h : s.state.inUrl = true) :
    unlimited s 32 = .go { s with state := .reqHttpStart, nread := s.nread + 1 } [] := by
  have hturn : s.count.turn 32 1 =
      ({ s with state := .reqHttpStart, nread := s.nread + 1 } : Parser).brk.after
        [.data .url 0] := by
    rw [turn_inUrl (by rwa [count_state]), count_of_header (header_of_inUrl h)]
    rfl
  have hnot : s.state ≠ .bodyIdentity ∧ s.state ≠ .chunkData := by
    refine ⟨?_, ?_⟩ <;> rintro hstate <;> rw [hstate] at h <;> cases h
  refine unlimited_go hturn ?_
  rw [datum_eq_marked hnot.1 hnot.2]
  rfl

/-- The rest of the request line. -/
theorem takes_version {s : Parser} (h : s.state = .reqHttpStart) :
    ∃ n, Takes unlimited s ((CString.lit "HTTP/1.1").bytes ++ [13, 10])
      { s with state := .headerFieldStart, httpMajor := 1, httpMinor := 1, nread := n } [] := by
  obtain ⟨flags, state, headerState, index, nread, contentLength, major, minor, m, errno, up⟩ := s
  subst h
  refine ⟨nread + 10, ?_⟩
  have hbytes : (CString.lit "HTTP/1.1").bytes ++ [13, 10] =
      [72, 84, 84, 80, 47, 49, 46, 49, 13, 10] := by decide
  rw [hbytes]
  refine Takes.cons (o := []) (unlimited_brk rfl nofun nofun rfl) ?_
  refine Takes.cons (o := []) (unlimited_brk rfl nofun nofun rfl) ?_
  refine Takes.cons (o := []) (unlimited_brk rfl nofun nofun rfl) ?_
  refine Takes.cons (o := []) (unlimited_brk rfl nofun nofun rfl) ?_
  refine Takes.cons (o := []) (unlimited_brk rfl nofun nofun rfl) ?_
  refine Takes.cons (o := []) (unlimited_brk rfl nofun nofun rfl) ?_
  refine Takes.cons (o := []) (unlimited_brk rfl nofun nofun rfl) ?_
  refine Takes.cons (o := []) (unlimited_brk rfl nofun nofun rfl) ?_
  refine Takes.cons (o := []) (unlimited_brk rfl nofun nofun rfl) ?_
  exact Takes.cons (o := []) (unlimited_brk rfl nofun nofun rfl) (Takes.nil _)

/-! ## Fields -/

/-- In front of a field or of the empty line. -/
def State.atField : State → Bool
  | .headerFieldStart | .headerValueLws => true
  | _ => false

/-- The first byte of a field does not see which of the two states it is in. -/
theorem turn_atField {s : Parser} (h : s.state.atField = true) {ch : UInt8}
    (hfold : ¬ (ch = 32 ∨ ch = 9)) (avail : Nat) :
    s.turn ch avail = caseHeaderFieldStart (s.goTo .headerFieldStart) ch := by
  unfold Parser.turn
  cases hstate : s.state <;> rw [hstate] at h <;> try cases h
  case headerFieldStart =>
    have hsame : s.goTo .headerFieldStart = s := by rw [Parser.goTo, ← hstate]
    dsimp only
    rw [hsame]
  case headerValueLws =>
    dsimp only
    rw [caseHeaderValueLws, if_neg hfold]

theorem header_of_atField {state : State} (h : state.atField = true) :
    state.parsingHeader = true := by
  cases state <;> first | rfl | cases h

theorem datum_of_atField {before after : State} (h : before.atField = true) :
    datum before after = after.marked := by
  refine datum_eq_marked ?_ ?_ after <;> rintro rfl <;> cases h

/-- The first byte of a name. -/
theorem unlimited_nameStart {s : Parser} (h : s.state.atField = true) {ch : UInt8}
    (htoken : token ch ≠ 0) :
    unlimited s ch = .go { s with
      state := .headerField, headerState := firstHeaderState (token ch), index := 0
      nread := s.nread + 1 } [.data .headerField ch] := by
  have hzero : token 32 = 0 ∧ token 9 = 0 ∧ token cr = 0 ∧ token lf = 0 := by decide
  have hfold : ¬ (ch = 32 ∨ ch = 9) := by
    rintro (rfl | rfl)
    · exact htoken hzero.1
    · exact htoken hzero.2.1
  have hcr : ch ≠ cr := fun heq => htoken (heq ▸ hzero.2.2.1)
  have hlf : ch ≠ lf := fun heq => htoken (heq ▸ hzero.2.2.2)
  have hturn : s.count.turn ch 1 = ({ s with
      state := .headerField, headerState := firstHeaderState (token ch), index := 0
      nread := s.nread + 1 } : Parser).brk.after [.mark .headerField] := by
    rw [turn_atField (by rwa [count_state]) hfold, count_of_header (header_of_atField h)]
    unfold caseHeaderFieldStart
    dsimp only
    rw [if_neg hcr, if_neg hlf, if_neg htoken]
    rfl
  refine unlimited_go hturn ?_
  rw [datum_of_atField h]
  rfl

/-- The next one. -/
theorem unlimited_nameByte {s : Parser} {word : List UInt8} (h : s.state = .headerField)
    (hnamed : Named word s) {ch : UInt8} (htoken : token ch ≠ 0) :
    ∃ headerState index, Named (word ++ [token ch]) { s with
        headerState := headerState, index := index, nread := s.nread + 1 } ∧
      unlimited s ch = .go { s with
        headerState := headerState, index := index, nread := s.nread + 1 }
        [.data .headerField ch] := by
  have hblank : ch ≠ 32 := fun heq => htoken (heq ▸ by decide)
  have hcounted : Named word s.count := by
    refine hnamed.congr ?_ ?_ <;> rw [count_of_header (by rw [h]; rfl)]
  obtain ⟨s', hsome, hnext⟩ := @Named.next _ _ hcounted ch (token ch) hblank
  have heq := headerNameByte_eq ch hsome
  have hs' : s' = { s with
      headerState := s'.headerState, index := s'.index, nread := s.nread + 1 } := by
    rwa [count_of_header (by rw [h]; rfl)] at heq
  refine ⟨s'.headerState, s'.index, hs' ▸ hnext, ?_⟩
  have hturn : s.count.turn ch 1 = s'.brk := by
    unfold Parser.turn
    rw [count_state, h]
    dsimp only
    unfold caseHeaderField
    dsimp only
    rw [if_pos htoken, hsome]
  rw [hs'] at hturn
  refine unlimited_go (a := []) hturn ?_
  rw [h]
  rfl

theorem takes_nameBytes (name : List UInt8) : ∀ {s : Parser} {word : List UInt8},
    s.state = .headerField → Named word s → (∀ b ∈ name, token b ≠ 0) →
      ∃ headerState index, Named (word ++ name.map token) { s with
          headerState := headerState, index := index, nread := s.nread + name.length } ∧
        Takes unlimited s name { s with
          headerState := headerState, index := index, nread := s.nread + name.length }
          (name.map (.data .headerField)) := by
  induction name with
  | nil =>
      intro s word _ hnamed _
      refine ⟨s.headerState, s.index, ?_, Takes.nil s⟩
      rwa [List.map_nil, List.append_nil]
  | cons ch name ih =>
      intro s word h hnamed htoken
      obtain ⟨headerState, index, hnext, hgo⟩ :=
        unlimited_nameByte h hnamed (htoken ch List.mem_cons_self)
      obtain ⟨headerState', index', hword, hrest⟩ := ih (s := { s with
        headerState := headerState, index := index, nread := s.nread + 1 }) h hnext
        fun b hb => htoken b (List.mem_cons_of_mem ch hb)
      have hsum : s.nread + 1 + name.length = s.nread + (ch :: name).length := by
        rw [List.length_cons]
        omega
      rw [List.append_assoc, List.singleton_append, ← List.map_cons, hsum] at hword
      rw [hsum] at hrest
      exact ⟨headerState', index', hword, Takes.cons hgo hrest⟩

/-- A name and its colon. -/
theorem takes_name {s : Parser} (h : s.state.atField = true) {name : List UInt8} (hne : name ≠ [])
    (htoken : ∀ b ∈ name, token b ≠ 0) :
    ∃ headerState index n, Named (name.map token) { s with
        state := .headerValueStart, headerState := headerState, index := index, nread := n } ∧
      Takes unlimited s (name ++ [58]) { s with
        state := .headerValueStart, headerState := headerState, index := index, nread := n }
        (name.map (.data .headerField)) := by
  obtain ⟨ch, name, rfl⟩ := List.exists_cons_of_ne_nil hne
  have hfirst := unlimited_nameStart h (htoken ch List.mem_cons_self)
  obtain ⟨headerState, index, hnamed, hrest⟩ := takes_nameBytes name (s := { s with
    state := .headerField, headerState := firstHeaderState (token ch), index := 0
    nread := s.nread + 1 }) rfl ((named_first s (token ch)).congr rfl rfl)
    fun b hb => htoken b (List.mem_cons_of_mem ch hb)
  have hcolon : unlimited ({ s with
      state := .headerField, headerState := headerState, index := index
      nread := s.nread + 1 + name.length } : Parser) 58 = .go { s with
        state := .headerValueStart, headerState := headerState, index := index
        nread := s.nread + 1 + name.length + 1 } [] :=
    unlimited_go (a := [.data .headerField 0]) rfl rfl
  refine ⟨headerState, index, s.nread + 1 + name.length + 1, hnamed.congr rfl rfl, ?_⟩
  have htakes := (Takes.cons hfirst hrest).append (Takes.single hcolon)
  rwa [List.append_nil] at htakes

/-- In front of a field every name that leaves the head within its limit is read to its colon,
and each of the texts is found exactly when the name spells it, in upper or lower case. -/
theorem takes_name_iff {s : Parser} (hs : s.Sound) (h : s.state.atField = true)
    {name : List UInt8} (hne : name ≠ []) (htoken : ∀ b ∈ name, token b ≠ 0)
    (hlimit : s.nread + (name.length + 1) ≤ httpMaxHeaderSize) :
    ∃ s', Takes react s (name ++ [58]) s' (name.map (.data .headerField)) ∧
      s'.state = .headerValueStart ∧ s.Same s' ∧
      ∀ done ∈ matchers.map Matcher.done,
        s'.headerState = done ↔ ∃ m ∈ matchers, m.done = done ∧ name.map token = m.text := by
  obtain ⟨headerState, index, n, hnamed, htakes⟩ := takes_name h hne htoken
  have hreact := takes_of_unlimited htakes hs (by rwa [List.length_append])
  exact ⟨_, hreact, rfl, ⟨rfl, rfl, rfl, rfl, rfl, rfl⟩, fun done hdone => hnamed.found_iff hdone⟩

theorem takes_name_iff_length :
    ∃ s', Takes react { Parser.init with state := .headerFieldStart }
        ((CString.lit "CONTENT-length").bytes ++ [58]) s'
        ((CString.lit "CONTENT-length").bytes.map (.data .headerField)) ∧
      s'.state = .headerValueStart ∧
      Parser.Same { Parser.init with state := .headerFieldStart } s' ∧
      ∀ done ∈ matchers.map Matcher.done,
        s'.headerState = done ↔
          ∃ m ∈ matchers, m.done = done ∧ (CString.lit "CONTENT-length").bytes.map token = m.text :=
  @takes_name_iff { Parser.init with state := .headerFieldStart }
    ⟨rfl, trivial, ⟨by decide, by decide, by decide, by decide⟩⟩ rfl _ (by decide)
    (by decide +kernel) (by decide)

/-- A name without a meaning for the framing. -/
def HeaderState.plain (h : HeaderState) : Bool := !(matchers.map Matcher.done).contains h

theorem firstValueByte_plain {s : Parser} (h : s.headerState.plain = true) (ch : UInt8) :
    firstValueByte s ch = some { s with headerState := .general } := by
  unfold firstValueByte
  dsimp only
  split
  case h_5 => rfl
  all_goals
    rename_i hstate
    rw [hstate] at h
    exact absurd h (by decide)

/-- Printable bytes end no value. -/
theorem printable_ne {ch : UInt8} (h : 32 ≤ ch) : ch ≠ cr ∧ ch ≠ lf ∧ ch ≠ 9 := by
  refine ⟨?_, ?_, ?_⟩ <;> rintro rfl <;> exact absurd h (by decide)

theorem unlimited_valueBlank {s : Parser} (h : s.state = .headerValueStart) :
    unlimited s 32 = .go { s with nread := s.nread + 1 } [] := by
  have hturn : s.count.turn 32 1 = ({ s with nread := s.nread + 1 } : Parser).brk := by
    rw [count_of_header (by rw [h]; rfl)]
    unfold Parser.turn
    simp only [h]
    rfl
  exact unlimited_brk hturn (by rw [h]; nofun) (by rw [h]; nofun) (by rw [h]; rfl)

/-- The first byte of a value. -/
theorem unlimited_valueStart {s s' : Parser} {ch : UInt8} (h : s.state = .headerValueStart)
    (hprintable : 32 ≤ ch) (hblank : ch ≠ 32)
    (hfirst : firstValueByte { s with state := .headerValue, index := 0, nread := s.nread + 1 } ch =
      some s') : unlimited s ch = .go s' [.data .headerValue ch] := by
  obtain ⟨hcr, hlf, htab⟩ := printable_ne hprintable
  have hstate : s'.state = .headerValue := (firstValueByte_ofValue hfirst).1
  have hturn : s.count.turn ch 1 = s'.brk.after [.mark .headerValue] := by
    unfold Parser.turn
    rw [count_state, h]
    dsimp only
    unfold caseHeaderValueStart
    dsimp only
    rw [if_neg (by simp [hblank, htab]), if_neg hcr, if_neg hlf, count_of_header (by rw [h]; rfl),
      hfirst]
  refine unlimited_go hturn ?_
  rw [h, hstate]
  rfl

/-- The next one, where the field means nothing. -/
theorem unlimited_valueByte {s : Parser} {ch : UInt8} (h : s.state = .headerValue)
    (hgeneral : s.headerState = .general) (hprintable : 32 ≤ ch) :
    unlimited s ch = .go { s with nread := s.nread + 1 } [.data .headerValue ch] := by
  obtain ⟨hcr, hlf, -⟩ := printable_ne hprintable
  have hturn : s.count.turn ch 1 = ({ s with nread := s.nread + 1 } : Parser).brk := by
    unfold Parser.turn
    rw [count_state, h]
    dsimp only
    unfold caseHeaderValue
    rw [if_neg hcr, if_neg hlf, count_of_header (by rw [h]; rfl)]
    unfold valueByte
    simp only [hgeneral, h]
  refine unlimited_go (a := []) hturn ?_
  rw [h]
  rfl

theorem takes_valueBytes (value : List UInt8) : ∀ {s : Parser}, s.state = .headerValue →
    s.headerState = .general → (∀ b ∈ value, 32 ≤ b) →
      Takes unlimited s value { s with nread := s.nread + value.length }
        (value.map (.data .headerValue)) := by
  induction value with
  | nil => exact fun _ _ _ => Takes.nil _
  | cons ch value ih =>
      intro s h hgeneral hprintable
      have hrest := ih (s := { s with nread := s.nread + 1 }) h hgeneral
        fun b hb => hprintable b (List.mem_cons_of_mem ch hb)
      have hsum : s.nread + 1 + value.length = s.nread + (ch :: value).length := by
        rw [List.length_cons]
        omega
      rw [← hsum]
      exact Takes.cons (unlimited_valueByte h hgeneral (hprintable ch List.mem_cons_self)) hrest

/-- The end of the line behind a value. -/
theorem takes_valueEnd {s : Parser} (h : s.state = .headerValue) :
    Takes unlimited s [13, 10] { s with
      state := .headerValueLws, flags := s.flags.ofHeader s.headerState
      nread := s.nread + 2 } [] := by
  obtain ⟨flags, state, headerState, index, nread, contentLength, major, minor, m, errno, up⟩ := s
  subst h
  refine Takes.cons (o := []) (unlimited_go (a := [.data .headerValue 0]) rfl rfl) ?_
  exact Takes.cons (o := []) (unlimited_brk rfl nofun nofun rfl) (Takes.nil _)

/-- A value without a byte. -/
theorem takes_noValue {s : Parser} (h : s.state = .headerValueStart) :
    Takes unlimited s [13, 10] { s with
      state := .headerValueLws, headerState := .general, index := 0, nread := s.nread + 2 } [] := by
  obtain ⟨flags, state, headerState, index, nread, contentLength, major, minor, m, errno, up⟩ := s
  subst h
  refine Takes.cons (o := []) (unlimited_go (a := [.mark .headerValue, .data .headerValue 0])
    rfl rfl) ?_
  exact Takes.cons (o := []) (unlimited_brk rfl nofun nofun rfl) (Takes.nil _)

/-- A value to the end of its line; the blanks in front of it do not belong to it. -/
theorem takes_value (value : List UInt8) : ∀ {s : Parser}, s.state = .headerValueStart →
    s.headerState.plain = true → (∀ b ∈ value, 32 ≤ b) →
      ∃ headerState index n, Takes unlimited s (value ++ [13, 10]) { s with
        state := .headerValueLws, headerState := headerState, index := index, nread := n }
        ((value.dropWhile (· = 32)).map (.data .headerValue)) := by
  induction value with
  | nil => exact fun h _ _ => ⟨_, _, _, takes_noValue h⟩
  | cons ch value ih =>
      intro s h hplain hprintable
      have htail : ∀ b ∈ value, 32 ≤ b := fun b hb => hprintable b (List.mem_cons_of_mem ch hb)
      by_cases hblank : ch = 32
      · subst hblank
        obtain ⟨headerState, index, n, hrest⟩ := ih (s := { s with nread := s.nread + 1 }) h hplain
          htail
        exact ⟨headerState, index, n, Takes.cons (o := []) (unlimited_valueBlank h) hrest⟩
      · have hfirst := unlimited_valueStart h (hprintable ch List.mem_cons_self) hblank
          (firstValueByte_plain (s := { s with state := .headerValue, index := 0
                                               nread := s.nread + 1 }) hplain ch)
        have hbytes := takes_valueBytes value (s := { s with
          state := .headerValue, headerState := .general, index := 0, nread := s.nread + 1 })
          rfl rfl htail
        have hend := takes_valueEnd (s := { s with
          state := .headerValue, headerState := .general, index := 0
          nread := s.nread + 1 + value.length }) rfl
        have htakes := (Takes.cons hfirst hbytes).append hend
        rw [List.append_nil] at htakes
        rw [List.dropWhile_cons_of_neg (by simpa using hblank)]
        exact ⟨.general, 0, _, htakes⟩

/-! ## Lengths -/

/-- The number that digits behind other ones make. -/
def lengthFrom (length : Nat) (digits : List UInt8) : Nat :=
  digits.foldl (fun n b => n * 10 + (b.toNat - 48)) length

theorem le_lengthFrom (digits : List UInt8) (length : Nat) : length ≤ lengthFrom length digits := by
  induction digits generalizing length with
  | nil => exact le_rfl
  | cons b digits ih => exact (by omega : length ≤ length * 10 + (b.toNat - 48)).trans (ih _)

theorem lengthFrom_eq (digits : List UInt8) (hdigits : ∀ b ∈ digits, Decimal.isDigit b) :
    lengthFrom 0 digits = Decimal.natValue digits := by
  have hchar : ∀ b : UInt8, Decimal.isDigit b → (Decimal.charOf b).toNat = b.toNat := by
    have hall : ∀ n < 256, Decimal.isDigit (UInt8.ofNat n) →
        (Decimal.charOf (UInt8.ofNat n)).toNat = (UInt8.ofNat n).toNat := by decide +kernel
    intro b hb
    have hone := hall b.toNat b.toNat_lt
    rw [UInt8.ofNat_toNat] at hone
    exact hone hb
  have hfrom : ∀ length, lengthFrom length digits =
      Nat.ofDigitChars 10 (digits.map Decimal.charOf) length := by
    induction digits with
    | nil => exact fun _ => rfl
    | cons b digits ih =>
        intro length
        rw [List.map_cons, Nat.ofDigitChars_cons, hchar b (hdigits b List.mem_cons_self),
          ← ih fun b hb => hdigits b (List.mem_cons_of_mem _ hb)]
        show lengthFrom (length * 10 + _) digits = _
        rw [Nat.mul_comm]
        rfl
  exact hfrom 0

theorem digit_ne {b : UInt8} (h : Decimal.isDigit b) : 32 ≤ b ∧ b ≠ 32 ∧ isNum b = true := by
  rw [Decimal.isDigit, Bool.and_eq_true, decide_eq_true_eq, decide_eq_true_eq] at h
  refine ⟨UInt8.le_trans (by decide : (32 : UInt8) ≤ 48) h.1, ?_, by simpa [isNum] using h⟩
  rintro rfl
  exact absurd h.1 (by decide)

/-- One more digit of a length that fits. -/
theorem unlimited_digit {s : Parser} {b : UInt8} (h : s.state = .headerValue)
    (hlength : s.headerState = .contentLength) (hdigit : Decimal.isDigit b)
    (hfits : s.contentLength * 10 + (b.toNat - 48) < ullongMax) :
    unlimited s b = .go { s with
      contentLength := s.contentLength * 10 + (b.toNat - 48), nread := s.nread + 1 }
      [.data .headerValue b] := by
  obtain ⟨hprintable, hblank, hnum⟩ := digit_ne hdigit
  obtain ⟨hcr, hlf, -⟩ := printable_ne hprintable
  have hadd : addDigit 10 s.contentLength (b.toNat - 48) =
      some (s.contentLength * 10 + (b.toNat - 48)) := by
    unfold ullongMax at hfits
    unfold addDigit ullongMax
    dsimp only
    rw [Nat.mod_eq_of_lt (by omega), if_neg (by omega)]
  have hturn : s.count.turn b 1 = ({ s with
      contentLength := s.contentLength * 10 + (b.toNat - 48)
      nread := s.nread + 1 } : Parser).brk := by
    unfold Parser.turn
    rw [count_state, h]
    dsimp only
    unfold caseHeaderValue
    rw [if_neg hcr, if_neg hlf, count_of_header (by rw [h]; rfl)]
    unfold valueByte
    simp only [hlength, h, hadd, hnum]
    rw [if_neg hblank]
    rfl
  refine unlimited_go (a := []) hturn ?_
  rw [h]
  rfl

theorem takes_digits (digits : List UInt8) : ∀ {s : Parser}, s.state = .headerValue →
    s.headerState = .contentLength → (∀ b ∈ digits, Decimal.isDigit b) →
      lengthFrom s.contentLength digits < ullongMax →
      Takes unlimited s digits { s with
        contentLength := lengthFrom s.contentLength digits, nread := s.nread + digits.length }
        (digits.map (.data .headerValue)) := by
  induction digits with
  | nil => exact fun _ _ _ _ => Takes.nil _
  | cons b digits ih =>
      intro s h hlength hdigits hfits
      have hnext : lengthFrom s.contentLength (b :: digits) =
          lengthFrom (s.contentLength * 10 + (b.toNat - 48)) digits := rfl
      rw [hnext] at hfits ⊢
      have hfirst := unlimited_digit h hlength (hdigits b List.mem_cons_self)
        ((le_lengthFrom digits _).trans_lt hfits)
      have hrest := ih (s := { s with
        contentLength := s.contentLength * 10 + (b.toNat - 48), nread := s.nread + 1 })
        h hlength (fun b hb => hdigits b (List.mem_cons_of_mem _ hb)) hfits
      have hsum : s.nread + 1 + digits.length = s.nread + (b :: digits).length := by
        rw [List.length_cons]
        omega
      rw [← hsum]
      exact Takes.cons hfirst hrest

/-- The value of a `Content-Length` is read exactly, as long as it is below the largest number. -/
theorem takes_length {s : Parser} (h : s.state = .headerValueStart)
    (hlength : s.headerState = .contentLength) {digits : List UInt8} (hne : digits ≠ [])
    (hdigits : ∀ b ∈ digits, Decimal.isDigit b) (hfits : Decimal.natValue digits < ullongMax) :
    ∃ headerState index n, Takes unlimited s (32 :: digits ++ [13, 10]) { s with
      state := .headerValueLws, headerState := headerState, index := index, nread := n
      contentLength := Decimal.natValue digits } (digits.map (.data .headerValue)) := by
  obtain ⟨b, digits, rfl⟩ := List.exists_cons_of_ne_nil hne
  obtain ⟨hprintable, hblank, hnum⟩ := digit_ne (hdigits b List.mem_cons_self)
  have hvalue : lengthFrom (b.toNat - 48) digits = Decimal.natValue (b :: digits) := by
    rw [← lengthFrom_eq _ hdigits]
    show _ = lengthFrom (0 * 10 + _) digits
    rw [Nat.zero_mul, Nat.zero_add]
  have hfirst := @unlimited_valueStart { s with nread := s.nread + 1 } { s with
      state := .headerValue, index := 0, contentLength := b.toNat - 48, nread := s.nread + 2 } b
    h hprintable hblank (by simp [firstValueByte, hlength, hnum])
  have hrest := takes_digits digits (s := { s with
    state := .headerValue, index := 0, contentLength := b.toNat - 48, nread := s.nread + 2 }) rfl
    hlength (fun b hb => hdigits b (List.mem_cons_of_mem _ hb)) (by rwa [hvalue])
  have hend := takes_valueEnd (s := { s with
    state := .headerValue, index := 0, contentLength := lengthFrom (b.toNat - 48) digits
    nread := s.nread + 2 + digits.length }) rfl
  have htakes := (Takes.cons (o := []) (unlimited_valueBlank h) (Takes.cons hfirst hrest)).append
    hend
  rw [List.append_nil, hlength, hvalue] at htakes
  exact ⟨.contentLength, 0, _, htakes⟩

/-! ## Lines -/

/-- What a field line gives out: its name, and its value without the blanks in front. -/
def fieldEvents (line : List UInt8) : List Event :=
  (line.takeWhile (· ≠ 58)).map (.data .headerField) ++
    (((line.dropWhile (· ≠ 58)).drop 1).dropWhile (· = 32)).map (.data .headerValue)

theorem fieldEvents_eq {name value : List UInt8} (h : (58 : UInt8) ∉ name) :
    fieldEvents (name ++ 58 :: value) =
      name.map (.data .headerField) ++ (value.dropWhile (· = 32)).map (.data .headerValue) := by
  rw [fieldEvents, Lib.takeWhile_ne_append h, Lib.dropWhile_ne_append h, List.drop_one,
    List.tail_cons]

theorem token_of_isToken {b : UInt8} (h : isToken b = true) :
    token b ≠ 0 ∧ token b = toLower b ∧ b ≠ 58 := by
  have hall : ∀ n < 256, isToken (UInt8.ofNat n) = true →
      token (UInt8.ofNat n) ≠ 0 ∧ token (UInt8.ofNat n) = toLower (UInt8.ofNat n) ∧
        UInt8.ofNat n ≠ 58 := by decide +kernel
  have hone := hall b.toNat b.toNat_lt
  rw [UInt8.ofNat_toNat] at hone
  exact hone h

theorem plain_of_named {word : List UInt8} {s : Parser} (h : Named word s)
    (hword : word ∉ framingFields) : s.headerState.plain = true := by
  have htexts : ∀ m ∈ matchers, m.text ∈ framingFields := by decide
  rw [HeaderState.plain, Bool.not_eq_true', List.contains_eq_mem, decide_eq_false_iff_not]
  intro hdone
  obtain ⟨m, hm, -, rfl⟩ := (h.found_iff hdone).mp rfl
  exact hword (htexts m hm)

/-- A field without a meaning for the framing. -/
theorem takes_field {s : Parser} (h : s.state.atField = true) {line : List UInt8}
    (hfield : IsField line) :
    ∃ headerState index n, Takes unlimited s (line ++ [13, 10]) { s with
      state := .headerValueLws, headerState := headerState, index := index, nread := n }
      (fieldEvents line) := by
  obtain ⟨name, value, rfl, hne, hall, hframing, hvalue⟩ := hfield
  have htoken : ∀ b ∈ name, isToken b = true := List.all_eq_true.mp hall
  have hlower : name.map token = name.map toLower :=
    List.map_congr_left fun b hb => (token_of_isToken (htoken b hb)).2.1
  obtain ⟨headerState, index, n, hnamed, hname⟩ := takes_name h hne
    fun b hb => (token_of_isToken (htoken b hb)).1
  rw [hlower] at hnamed
  obtain ⟨headerState', index', n', hrest⟩ := takes_value (32 :: value) (s := { s with
    state := .headerValueStart, headerState := headerState, index := index, nread := n }) rfl
    (plain_of_named hnamed hframing) (by
      intro b hb
      obtain rfl | hb := List.mem_cons.mp hb
      · decide
      · exact (hvalue b hb).1)
  refine ⟨headerState', index', n', ?_⟩
  have htakes := hname.append hrest
  rw [fieldEvents_eq fun hmem => (token_of_isToken (htoken 58 hmem)).2.2 rfl]
  have hbytes : name ++ [58] ++ (32 :: value ++ [13, 10]) = name ++ 58 :: 32 :: value ++ [13, 10] := by
    simp
  rwa [hbytes] at htakes

theorem ofNat_ne_nil (k : Nat) : Decimal.ofNat k ≠ [] :=
  fun h => Nat.toDigits_ne_nil (List.map_eq_nil_iff.mp h)

/-- The field with the length of the body. -/
theorem takes_lengthField {s : Parser} (h : s.state.atField = true) {k : Nat} (hk : k < ullongMax) :
    ∃ headerState index n, Takes unlimited s (contentLengthField ++ Decimal.ofNat k ++ [13, 10])
      { s with
        state := .headerValueLws, headerState := headerState, index := index, nread := n
        contentLength := k }
      (fieldEvents (contentLengthField ++ Decimal.ofNat k)) := by
  have hsplit : contentLengthField = (CString.lit "Content-Length").bytes ++ [58, 32] := by decide
  have hlower : (CString.lit "Content-Length").bytes.map token = contentLengthName := by decide
  obtain ⟨headerState, index, n, hnamed, hname⟩ := takes_name h
    (show (CString.lit "Content-Length").bytes ≠ [] by decide) (by decide +kernel)
  rw [hlower] at hnamed
  have hstate : headerState = .contentLength :=
    (hnamed.found_iff (by decide)).mpr ⟨⟨.matchingContentLength, contentLengthName,
      .contentLength, 4⟩, by decide, rfl, rfl⟩
  obtain ⟨headerState', index', n', hrest⟩ := takes_length (s := { s with
    state := .headerValueStart, headerState := headerState, index := index, nread := n }) rfl hstate
    (ofNat_ne_nil k) (fun b hb => Decimal.isDigit_of_mem_ofNat hb)
    (by rwa [Decimal.natValue_ofNat])
  rw [Decimal.natValue_ofNat] at hrest
  refine ⟨headerState', index', n', ?_⟩
  have htakes := hname.append hrest
  have hfirst : (Decimal.ofNat k).dropWhile (· = 32) = Decimal.ofNat k := by
    obtain ⟨b, digits, hcons⟩ := List.exists_cons_of_ne_nil (ofNat_ne_nil k)
    have hdigit : Decimal.isDigit b := Decimal.isDigit_of_mem_ofNat (hcons ▸ List.mem_cons_self)
    rw [hcons, List.dropWhile_cons_of_neg (by simpa using (digit_ne hdigit).2.1)]
  have hevents : fieldEvents (contentLengthField ++ Decimal.ofNat k) =
      (CString.lit "Content-Length").bytes.map (.data .headerField) ++
        (Decimal.ofNat k).map (.data .headerValue) := by
    rw [hsplit, List.append_assoc]
    show fieldEvents (_ ++ 58 :: 32 :: Decimal.ofNat k) = _
    rw [fieldEvents_eq (by decide), List.dropWhile_cons_of_pos (by decide), hfirst]
  rw [hevents, hsplit]
  simpa using htakes

/-- The length that the last `Content-Length` line gives. -/
def lengthAfter (length : Nat) (headers : List (List UInt8)) : Nat :=
  headers.foldl (fun length line =>
    if contentLengthField.isPrefixOf line then
      Decimal.natValue (line.drop contentLengthField.length)
    else length) length

/-- A line of a well-formed request. -/
def IsLine (line : List UInt8) : Prop :=
  if contentLengthField.isPrefixOf line then
    ∃ k < ullongMax, line = contentLengthField ++ Decimal.ofNat k
  else IsField line

theorem takes_line {s : Parser} (h : s.state.atField = true) {line : List UInt8}
    (hline : IsLine line) :
    ∃ headerState index n, Takes unlimited s (line ++ [13, 10]) { s with
      state := .headerValueLws, headerState := headerState, index := index, nread := n
      contentLength := lengthAfter s.contentLength [line] } (fieldEvents line) := by
  unfold IsLine at hline
  split_ifs at hline with hprefix
  · obtain ⟨k, hk, rfl⟩ := hline
    have hlength : lengthAfter s.contentLength [contentLengthField ++ Decimal.ofNat k] = k := by
      rw [lengthAfter, List.foldl_cons, List.foldl_nil, if_pos hprefix, List.drop_left,
        Decimal.natValue_ofNat]
    rw [hlength]
    exact takes_lengthField h hk
  · have hlength : lengthAfter s.contentLength [line] = s.contentLength := if_neg hprefix
    rw [hlength]
    exact takes_field h hline

theorem takes_headers (headers : List (List UInt8)) : ∀ {s : Parser}, s.state.atField = true →
    (∀ line ∈ headers, IsLine line) →
      ∃ (state : State) (headerState : HeaderState) (index n : Nat), state.atField = true ∧
        Takes unlimited s (headLines headers) { s with
          state := state, headerState := headerState, index := index, nread := n
          contentLength := lengthAfter s.contentLength headers }
          (headers.flatMap fieldEvents) := by
  induction headers with
  | nil => exact fun h _ => ⟨_, _, _, _, h, Takes.nil _⟩
  | cons line headers ih =>
      intro s h hlines
      obtain ⟨headerState, index, n, hfirst⟩ := takes_line h (hlines line List.mem_cons_self)
      obtain ⟨state, headerState', index', n', hfield, hrest⟩ := ih (s := { s with
        state := .headerValueLws, headerState := headerState, index := index, nread := n
        contentLength := lengthAfter s.contentLength [line] }) rfl
        fun line' hline' => hlines line' (List.mem_cons_of_mem line hline')
      exact ⟨state, headerState', index', n', hfield, hfirst.append hrest⟩

/-! ## Requests -/

/-- Behind the headers of a request without an upgrade. -/
structure Parser.AtEnd (s : Parser) : Prop where
  state : s.state = .headersAlmostDone
  flags : s.flags = .none
  method : s.method ≠ .connect
  length : s.contentLength ≠ ullongMax
  httpMajor : s.httpMajor = 1
  httpMinor : s.httpMinor = 1

/-- The empty line of a request without a body, which completes it. -/
theorem unlimited_noBody {s : Parser} (h : s.AtEnd) (hzero : s.contentLength = 0) :
    unlimited s 10 = .go { s with state := .startReq, nread := 0, upgrade := false }
      [.headersComplete, .messageComplete] := by
  obtain ⟨flags, state, headerState, index, nread, contentLength, major, minor, m, errno, up⟩ := s
  obtain ⟨hstate, hflags, hmethod, -, hmajor, hminor⟩ := h
  dsimp only at hstate hflags hmethod hmajor hminor hzero
  subst hstate hflags hmajor hminor hzero
  have hconnect : (m == Method.connect) = false := by simpa using hmethod
  refine unlimited_go (a := [.headersComplete, .messageComplete]) ?_ rfl
  show caseHeadersAlmostDone _ 10 = _
  simp [caseHeadersAlmostDone, caseHeadersDone, caseMessageDone, Parser.count,
    State.parsingHeader, lf, Flags.none, hconnect, Parser.newMessage, Parser.shouldKeepAlive,
    Parser.goTo, Parser.brk, Turn.after]

/-- The empty line of a request with a body. -/
theorem unlimited_body {s : Parser} (h : s.AtEnd) (hpos : s.contentLength ≠ 0) :
    unlimited s 10 = .go { s with state := .bodyIdentity, nread := 0, upgrade := false }
      [.headersComplete] := by
  obtain ⟨flags, state, headerState, index, nread, contentLength, major, minor, m, errno, up⟩ := s
  obtain ⟨hstate, hflags, hmethod, hlength, hmajor, hminor⟩ := h
  dsimp only at hstate hflags hmethod hlength hmajor hminor hpos
  subst hstate hflags hmajor hminor
  have hconnect : (m == Method.connect) = false := by simpa using hmethod
  refine unlimited_go (a := [.headersComplete]) ?_ rfl
  show caseHeadersAlmostDone _ 10 = _
  simp [caseHeadersAlmostDone, caseHeadersDone, Parser.count, State.parsingHeader, lf, Flags.none,
    hconnect, hpos, hlength, Parser.goTo, Parser.brk, Turn.after]

theorem lengthAfter_filter (length : Nat) (headers : List (List UInt8)) :
    lengthAfter length headers = lengthAfter length (headers.filter contentLengthField.isPrefixOf) := by
  induction headers generalizing length with
  | nil => rfl
  | cons line headers ih =>
      have hcons : lengthAfter length (line :: headers) =
          lengthAfter (lengthAfter length [line]) headers := rfl
      rw [hcons, ih]
      by_cases hprefix : contentLengthField.isPrefixOf line = true
      · rw [List.filter_cons_of_pos hprefix]
        rfl
      · rw [List.filter_cons_of_neg hprefix]
        have hsame : lengthAfter length [line] = length := if_neg hprefix
        rw [hsame]

/-- The only line with a length. -/
theorem lengthLine (r : HttpRequest) :
    r.headers.filter contentLengthField.isPrefixOf =
      [contentLengthField ++ Decimal.ofNat r.body.length] ∧ r.body.length < ullongMax := by
  have hlength := r.contentLength_eq
  unfold contentLength at hlength
  split at hlength
  · rename_i line hfilter
    obtain ⟨value, hparse, hvalue⟩ := Option.map_eq_some_iff.mp hlength
    obtain ⟨hdigits, hlo, hhi⟩ := Decimal.parse_eq_some_iff.mp hparse
    obtain ⟨k, rfl⟩ := Int.eq_ofNat_of_zero_le hlo
    obtain rfl : k = r.body.length := hvalue
    have hprefix := (List.mem_filter.mp (hfilter ▸ List.mem_singleton_self line)).2
    obtain ⟨digits, rfl⟩ := List.isPrefixOf_iff_prefix.mp hprefix
    rw [List.drop_left] at hdigits
    refine ⟨by rw [hfilter, hdigits]; rfl, ?_⟩
    unfold ullongMax
    omega
  · cases hlength

theorem isLine_of_mem {r : HttpRequest} {line : List UInt8} (h : line ∈ r.headers) : IsLine line := by
  unfold IsLine
  split_ifs with hprefix
  · obtain ⟨hfilter, hfits⟩ := lengthLine r
    have hmem := List.mem_filter.mpr ⟨h, hprefix⟩
    rw [hfilter, List.mem_singleton] at hmem
    exact ⟨r.body.length, hfits, hmem⟩
  · exact r.isField line h hprefix

theorem lengthAfter_headers (r : HttpRequest) (length : Nat) :
    lengthAfter length r.headers = r.body.length := by
  have hprefix : contentLengthField.isPrefixOf (contentLengthField ++ Decimal.ofNat r.body.length) =
      true := List.isPrefixOf_iff_prefix.mpr (List.prefix_append _ _)
  rw [lengthAfter_filter, (lengthLine r).1, lengthAfter, List.foldl_cons, List.foldl_nil,
    if_pos hprefix, List.drop_left, Decimal.natValue_ofNat]

/-- A request line. -/
def requestLine (method url : List UInt8) : List UInt8 :=
  method ++ 32 :: url ++ (CString.lit " HTTP/1.1").bytes

theorem takes_requestLine {s : Parser} (h : s.state = .startReq) {method url : List UInt8}
    (hmethod : method ∈ methods) (hslash : url.head? = some 47)
    (hvisible : ∀ b ∈ url, 33 ≤ b ∧ b ≤ 126) :
    ∃ m index n, m ≠ .connect ∧
      Takes unlimited s (requestLine method url ++ [13, 10]) { s with
        flags := .none, contentLength := ullongMax, method := m, index := index
        state := .headerFieldStart, httpMajor := 1, httpMinor := 1, nread := n }
        (url.map (.data .url)) := by
  obtain ⟨m, index, n, hconnect, hmethod⟩ := takes_method h hmethod
  obtain ⟨state, hurlState, hurl⟩ := takes_url (s := { s with
    flags := .none, contentLength := ullongMax, method := m, index := index
    state := .reqSpacesBeforeUrl, nread := n }) rfl hconnect hslash hvisible
  have hblank := Takes.single (unlimited_urlEnd (s := { s with
    flags := .none, contentLength := ullongMax, method := m, index := index
    state := state, nread := n + url.length }) hurlState)
  obtain ⟨n', hversion⟩ := takes_version (s := { s with
    flags := .none, contentLength := ullongMax, method := m, index := index
    state := .reqHttpStart, nread := n + url.length + 1 }) rfl
  refine ⟨m, index, n', hconnect, ?_⟩
  have htakes := ((hmethod.append hurl).append hblank).append hversion
  have hbytes : method ++ [32] ++ url ++ [32] ++ ((CString.lit "HTTP/1.1").bytes ++ [13, 10]) =
      requestLine method url ++ [13, 10] := by
    have hversion : (CString.lit " HTTP/1.1").bytes = 32 :: (CString.lit "HTTP/1.1").bytes := by
      decide
    rw [requestLine, hversion]
    simp
  rwa [hbytes, List.nil_append, List.append_nil, List.append_nil] at htakes

/-- The carriage return of the empty line. -/
theorem unlimited_headCr {s : Parser} (h : s.state.atField = true) :
    unlimited s 13 = .go { s with state := .headersAlmostDone, nread := s.nread + 1 } [] := by
  refine unlimited_go (a := []) ?_ (by rw [datum_of_atField h]; rfl)
  rw [turn_atField (by rwa [count_state]) (by decide), count_of_header (header_of_atField h)]
  rfl

/-- The request line and the fields. -/
theorem takes_fields (r : HttpRequest) {s : Parser} (h : s.Ready) :
    ∃ s', Takes unlimited s (headLines (r.requestLine :: r.headers) ++ [13]) s'
        (r.url.map (.data .url) ++ r.headers.flatMap fieldEvents) ∧
      s'.AtEnd ∧ s'.contentLength = r.body.length := by
  obtain ⟨m, index, n, hconnect, hline⟩ :=
    takes_requestLine h.state r.method_mem r.url_slash r.url_visible
  obtain ⟨state', headerState', index', n', hfield, hheaders⟩ := takes_headers r.headers (s := { s with
    flags := .none, contentLength := ullongMax, method := m, index := index
    state := .headerFieldStart, httpMajor := 1, httpMinor := 1, nread := n }) rfl
    fun line => isLine_of_mem
  rw [lengthAfter_headers] at hheaders
  have hcr := unlimited_headCr (s := { s with
    flags := .none, contentLength := r.body.length, method := m, index := index'
    headerState := headerState', state := state', httpMajor := 1, httpMinor := 1
    nread := n' }) hfield
  have htakes := (hline.append hheaders).append (Takes.single hcr)
  rw [List.append_nil] at htakes
  exact ⟨_, htakes, ⟨rfl, rfl, hconnect, (lengthLine r).2.ne, rfl, rfl⟩, rfl⟩

/-- What the parser gives out for a request. -/
def requestEvents (r : HttpRequest) : List Event :=
  r.url.map (.data .url) ++ r.headers.flatMap fieldEvents ++
    .headersComplete :: (r.body.map (.data .body) ++ [.messageComplete])

/-- The bytes in front of the body. -/
def headBytes (r : HttpRequest) : List UInt8 := headLines (r.requestLine :: r.headers) ++ [13, 10]

theorem bytes_eq (r : HttpRequest) : r.bytes = headBytes r ++ r.body := by
  rw [HttpRequest.bytes, headBytes, List.append_assoc]
  rfl

theorem keepAlive_next {s : Parser} (hflags : s.flags = .none) (hmajor : s.httpMajor = 1)
    (hminor : s.httpMinor = 1) : s.newMessage = .startReq := by
  rw [Parser.newMessage, Parser.shouldKeepAlive, hmajor, hminor, hflags]
  rfl

/-- The last byte of a body completes the message. -/
theorem takes_body_end {s : Parser} {n : Nat} (h : s.InBody n) (hstate : s.state = .bodyIdentity)
    {word : List UInt8} (hne : word ≠ []) (hlength : word.length = n) :
    ∃ s', Takes react s word.dropLast s' (word.dropLast.map (.data .body)) ∧
      Takes react s' [word.getLast hne] s.bodyDone
        [.data .body (word.getLast hne), .messageComplete] := by
  have hpos := h.pos
  have hmost := takes_body word.dropLast h (by
    rw [List.length_dropLast]
    omega)
  refine ⟨_, hmost, Takes.cancel ?_ hmost⟩
  have hall := takes_body_last h hlength
  have hacts : s.bodyActs n = [.mark .body, .data .body n, .messageComplete] := if_pos hstate
  have hout : word.map (Event.data .body) ++ [.messageComplete] =
      word.dropLast.map (.data .body) ++ [.data .body (word.getLast hne), .messageComplete] := by
    nth_rewrite 1 [← List.dropLast_append_getLast hne]
    simp
  rw [List.dropLast_append_getLast hne, ← hout]
  rwa [hacts] at hall

/-- The last byte of a request completes its message, and none before it does. -/
theorem takes_request (r : HttpRequest) {s : Parser} (h : s.Ready)
    (hhead : (headBytes r).length ≤ httpMaxHeaderSize) :
    ∃ front b s1 s' out out', r.bytes = front ++ [b] ∧ Takes react s front s1 out ∧
      Takes react s1 [b] s' out' ∧ requestEvents r = out ++ out' ∧ .messageComplete ∉ out ∧
      s'.Ready := by
  obtain ⟨s1, hfields, hend, hlength⟩ := takes_fields r h
  have hsplit : headBytes r = headLines (r.requestLine :: r.headers) ++ [13] ++ [10] := by
    rw [headBytes, List.append_assoc]
    rfl
  have hlimit : s.nread + (headBytes r).length ≤ httpMaxHeaderSize := by
    rw [h.nread, Nat.zero_add]
    exact hhead
  have hfront : Takes react s (headLines (r.requestLine :: r.headers) ++ [13]) s1 _ :=
    takes_of_unlimited hfields h.sound (by
      rw [hsplit, List.length_append] at hlimit
      omega)
  have hready : ∀ {s' : Parser} {word : List UInt8} {out : List Event}, Takes react s word s' out →
      s'.state = .startReq → s'.nread = 0 → s'.Ready := by
    intro s' word out htakes hstate hnread
    have hstops := (feed_stops h.sound word).1
    rw [show feed react s word = _ from htakes] at hstops
    exact ⟨(hstops rfl).1, hstate, hnread, (hstops rfl).2 h.upgrade⟩
  have hnot : .messageComplete ∉ r.url.map (.data .url) ++ r.headers.flatMap fieldEvents := by
    simp [fieldEvents]
  by_cases hbody : r.body = []
  · -- the line feed of the empty line is the last byte
    have hzero : s1.contentLength = 0 := by rw [hlength, hbody, List.length_nil]
    have hstep := unlimited_noBody hend hzero
    have hall := takes_of_unlimited (hfields.append (Takes.single hstep)) h.sound (by rwa [← hsplit])
    refine ⟨_, 10, s1, _, _, _, ?_, hfront, hall.cancel hfront, ?_, hnot, hready hall rfl rfl⟩
    · rw [bytes_eq, hbody, List.append_nil, hsplit]
    · rw [requestEvents, hbody]
      rfl
  · have hpos : s1.contentLength ≠ 0 := by
      rw [hlength]
      exact fun hzero => hbody (List.length_eq_zero_iff.mp hzero)
    have hstep := unlimited_body hend hpos
    have hall := takes_of_unlimited (hfields.append (Takes.single hstep)) h.sound (by rwa [← hsplit])
    have hinBody : ({ s1 with state := .bodyIdentity, nread := 0, upgrade := false } : Parser).InBody
        r.body.length :=
      ⟨.inl rfl, nofun, hlength, List.length_pos_iff.mpr hbody, (lengthLine r).2⟩
    obtain ⟨s2, hmost, hlast⟩ := takes_body_end hinBody rfl hbody rfl
    have hout : r.body.map (Event.data .body) = r.body.dropLast.map (.data .body) ++
        [.data .body (r.body.getLast hbody)] := by
      nth_rewrite 1 [← List.dropLast_append_getLast hbody]
      simp
    have hdone := (hall.append hmost).append hlast
    have hmore := hall.append hmost
    rw [← hsplit] at hmore
    refine ⟨_, _, s2, _, _, _, ?_, hmore, hlast, ?_, ?_, hready hdone ?_ ?_⟩
    · rw [List.append_assoc, List.dropLast_append_getLast hbody, bytes_eq]
    · simp only [requestEvents, hout, List.append_assoc, List.cons_append, List.nil_append]
    · rw [List.mem_append, List.mem_append, not_or, not_or]
      refine ⟨⟨hnot, by simp⟩, fun hmem => ?_⟩
      obtain ⟨b, -, heq⟩ := List.mem_map.mp hmem
      cases heq
    · exact keepAlive_next hend.flags hend.httpMajor hend.httpMinor
    · rfl

/-- A stream of requests, each with a head that is short enough. -/
theorem takes_stream (rs : List HttpRequest) : ∀ {s : Parser}, s.Ready →
    (∀ r ∈ rs, (headBytes r).length ≤ httpMaxHeaderSize) →
      ∃ s', Takes react s (HttpRequest.stream rs) s' (rs.flatMap requestEvents) ∧ s'.Ready := by
  induction rs with
  | nil => exact fun h _ => ⟨_, Takes.nil _, h⟩
  | cons r rs ih =>
      intro s h hheads
      obtain ⟨front, b, s1, s2, out, out', hbytes, hfront, hlast, hevents, -, hready⟩ :=
        takes_request r h (hheads r List.mem_cons_self)
      obtain ⟨s', hrest, hready'⟩ := ih hready fun r' hr' => hheads r' (List.mem_cons_of_mem r hr')
      refine ⟨s', ?_, hready'⟩
      rw [HttpRequest.stream, List.flatMap_cons, List.flatMap_cons, hbytes, hevents]
      exact (hfront.append hlast).append hrest

end Machine
end Http
end TcMuzi
