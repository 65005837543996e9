import TcMuzi.Http.OnRead
import TcMuzi.Http.WellFormed

/-!
# The parser under `OnRead`

`httpParser` spells the requests of every stream with heads that are not too long, in every
cut into buffers.  So `OnRead` serves a request that comes alone, and waits as long as a byte
of it is missing.
-/

namespace TcMuzi
namespace Http
namespace Machine

open Base Lib

/-! ## Calls and events -/

/-- What an event adds to what has been put together. -/
def note (a : Assembly) : Event → Assembly
  | .data .url b => { a with url := a.url ++ [b] }
  | .data .body b => { a with body := a.body ++ [b] }
  | .messageComplete => ⟨a.done ++ [(a.url, a.body)], [], []⟩
  | _ => a

theorem foldl_note_url (word : List UInt8) (a : Assembly) :
    (word.map (.data .url)).foldl note a = { a with url := a.url ++ word } := by
  induction word generalizing a with
  | nil => rw [List.append_nil]; rfl
  | cons b word ih =>
      rw [List.map_cons, List.foldl_cons, ih]
      show Assembly.mk a.done (a.url ++ [b] ++ word) a.body = _
      rw [List.append_assoc]
      rfl

theorem foldl_note_body (word : List UInt8) (a : Assembly) :
    (word.map (.data .body)).foldl note a = { a with body := a.body ++ word } := by
  induction word generalizing a with
  | nil => rw [List.append_nil]; rfl
  | cons b word ih =>
      rw [List.map_cons, List.foldl_cons, ih]
      show Assembly.mk a.done a.url (a.body ++ [b] ++ word) = _
      rw [List.append_assoc]
      rfl

/-- Names and values do not count. -/
theorem foldl_note_skip {events : List Event} (h : ∀ e ∈ events, ∀ a, note a e = a) (a : Assembly) :
    events.foldl note a = a := by
  induction events with
  | nil => rfl
  | cons e events ih =>
      rw [List.foldl_cons, h e List.mem_cons_self]
      exact ih fun e' he' => h e' (List.mem_cons_of_mem e he')

theorem note_string (d : Data) (hurl : d ≠ .url) (hbody : d ≠ .body) (word : List UInt8) :
    ∀ e ∈ word.map (Event.data d), ∀ a, note a e = a := by
  intro e he a
  obtain ⟨b, -, rfl⟩ := List.mem_map.mp he
  cases d with
  | url => exact absurd rfl hurl
  | body => exact absurd rfl hbody
  | headerField => rfl
  | headerValue => rfl

theorem next_toCallback (a : Assembly) (call : Call) :
    a.next call.toCallback = call.events.foldl note a := by
  cases call with
  | headersComplete => rfl
  | messageComplete => rfl
  | data d at_ length =>
      cases d with
      | url => exact (foldl_note_url _ a).symm
      | body => exact (foldl_note_body _ a).symm
      | headerField => exact (foldl_note_skip (note_string .headerField nofun nofun _) a).symm
      | headerValue => exact (foldl_note_skip (note_string .headerValue nofun nofun _) a).symm

theorem foldl_next_calls (calls : List Call) (a : Assembly) :
    (calls.map Call.toCallback).foldl Assembly.next a = (spelled calls).foldl note a := by
  induction calls generalizing a with
  | nil => rfl
  | cons call calls ih =>
      rw [List.map_cons, List.foldl_cons, ih, next_toCallback, ← List.foldl_append]
      rfl

theorem foldl_note_request (r : HttpRequest) (done : List (List UInt8 × List UInt8)) :
    (requestEvents r).foldl note ⟨done, [], []⟩ = ⟨done ++ [r.pair], [], []⟩ := by
  have hfields : ∀ e ∈ r.headers.flatMap fieldEvents, ∀ a, note a e = a := by
    intro e he a
    obtain ⟨line, -, hmem⟩ := List.mem_flatMap.mp he
    obtain hname | hvalue := List.mem_append.mp hmem
    · exact note_string .headerField nofun nofun _ e hname a
    · exact note_string .headerValue nofun nofun _ e hvalue a
  rw [requestEvents, List.foldl_append, List.foldl_append, foldl_note_url, foldl_note_skip hfields,
    List.foldl_cons, List.foldl_append, foldl_note_body]
  rfl

theorem foldl_note_requests (rs : List HttpRequest) (done : List (List UInt8 × List UInt8)) :
    (rs.flatMap requestEvents).foldl note ⟨done, [], []⟩ =
      ⟨done ++ rs.map HttpRequest.pair, [], []⟩ := by
  induction rs generalizing done with
  | nil => rw [List.map_nil, List.append_nil]; rfl
  | cons r rs ih =>
      rw [List.flatMap_cons, List.foldl_append, foldl_note_request, ih, List.append_assoc]
      rfl

/-! ## Streams -/

/-- Calls that find neither an error nor an upgrade are those of the server's parser. -/
theorem executeAll_httpParser (bufs : List (List UInt8)) : ∀ {s : Parser} {e : Executed},
    executeAll s bufs = some e → e.parser.errno = .ok → e.parser.upgrade = false →
      httpParser.executeAll s bufs = (e.parser, e.calls.map Call.toCallback) := by
  induction bufs with
  | nil =>
      intro s e he _ _
      obtain rfl := Option.some.inj he
      rfl
  | cons data bufs ih =>
      intro s e he herrno hupgrade
      cases hfirst : execute s data with
      | none =>
          rw [executeAll, hfirst] at he
          cases he
      | some first =>
          rw [executeAll_cons hfirst] at he
          split_ifs at he with hstop
          · obtain rfl := Option.some.inj he
            obtain hstop | hstop := hstop
            · exact absurd herrno hstop
            · exact absurd hstop (by rw [hupgrade]; exact Bool.false_ne_true)
          · obtain ⟨rest, hrest, rfl⟩ := Option.map_eq_some_iff.mp he
            show ((httpParser.executeAll (httpParser.execute s data).1 bufs).1,
              (httpParser.execute s data).2 ++
                (httpParser.executeAll (httpParser.execute s data).1 bufs).2) = _
            rw [httpParser_execute hfirst, ih hrest herrno hupgrade, List.map_append]
            rfl

/-- The calls and the callbacks for a word of whole requests, whatever buffers it comes in. -/
theorem spells_of_takes {rs : List HttpRequest} {bufs : List (List UInt8)} {s : Parser}
    (htakes : Takes react .init bufs.flatten s (rs.flatMap requestEvents)) (hready : s.Ready)
    (hbufs : ∀ data ∈ bufs, data ≠ []) :
    ∃ e, executeAll .init bufs = some e ∧ e.parser = s ∧ e.unread = [] ∧
      spelled e.calls = rs.flatMap requestEvents ∧
      Spells (httpParser.executeAll httpParser.init bufs).2 rs := by
  obtain ⟨e, he, hparser, hunread, hcalls⟩ :=
    executeAll_of_takes htakes sound_init rfl hready.sound.errno hbufs
  refine ⟨e, he, hparser, hunread, hcalls, ?_⟩
  rw [show httpParser.executeAll httpParser.init bufs = _ from
    executeAll_httpParser bufs he (hparser ▸ hready.sound.errno) (hparser ▸ hready.upgrade)]
  rw [Spells, foldl_next_calls, hcalls]
  exact foldl_note_requests rs []

/-- **The requests of a stream**, whatever buffers it comes in. -/
theorem executeAll_stream {rs : List HttpRequest} {bufs : List (List UInt8)}
    (hbufs : ∀ data ∈ bufs, data ≠ []) (hstream : bufs.flatten = HttpRequest.stream rs)
    (hheads : ∀ r ∈ rs, (headBytes r).length ≤ httpMaxHeaderSize) :
    ∃ e, executeAll .init bufs = some e ∧ e.parser.Ready ∧ e.unread = [] ∧
      spelled e.calls = rs.flatMap requestEvents ∧
      Spells (httpParser.executeAll httpParser.init bufs).2 rs := by
  obtain ⟨s, htakes, hready⟩ := takes_stream rs ready_init hheads
  rw [← hstream] at htakes
  obtain ⟨e, he, hparser, hrest⟩ := spells_of_takes htakes hready hbufs
  exact ⟨e, he, hparser ▸ hready, hrest⟩

/-- The login in two buffers. -/
theorem executeAll_stream_login :
    ∃ e, executeAll .init [login.bytes.take 5, login.bytes.drop 5] = some e ∧ e.parser.Ready ∧
      e.unread = [] ∧ spelled e.calls = [login].flatMap requestEvents ∧
      Spells (httpParser.executeAll httpParser.init [login.bytes.take 5, login.bytes.drop 5]).2
        [login] :=
  executeAll_stream (by decide) (by decide) (by decide)

/-! ## `OnRead` -/

theorem messageComplete_mem {calls : List Call}
    (h : .messageComplete ∈ calls.map Call.toCallback) : .messageComplete ∈ spelled calls := by
  obtain ⟨call, hcall, heq⟩ := List.mem_map.mp h
  refine List.mem_flatMap.mpr ⟨call, hcall, ?_⟩
  cases call with
  | messageComplete => exact List.mem_singleton_self _
  | headersComplete => cases heq
  | data d at_ length => cases d <;> cases heq

/-- The callbacks for one buffer, by the machine without buffers. -/
theorem execute_httpParser {data : List UInt8} (hdata : data ≠ []) :
    ∃ (calls : List Call) (d : Data) (word : List UInt8),
      (httpParser.execute httpParser.init data).2 = calls.map Call.toCallback ∧
        (feed react .init data).out = spelled calls ++ word.map (.data d) := by
  obtain ⟨e, he, hagrees⟩ := execute_agrees sound_init hdata
  obtain ⟨d, word, hcalls, -⟩ := hagrees.calls
  exact ⟨e.calls, d, word, congrArg Prod.snd (httpParser_execute he), hcalls⟩

/-- A proper part of a request completes no message. -/
theorem not_complete_of_front {r : HttpRequest} {front back : List UInt8}
    (h : front ++ back = r.bytes) (hback : back ≠ []) (hfits : front.length ≤ 4096) :
    ∃ s out, Takes react .init front s out ∧ .messageComplete ∉ out := by
  by_cases hhead : (headBytes r).length ≤ httpMaxHeaderSize
  · obtain ⟨most, b, s1, s', out, out', hbytes, hmost, -, -, hnone, -⟩ :=
      takes_request r ready_init hhead
    have hprefix : front <+: most := by
      have hlength := congrArg List.length (h.trans hbytes)
      have hpos := List.length_pos_iff.mpr hback
      simp only [List.length_append, List.length_singleton] at hlength
      have hfront : front <+: most ++ [b] := ⟨back, h.trans hbytes⟩
      exact List.prefix_of_prefix_length_le hfront (List.prefix_append _ _) (by omega)
    obtain ⟨tail, rfl⟩ := hprefix
    obtain ⟨s, out1, out2, hfront, -, rfl⟩ := hmost.split
    exact ⟨s, out1, hfront, fun hmem => hnone (List.mem_append_left _ hmem)⟩
  · -- the buffer ends in front of the empty line
    obtain ⟨s1, hfields, -, -⟩ := takes_fields r ready_init
    have hprefix : front <+: headLines (r.requestLine :: r.headers) ++ [13] := by
      have hfront : front <+: r.bytes := ⟨back, h⟩
      have hhead' : headLines (r.requestLine :: r.headers) ++ [13] <+: r.bytes :=
        ⟨10 :: r.body, by simp [HttpRequest.bytes]⟩
      refine List.prefix_of_prefix_length_le hfront hhead' ?_
      unfold httpMaxHeaderSize headBytes at hhead
      simp only [List.length_append, List.length_cons, List.length_nil] at hhead ⊢
      omega
    obtain ⟨tail, htail⟩ := hprefix
    rw [← htail] at hfields
    obtain ⟨s, out1, out2, hfront, -, hout⟩ := hfields.split
    refine ⟨s, out1, takes_of_unlimited hfront sound_init ?_, fun hmem => ?_⟩
    · show 0 + front.length ≤ 81920
      omega
    · have hall := hout ▸ List.mem_append_left out2 hmem
      simp [fieldEvents] at hall

theorem onRead_front {r : HttpRequest} {front back : List UInt8} (h : front ++ back = r.bytes)
    (hback : back ≠ []) (hfits : front.length ≤ 4096) : onRead httpParser front = .wait := by
  refine onRead_eq_wait (fun hmem => ?_) hfits
  by_cases hempty : front = []
  · subst hempty
    cases hmem
  · obtain ⟨calls, d, word, hcalls, hout⟩ := execute_httpParser hempty
    obtain ⟨s, out, htakes, hnone⟩ := not_complete_of_front h hback hfits
    have hsame : out = spelled calls ++ word.map (.data d) := (congrArg Fed.out htakes).symm.trans hout
    rw [hcalls] at hmem
    exact hnone (hsame ▸ List.mem_append_left _ (messageComplete_mem hmem))

/-- The members of the wrapper behind a buffer of whole requests. -/
theorem parseHttpContent_requests {group : List HttpRequest} (hne : group ≠ [])
    (hfits : (HttpRequest.stream group).length ≤ 4096) :
    let parser := HttpParserWrapper.parseHttpContent httpParser (HttpRequest.stream group)
    parser.url = (group.map (·.url)).flatten ∧ parser.bodyContent = (group.map (·.body)).flatten ∧
      parser.readAll = true := by
  have hheads : ∀ r ∈ group, (headBytes r).length ≤ httpMaxHeaderSize := by
    intro r hr
    obtain ⟨before, behind, rfl⟩ := List.append_of_mem hr
    rw [HttpRequest.stream, List.flatMap_append, List.flatMap_cons, bytes_eq] at hfits
    simp only [List.length_append] at hfits
    unfold httpMaxHeaderSize
    omega
  have hstream := stream_ne_nil hne
  obtain ⟨s, htakes, hready⟩ := takes_stream group ready_init hheads
  rw [show HttpRequest.stream group = [HttpRequest.stream group].flatten from
    (List.append_nil _).symm] at htakes
  obtain ⟨e, -, -, -, -, hspells⟩ := spells_of_takes htakes hready (by simpa using hstream)
  have hone : (httpParser.executeAll httpParser.init [HttpRequest.stream group]).2 =
      (httpParser.execute httpParser.init (HttpRequest.stream group)).2 := List.append_nil _
  rw [hone] at hspells
  have hcollects := HttpParserWrapper.collects_reset.foldl
    (httpParser.execute httpParser.init (HttpRequest.stream group)).2
  rw [hspells] at hcollects
  obtain ⟨hurl, hbody, hall⟩ := hcollects
  refine ⟨?_, ?_, ?_⟩
  · rw [HttpParserWrapper.parseHttpContent, hurl]
    simp [HttpRequest.pair, Function.comp_def]
  · rw [HttpParserWrapper.parseHttpContent, hbody]
    simp [HttpRequest.pair, Function.comp_def]
  · rw [HttpParserWrapper.parseHttpContent, hall]
    simpa using hne

/-- A buffer of requests is dispatched as one request, or closes the connection. -/
theorem onRead_requests {group : List HttpRequest} (hne : group ≠ [])
    (hfits : (HttpRequest.stream group).length ≤ 4096) :
    onRead httpParser (HttpRequest.stream group) =
      (routeOf (CString.cStr (group.map (·.url)).flatten)).elim .close fun route =>
        .run ⟨route, CString.cStr (group.map (·.url)).flatten,
          CString.cStr (group.map (·.body)).flatten, boundaryOf
            (HttpParserWrapper.parseHttpContent httpParser (HttpRequest.stream group)).contentType⟩
    := by
  obtain ⟨hurl, hbody, hall⟩ := parseHttpContent_requests hne hfits
  have hlong : ¬ 4096 < (HttpRequest.stream group).length := by omega
  cases hroute : routeOf (CString.cStr (group.map (·.url)).flatten) with
  | none => simp only [onRead, if_neg hlong, hall, if_true, hurl, hroute, Option.elim]
  | some route => simp only [onRead, if_neg hlong, hall, if_true, hurl, hbody, hroute, Option.elim]

/-- With the parser of the server, a request that comes alone is run as it is exactly when it is
served; as long as a byte is missing nothing happens; and of several requests in one buffer at
most one is run, with the URLs and the bodies of all. -/
theorem onRead_httpParser (r : HttpRequest) :
    ((∃ task, onRead httpParser r.bytes = .run task ∧ task.pair = r.pair) ↔ Served r) ∧
    (∀ front back, front ++ back = r.bytes → back ≠ [] →
      onRead httpParser front = if 4096 < front.length then .close else .wait) ∧
    ∀ rs task, onRead httpParser (HttpRequest.stream (r :: rs)) = .run task →
      task.url = CString.cStr ((r :: rs).map (·.url)).flatten ∧
        task.content = CString.cStr ((r :: rs).map (·.body)).flatten := by
  have hgroup : ∀ rs task, onRead httpParser (HttpRequest.stream (r :: rs)) = .run task →
      task.url = CString.cStr ((r :: rs).map (·.url)).flatten ∧
        task.content = CString.cStr ((r :: rs).map (·.body)).flatten ∧
        routeOf task.url ≠ none ∧ (HttpRequest.stream (r :: rs)).length ≤ 4096 := by
    intro rs task hrun
    by_cases hlong : 4096 < (HttpRequest.stream (r :: rs)).length
    · rw [onRead, if_pos hlong] at hrun
      cases hrun
    · have hfits := not_lt.mp hlong
      rw [onRead_requests (List.cons_ne_nil r rs) hfits] at hrun
      cases hroute : routeOf (CString.cStr ((r :: rs).map (·.url)).flatten) with
      | none =>
          rw [hroute] at hrun
          cases hrun
      | some route =>
          rw [hroute, Option.elim_some] at hrun
          obtain rfl := Outcome.run.inj hrun
          exact ⟨rfl, rfl, by rw [hroute]; exact Option.some_ne_none route, hfits⟩
  have hone : HttpRequest.stream [r] = r.bytes := List.append_nil _
  refine ⟨⟨?_, ?_⟩, ?_, fun rs task hrun => ⟨(hgroup rs task hrun).1, (hgroup rs task hrun).2.1⟩⟩
  · rintro ⟨task, hrun, hpair⟩
    rw [← hone] at hrun
    obtain ⟨hurl, hcontent, hroute, hfits⟩ := hgroup [] task hrun
    simp only [List.map_cons, List.map_nil, List.flatten_cons, List.flatten_nil, List.append_nil]
      at hurl hcontent
    refine ⟨hone ▸ hfits, hurl ▸ hroute, CString.bytes_cStr_eq_iff.mp ?_⟩
    rw [← hcontent]
    exact (Prod.mk.inj hpair).2
  · rintro ⟨hfits, hrouted, hnul⟩
    obtain ⟨route, hroute⟩ := Option.ne_none_iff_exists'.mp hrouted
    have hrun := onRead_requests (List.cons_ne_nil r []) (hone ▸ hfits)
    simp only [List.map_cons, List.map_nil, List.flatten_cons, List.flatten_nil, List.append_nil,
      hroute, Option.elim_some] at hrun
    rw [hone] at hrun
    exact ⟨_, hrun, Prod.ext (CString.bytes_cStr (nulFree_url r)) (CString.bytes_cStr hnul)⟩
  · intro front back h hback
    split_ifs with hlong
    · rw [onRead, if_pos hlong]
    · exact onRead_front h hback (not_lt.mp hlong)

end Machine
end Http
end TcMuzi
