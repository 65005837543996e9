import Mathlib.Data.List.Induction
import TcMuzi.Http.Request

/-!
# An incremental parser and what makes it correct

`http_parser_execute` takes the bytes of one buffer and calls back; how it does that is
left open.  `HttpParser.Correct` says what a correct one calls for the bytes of
well-formed requests, however they are cut into buffers.  `bytewise` is a correct parser
that works byte by byte.
-/

namespace TcMuzi
namespace Http

open Base Lib

/-- The calls of `http_parser_execute`.  A data callback gets a part of its string; the
callback for a header field also sees the bytes behind it. -/
inductive Callback
  | url (part : List UInt8)
  | headerField (at_ : List UInt8)
  | headerValue (part : List UInt8)
  | headersComplete
  | body (part : List UInt8)
  | messageComplete
deriving DecidableEq

/-- `http_parser_init` and `http_parser_execute` on a parser state. -/
structure HttpParser where
  State : Type
  init : State
  execute : State → List UInt8 → State × List Callback

/-- What a consumer of the callbacks has put together: the messages that were completed,
and the URL and the body of the next one so far. -/
structure Assembly where
  done : List (List UInt8 × List UInt8)
  url : List UInt8
  body : List UInt8
deriving DecidableEq

def Assembly.start : Assembly := ⟨[], [], []⟩

def Assembly.next (a : Assembly) : Callback → Assembly
  | .url part => { a with url := a.url ++ part }
  | .body part => { a with body := a.body ++ part }
  | .messageComplete => ⟨a.done ++ [(a.url, a.body)], [], []⟩
  | _ => a

/-- The URL and the body of a request. -/
def HttpRequest.pair (r : HttpRequest) : List UInt8 × List UInt8 := (r.url, r.body)

/-- The callbacks make up exactly the requests. -/
def Spells (callbacks : List Callback) (rs : List HttpRequest) : Prop :=
  callbacks.foldl Assembly.next .start = ⟨rs.map HttpRequest.pair, [], []⟩

namespace HttpParser

/-- One buffer after the other. -/
def executeAll (P : HttpParser) (s : P.State) : List (List UInt8) → P.State × List Callback
  | [] => (s, [])
  | buf :: bufs =>
      let first := P.execute s buf
      let rest := P.executeAll first.1 bufs
      (rest.1, first.2 ++ rest.2)

/-- A correct parser spells the requests of a stream whatever buffers it comes in, and
completes no message before its request line and its empty line have ended. -/
structure Correct (P : HttpParser) : Prop where
  incremental : ∀ (rs : List HttpRequest) bufs, bufs.flatten = HttpRequest.stream rs →
    Spells (P.executeAll P.init bufs).2 rs
  complete : ∀ buf, .messageComplete ∈ (P.execute P.init buf).2 → 2 ≤ buf.count 10

/-- The whole stream in one buffer. -/
theorem Correct.spells {P : HttpParser} (h : P.Correct) (rs : List HttpRequest) :
    Spells (P.execute P.init (HttpRequest.stream rs)).2 rs := by
  have hone := h.incremental rs [HttpRequest.stream rs] (List.append_nil _)
  simpa [executeAll] using hone

end HttpParser

/-! ## A parser that works byte by byte -/

/-- A header line with the bytes around its colon. -/
def headerCallbacks (line : List UInt8) : List Callback :=
  [.headerField line, .headerValue ((line.dropWhile (· ≠ 58)).drop 2)]

/-- The callbacks of one message. -/
def messageCallbacks (m : Message) : List Callback :=
  .url m.url :: m.headers.flatMap headerCallbacks ++
    [.headersComplete, .body m.body, .messageComplete]

/-- One more byte of a pending request, which is called back when it is complete. -/
def bytewiseStep (s : List UInt8 × List Callback) (b : UInt8) : List UInt8 × List Callback :=
  match readRequest (s.1 ++ [b]) with
  | some (m, _) => ([], s.2 ++ messageCallbacks m)
  | none => (s.1 ++ [b], s.2)

def bytewise : HttpParser where
  State := List UInt8
  init := []
  execute pending buf := buf.foldl bytewiseStep (pending, [])

theorem bytewiseStep_callbacks (pending : List UInt8) (callbacks : List Callback) (b : UInt8) :
    bytewiseStep (pending, callbacks) b =
      ((bytewiseStep (pending, []) b).1, callbacks ++ (bytewiseStep (pending, []) b).2) := by
  unfold bytewiseStep
  cases readRequest (pending ++ [b]) with
  | none => simp
  | some result => simp

theorem foldl_bytewiseStep (buf pending : List UInt8) (callbacks : List Callback) :
    buf.foldl bytewiseStep (pending, callbacks) =
      ((buf.foldl bytewiseStep (pending, [])).1,
        callbacks ++ (buf.foldl bytewiseStep (pending, [])).2) := by
  induction buf generalizing pending callbacks with
  | nil => simp
  | cons b buf ih =>
      rw [List.foldl_cons, List.foldl_cons, bytewiseStep_callbacks, ih,
        ih _ (bytewiseStep (pending, []) b).2, List.append_assoc]

/-- The buffers do not matter. -/
theorem executeAll_bytewise (bufs : List (List UInt8)) (pending : bytewise.State) :
    bytewise.executeAll pending bufs = bytewise.execute pending bufs.flatten := by
  induction bufs generalizing pending with
  | nil => rfl
  | cons buf bufs ih =>
      rw [HttpParser.executeAll, ih]
      show _ = (buf ++ bufs.flatten).foldl bytewiseStep (pending, [])
      rw [List.foldl_append]
      exact (foldl_bytewiseStep bufs.flatten _ _).symm

/-- Nothing is called back before the last byte of a request. -/
theorem foldl_bytewiseStep_front {r : HttpRequest} {front back : List UInt8}
    (h : front ++ back = r.bytes) (hback : back ≠ []) (callbacks : List Callback) :
    front.foldl bytewiseStep ([], callbacks) = (front, callbacks) := by
  induction front using List.reverseRecOn generalizing back with
  | nil => rfl
  | append_singleton front b ih =>
      rw [List.foldl_append, ih (by rw [← h, List.append_assoc]) (by simp)]
      show bytewiseStep (front, callbacks) b = _
      have hnone : readRequest (front ++ [b]) = none := by
        rcases hread : readRequest (front ++ [b]) with _ | ⟨m, rest⟩
        · rfl
        · have hmore := @readRequest_append _ back _ _ hread
          rw [h, r.readRequest_bytes] at hmore
          have hrest := (Prod.mk.inj (Option.some.inj hmore)).2
          exact absurd (List.append_eq_nil_iff.mp hrest.symm).2 hback
      rw [bytewiseStep, hnone]

theorem foldl_bytewiseStep_bytes (r : HttpRequest) (callbacks : List Callback) :
    r.bytes.foldl bytewiseStep ([], callbacks) = ([], callbacks ++ messageCallbacks r.message) := by
  rcases List.eq_nil_or_concat r.bytes with hnil | ⟨front, b, hsplit⟩
  · have hread := r.readRequest_bytes
    rw [hnil] at hread
    cases hread
  · rw [List.concat_eq_append] at hsplit
    rw [hsplit, List.foldl_append, foldl_bytewiseStep_front hsplit.symm (by simp)]
    show bytewiseStep (front, callbacks) b = _
    rw [bytewiseStep, ← hsplit, r.readRequest_bytes]

theorem foldl_next_headers (a : Assembly) (headers : List (List UInt8)) :
    (headers.flatMap headerCallbacks).foldl Assembly.next a = a := by
  induction headers with
  | nil => rfl
  | cons line headers ih =>
      rw [List.flatMap_cons, List.foldl_append]
      exact ih

theorem foldl_next_message (r : HttpRequest) (done : List (List UInt8 × List UInt8)) :
    (messageCallbacks r.message).foldl Assembly.next ⟨done, [], []⟩ =
      ⟨done ++ [r.pair], [], []⟩ := by
  rw [messageCallbacks, List.cons_append, List.foldl_cons, List.foldl_append, foldl_next_headers]
  rfl

theorem foldl_bytewiseStep_stream (rs : List HttpRequest) (callbacks : List Callback) :
    (HttpRequest.stream rs).foldl bytewiseStep ([], callbacks) =
      ([], callbacks ++ rs.flatMap fun r => messageCallbacks r.message) := by
  induction rs generalizing callbacks with
  | nil => simp [HttpRequest.stream]
  | cons r rs ih =>
      rw [HttpRequest.stream, List.flatMap_cons, List.foldl_append, foldl_bytewiseStep_bytes]
      rw [HttpRequest.stream] at ih
      rw [ih, List.flatMap_cons, List.append_assoc]

theorem foldl_next_messages (rs : List HttpRequest) (done : List (List UInt8 × List UInt8)) :
    (rs.flatMap fun r => messageCallbacks r.message).foldl Assembly.next ⟨done, [], []⟩ =
      ⟨done ++ rs.map HttpRequest.pair, [], []⟩ := by
  induction rs generalizing done with
  | nil => simp
  | cons r rs ih =>
      rw [List.flatMap_cons, List.foldl_append, foldl_next_message, ih, List.map_cons,
        List.append_assoc]
      rfl

/-- A completed message has been read from the pending bytes. -/
theorem two_le_count_of_bytewise {buf pending : List UInt8}
    (h : .messageComplete ∈ (buf.foldl bytewiseStep (pending, [])).2) :
    2 ≤ (pending ++ buf).count 10 := by
  induction buf generalizing pending with
  | nil => cases h
  | cons b buf ih =>
      rw [List.foldl_cons] at h
      have hcount : (pending ++ b :: buf).count 10 =
          (pending ++ [b]).count 10 + buf.count 10 := by
        rw [← List.count_append, List.append_assoc, List.singleton_append]
      cases hread : readRequest (pending ++ [b]) with
      | none =>
          have hstep : bytewiseStep (pending, []) b = (pending ++ [b], []) := by
            rw [bytewiseStep, hread]
          rw [hstep] at h
          have hle := ih h
          rwa [List.append_assoc] at hle
      | some result =>
          have hle := two_le_count_of_readRequest hread
          omega

theorem bytewise_correct : bytewise.Correct where
  incremental rs bufs hbufs := by
    rw [executeAll_bytewise, hbufs]
    show Spells ((HttpRequest.stream rs).foldl bytewiseStep ([], [])).2 rs
    rw [foldl_bytewiseStep_stream]
    exact foldl_next_messages rs []
  complete buf h := two_le_count_of_bytewise h

end Http
end TcMuzi
