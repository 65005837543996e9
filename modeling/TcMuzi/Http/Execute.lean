import TcMuzi.Http.Parser
import TcMuzi.Http.StateMachine

/-!
# `http_parser_execute`

The loop over one buffer, with the marks as pointers into it.  A pointer is the bytes from its
place to the end of the buffer.  The callbacks are those that `CHttpParserWrapper` sets, and
all of them return 0.

* `loop` is the `for` loop.
* `execute` adds what is done in front of the loop and behind it.
* `httpParser` is the parser that `TCServer::OnRead` uses.
-/

namespace TcMuzi
namespace Http
namespace Machine

open Base

/-- A call of a callback; a data callback gets a pointer and a length. -/
inductive Call
  | data (d : Data) (at_ : List UInt8) (length : Nat)
  | headersComplete
  | messageComplete
deriving DecidableEq

/-- The marks, which may be NULL, and the calls that were made. -/
structure Locals where
  mark : Data → Option (List UInt8)
  calls : List Call

/-- A macro at the position `p`. -/
def Locals.act (p : List UInt8) (l : Locals) : Act → Locals
  | .mark d =>
      match l.mark d with
      | none => { l with mark := Function.update l.mark d (some p) }
      | some _ => l
  | .data d more =>
      match l.mark d with
      | none => l
      | some at_ =>
          { mark := Function.update l.mark d none
            calls := l.calls ++ [.data d at_ (at_.length - p.length + more)] }
  | .headersComplete => { l with calls := l.calls ++ [.headersComplete] }
  | .messageComplete => { l with calls := l.calls ++ [.messageComplete] }

def Locals.acts (p : List UInt8) (l : Locals) (acts : List Act) : Locals := acts.foldl (act p) l

/-- The parser behind a call of `http_parser_execute`, the callbacks, and the bytes behind
those that it has read. -/
structure Executed where
  parser : Parser
  calls : List Call
  unread : List UInt8
  -- what it returns beyond the bytes that it has read
  excess : Nat

/-- The number of bytes that a call for `data` returns. -/
def Executed.nparsed (e : Executed) (data : List UInt8) : Nat :=
  data.length - e.unread.length + e.excess

/-- The data that a mark is set for at the beginning of a buffer. -/
def State.marked : State → Option Data
  | .headerField => some .headerField
  | .headerValue => some .headerValue
  | .reqPath | .reqSchema | .reqSchemaSlash | .reqSchemaSlashSlash | .reqServerStart | .reqServer
  | .reqServerWithAt | .reqQueryStringStart | .reqQueryString | .reqFragmentStart
  | .reqFragment => some .url
  | _ => none

/-- The data in the order of the callbacks behind the loop. -/
def allData : List Data := [.headerField, .headerValue, .url, .body]

/-- The leftover marks; `none` where the `assert` in front of the callbacks fails. -/
def finish (s : Parser) (l : Locals) : Option Executed :=
  if 1 < (allData.filter fun d => (l.mark d).isSome).length then none
  else some ⟨s, (l.acts [] (allData.map fun d => .data d 0)).calls, [], 0⟩

/-- `++parser->nread` in the states of a header. -/
def Parser.count (s : Parser) : Parser :=
  if s.state.parsingHeader then { s with nread := s.nread + 1 } else s

/-- The loop, with the number of bytes that `p` still jumps over; `none` where it is stuck. -/
def loop : Nat → Parser → Locals → List UInt8 → Option Executed
  | _, s, l, [] => finish s l
  | skip + 1, s, l, _ :: rest => loop skip s l rest
  | 0, s, l, ch :: rest =>
      let s := s.count
      if s.state.parsingHeader ∧ httpMaxHeaderSize < s.nread then
        some ⟨{ s with errno := .headerOverflow }, l.calls, ch :: rest, 0⟩
      else
        let t := s.turn ch (rest.length + 1)
        let l := l.acts (ch :: rest) t.acts
        match t.ctrl with
        | .next => loop t.skip t.parser l rest
        | .leave => some ⟨t.parser, l.calls, rest, 0⟩
        | .error => some ⟨t.parser, l.calls, ch :: rest, 0⟩
        | .stuck => none

/-- The end of the stream, which returns 1 where it does not expect one. -/
def executeEof (s : Parser) : Executed :=
  if s.state = .dead ∨ s.state = .startReq then ⟨s, [], [], 0⟩
  else ⟨{ s with errno := .invalidEofState }, [], [], 1⟩

def execute (s : Parser) (data : List UInt8) : Option Executed :=
  if s.errno ≠ .ok then some ⟨s, [], data, 0⟩
  else if data = [] then some (executeEof s)
  else loop 0 s ⟨fun d => if s.state.marked = some d then some data else none, []⟩ data

/-- A callback as the wrapper sees it, which does not use the length of a name. -/
def Call.toCallback : Call → Callback
  | .data .url at_ length => .url (at_.take length)
  | .data .headerField at_ _ => .headerField at_
  | .data .headerValue at_ length => .headerValue (at_.take length)
  | .data .body at_ length => .body (at_.take length)
  | .headersComplete => .headersComplete
  | .messageComplete => .messageComplete

/-- The parser of the server; a parser that is stuck has ended the process. -/
def httpParser : HttpParser where
  State := Parser
  init := .init
  execute s buf :=
    match execute s buf with
    | some e => (e.parser, e.calls.map Call.toCallback)
    | none => (s, [])

theorem httpParser_execute {s : Parser} {buf : List UInt8} {e : Executed}
    (h : execute s buf = some e) :
    httpParser.execute s buf = (e.parser, e.calls.map Call.toCallback) := by
  simp only [httpParser, h]

end Machine
end Http
end TcMuzi
