import TcMuzi.Redis.ReaderRuns

/-!
# A blocking connection of hiredis

`redisGetReply`: what was appended is written, and the socket is read until the reader has a
reply.  The calls of `read` and `write` return what the operating system likes, a byte at a
time or everything at once.

* `sent_redisGetReply`: no byte of a command is lost, sent twice or sent out of order.
* `getReplies_eq`: the replies and the errors of any number of calls are the ones of the bytes
  that arrive, however they arrive.

Both need buffers of at most `INT_MAX` bytes, since `sdsrange` loses bytes of a larger one.
-/

namespace TcMuzi
namespace Redis
namespace Read

open Base Lib

/-- What a call of `read` returns. -/
inductive ReadResult
  -- no byte when the server has closed the connection
  | bytes (buf : List UInt8)
  -- `EINTR`
  | interrupted
  -- another `errno`
  | failed (errstr : List UInt8)

/-- What a call of `write` returns. -/
inductive WriteResult
  | wrote (nwritten : Nat)
  | interrupted
  | failed (errstr : List UInt8)

/-- `err` and `errstr` of a context. -/
inductive RedisError
  | protocol (errstr : List UInt8)
  | eof
  | io (errstr : List UInt8)

def RedisError.errstr : RedisError → List UInt8
  | protocol errstr => errstr
  | eof => (CString.lit "Server closed the connection").bytes
  | io errstr => errstr

/-- `redisContext` with `REDIS_BLOCK`. -/
structure RedisContext where
  err : Option RedisError
  obuf : List UInt8
  reader : RedisReader
  -- of the coming calls of `read`; behind them the connection is closed
  reads : List ReadResult
  -- of the coming calls of `write`; behind them everything is taken
  writes : List WriteResult
  -- the bytes the socket has taken
  written : List UInt8

/-- `redisBufferRead`. -/
def redisBufferRead (c : RedisContext) : Bool × RedisContext :=
  if c.err.isSome then (false, c)
  else
    match c.reads with
    | [] => (false, { c with err := some .eof })
    | .bytes buf :: reads =>
        if buf = [] then (false, { c with err := some .eof, reads := reads })
        else
          let feed := redisReaderFeed c.reader buf
          if feed.1 then (true, { c with reader := feed.2, reads := reads })
          else (false, { c with err := feed.2.err.map .protocol, reader := feed.2, reads := reads })
    | .interrupted :: reads => (true, { c with reads := reads })
    | .failed errstr :: reads => (false, { c with err := some (.io errstr), reads := reads })

/-- The output buffer when `write` has returned `nwritten`. -/
def unwritten (obuf : List UInt8) (nwritten : Nat) : List UInt8 :=
  if nwritten = 0 then obuf
  else if (nwritten : Int) = wrapInt32 obuf.length then []
  else sdsrange obuf nwritten (-1)

/-- `write` takes at most what it gets, and not more than an `int` can tell. -/
def RedisContext.wrote (c : RedisContext) (nwritten : Nat) : RedisContext :=
  let nwritten := min nwritten (min c.obuf.length 2147483647)
  { c with
    obuf := unwritten c.obuf nwritten
    written := c.written ++ c.obuf.take nwritten }

/-- `redisBufferWrite`: the status, `done` and the context. -/
def redisBufferWrite (c : RedisContext) : Bool × Bool × RedisContext :=
  if c.err.isSome then (false, false, c)
  else if c.obuf = [] then (true, true, c)
  else
    match c.writes with
    | [] => (true, (c.wrote c.obuf.length).obuf = [], c.wrote c.obuf.length)
    | .wrote nwritten :: writes =>
        (true, (c.wrote nwritten).obuf = [], { c.wrote nwritten with writes := writes })
    | .interrupted :: writes => (true, false, { c with writes := writes })
    | .failed errstr :: writes =>
        (false, false, { c with err := some (.io errstr), writes := writes })

/-- `redisGetReplyFromReader`. -/
def redisGetReplyFromReader (c : RedisContext) : Bool × Option RedisReply × RedisContext :=
  let get := redisReaderGetReply c.reader
  if get.1 then (true, get.2.1, { c with reader := get.2.2 })
  else (false, none, { c with err := get.2.2.err.map .protocol, reader := get.2.2 })

/-- "Write until done": every turn but the last uses a result of `write`. -/
def writeUntilDone : Nat → RedisContext → Bool × RedisContext
  | 0, c => (false, c)
  | fuel + 1, c =>
      let write := redisBufferWrite c
      if write.1 then
        if write.2.1 then (true, write.2.2) else writeUntilDone fuel write.2.2
      else (false, write.2.2)

/-- "Read until there is a reply": every turn uses a result of `read`. -/
def readUntilReply : Nat → RedisContext → Bool × Option RedisReply × RedisContext
  | 0, c => (false, none, c)
  | fuel + 1, c =>
      let read := redisBufferRead c
      if read.1 then
        let get := redisGetReplyFromReader read.2
        if get.1 && get.2.1.isNone then readUntilReply fuel get.2.2 else get
      else (false, none, read.2)

/-- `redisGetReply`. -/
def redisGetReply (c : RedisContext) : Bool × Option RedisReply × RedisContext :=
  let get := redisGetReplyFromReader c
  if get.1 && get.2.1.isNone then
    let flush := writeUntilDone (get.2.2.writes.length + 1) get.2.2
    if flush.1 then readUntilReply (flush.2.reads.length + 1) flush.2 else (false, none, flush.2)
  else get

/-- The reply and the error behind each of some calls. -/
def getReplies : Nat → RedisContext → List (Option RedisReply × Option RedisError)
  | 0, _ => []
  | n + 1, c =>
      ((redisGetReply c).2.1, (redisGetReply c).2.2.err) :: getReplies n (redisGetReply c).2.2

/-! ## What arrives -/

/-- The bytes that arrive. -/
def delivered : List ReadResult → List UInt8
  | [] => []
  | .bytes buf :: reads => if buf = [] then [] else buf ++ delivered reads
  | .interrupted :: reads => delivered reads
  | .failed _ :: _ => []

/-- The error behind them. -/
def ending : List ReadResult → RedisError
  | [] => .eof
  | .bytes buf :: reads => if buf = [] then .eof else ending reads
  | .interrupted :: reads => ending reads
  | .failed errstr :: _ => .io errstr

/-- What some calls return when the bytes have the replies and errors `outs`. -/
def expected (last : RedisError) : List Out → Nat → List (Option RedisReply × Option RedisError)
  | _, 0 => []
  | [], n + 1 => (none, some last) :: expected last [] n
  | .reply reply :: outs, n + 1 => (some reply, none) :: expected last outs n
  | .error errstr :: _, n + 1 => List.replicate (n + 1) (none, some (.protocol errstr))

/-- A context without an error, no call of `write` fails, and `write` can take what there is. -/
structure Writable (c : RedisContext) : Prop where
  err : c.err = none
  writes : ∀ errstr, WriteResult.failed errstr ∉ c.writes
  obuf : c.obuf.length ≤ 2147483647

/-- What `read` gets fits into the 16 KiB of `redisBufferRead`. -/
def Pieces (reads : List ReadResult) : Prop :=
  ∀ buf, ReadResult.bytes buf ∈ reads → buf.length ≤ 16384

/-- The buffer of the reader stays within `INT_MAX` bytes: fewer than 1024 that are used, the
part of a reply, and what `read` adds. -/
structure Bounded (s : State) (unread : List UInt8) (reads : List ReadResult) : Prop where
  pieces : Pieces reads
  parts : ∀ front, front <+: delivered reads →
    (Reassembly.settle itemStep s (unread ++ front)).rest.length ≤ 2147466240

/-- A writable context, its reader at `s` and in front of `unread`. -/
structure Live (c : RedisContext) (s : State) (unread : List UInt8) : Prop extends Writable c where
  stands : Stands c.reader s unread
  small : Small c.reader
  bounded : Bounded s unread c.reads

/-- A context whose calls all end with the error. -/
structure Dead (c : RedisContext) (e : RedisError) : Prop where
  err : c.err = some e
  reader : (∃ errstr, c.reader.err = some errstr ∧ e = .protocol errstr) ∨
    ∃ s unread, Stands c.reader s unread ∧ itemStep s unread = none ∧ Small c.reader

/-- A call, by the replies and errors that are to come and the error behind them. -/
inductive Answers : Bool × Option RedisReply × RedisContext → RedisError → List Out → Prop
  | reply {c : RedisContext} {s : State} {unread : List UInt8} (reply : RedisReply)
      (h : Live c s unread) :
      Answers (true, some reply, c) (ending c.reads)
        (.reply reply :: (Reassembly.settle itemStep s (unread ++ delivered c.reads)).outs)
  | error {c : RedisContext} {e : RedisError} {errstr : List UInt8} (outs : List Out)
      (h : Dead c (.protocol errstr)) : Answers (false, none, c) e (.error errstr :: outs)
  | ended {c : RedisContext} {e : RedisError} (h : Dead c e) : Answers (false, none, c) e []

/-- The reader asked once: a reply, an error, or nothing while it waits. -/
inductive Asked (c : RedisContext) :
    Bool × Option RedisReply × RedisContext → State × List UInt8 × Option Out → Prop
  | reply {r : RedisReader} {s : State} {left : List UInt8} (reply : RedisReply)
      (h : Live { c with reader := r } s left) :
      Asked c (true, some reply, { c with reader := r }) (s, left, some (.reply reply))
  | error {c' : RedisContext} {s : State} {left errstr : List UInt8}
      (h : Dead c' (.protocol errstr)) :
      Asked c (false, none, c') (s, left, some (.error errstr))
  | nothing {r : RedisReader} {s : State} {left : List UInt8}
      (h : Live { c with reader := r } s left) :
      Asked c (true, none, { c with reader := r }) (s, left, none)

/-- What is to come behind the first output. -/
theorem settle_pull_append {s s' : State} {unread left : List UInt8} {out : Option Out}
    (hpull : Reassembly.pull itemStep s unread = (s', left, out)) (more : List UInt8) :
    Reassembly.settle itemStep s (unread ++ more) =
      (Reassembly.settle itemStep s' (left ++ more)).after out.toList := by
  rw [Reassembly.settle_append steady, Reassembly.settle_pull steady, hpull,
    Reassembly.settle_append steady s' left]
  simp

theorem Bounded.pull {s s' : State} {unread left : List UInt8} {reads : List ReadResult}
    {out : Option Out} (h : Bounded s unread reads)
    (hpull : Reassembly.pull itemStep s unread = (s', left, out)) : Bounded s' left reads := by
  refine ⟨h.pieces, fun front hfront => ?_⟩
  have hparts := h.parts front hfront
  rwa [settle_pull_append hpull] at hparts

/-- A piece that has arrived. -/
theorem Bounded.read {s : State} {unread buf : List UInt8} {reads : List ReadResult}
    (h : Bounded s unread (.bytes buf :: reads)) (hbuf : buf ≠ []) :
    Bounded s (unread ++ buf) reads := by
  refine ⟨fun piece hmem => h.pieces piece (List.mem_cons_of_mem _ hmem), fun front hfront => ?_⟩
  rw [List.append_assoc]
  refine h.parts _ ?_
  rw [delivered, if_neg hbuf]
  exact List.prefix_append_right_inj _ |>.mpr hfront

theorem Bounded.interrupted {s : State} {unread : List UInt8} {reads : List ReadResult}
    (h : Bounded s unread (.interrupted :: reads)) : Bounded s unread reads :=
  ⟨fun piece hmem => h.pieces piece (List.mem_cons_of_mem _ hmem), h.parts⟩

/-- A waiting reader has room for one more piece. -/
theorem small_redisReaderFeed {r : RedisReader} {s : State} {unread buf : List UInt8}
    {reads : List ReadResult} (h : Small r) (hstands : Stands r s unread)
    (hwait : itemStep s unread = none) (hbounded : Bounded s unread (.bytes buf :: reads)) :
    Small (redisReaderFeed r buf).2 := by
  have hpart := hbounded.parts [] List.nil_prefix
  rw [List.append_nil, Reassembly.settle_wait hwait] at hpart
  have hpiece := hbounded.pieces buf List.mem_cons_self
  have hlength : r.buf.length = r.pos + unread.length := by
    have hlen := length_unread r
    cases hstands with
    | idle err reply pos => omega
    | reading hat =>
        have := hat.pos
        omega
  have hpos := h.pos
  rw [redisReaderFeed]
  split
  · exact h
  · refine ⟨?_, h.pos⟩
    rw [List.length_append]
    dsimp only at hpart
    omega

theorem redisGetReplyFromReader_asked {c : RedisContext} {s : State} {unread : List UInt8}
    (h : Live c s unread) :
    Asked c (redisGetReplyFromReader c) (Reassembly.pull itemStep s unread) := by
  have hgets := redisReaderGetReply_pull h.stands h.small.fits
  have hsmall := redisReaderGetReply_small h.small
  rw [redisGetReplyFromReader]
  generalize redisReaderGetReply c.reader = get at hgets hsmall ⊢
  generalize hpull : Reassembly.pull itemStep s unread = pulled at hgets ⊢
  cases hgets with
  | nothing hstands =>
      exact .nothing
        ⟨⟨h.err, h.writes, h.obuf⟩, hstands, hsmall rfl, h.bounded.pull hpull⟩
  | reply hstands =>
      exact .reply _ ⟨⟨h.err, h.writes, h.obuf⟩, hstands, hsmall rfl, h.bounded.pull hpull⟩
  | error herr =>
      refine .error ⟨?_, .inl ⟨_, herr, rfl⟩⟩
      show Option.map RedisError.protocol _ = _
      rw [herr]
      rfl

/-! ## The loops -/

theorem unwritten_eq_drop {obuf : List UInt8} (hobuf : obuf.length ≤ 2147483647)
    (nwritten : Nat) : unwritten obuf nwritten = obuf.drop nwritten := by
  have hlen : wrapInt32 (obuf.length : Int) = obuf.length := wrapInt32_eq ⟨by omega, by omega⟩
  rw [unwritten, hlen]
  split_ifs with hzero hall
  · rw [hzero, List.drop_zero]
  · rw [Int.ofNat_inj.mp hall, List.drop_length]
  · exact sdsrange_eq_drop hobuf nwritten

theorem length_wrote_le (c : RedisContext) (nwritten : Nat) :
    (c.wrote nwritten).obuf.length ≤ c.obuf.length := by
  show (unwritten c.obuf _).length ≤ _
  rw [unwritten]
  split_ifs
  · exact le_rfl
  · exact Nat.zero_le _
  · exact length_sdsrange_le _ _ _

theorem wrote_all {c : RedisContext} (hobuf : c.obuf.length ≤ 2147483647) :
    (c.wrote c.obuf.length).obuf = [] := by
  show unwritten c.obuf (min c.obuf.length (min c.obuf.length 2147483647)) = []
  rw [Nat.min_eq_left hobuf, Nat.min_self, unwritten_eq_drop hobuf, List.drop_length]

theorem redisBufferWrite_writable {c : RedisContext} (h : Writable c) :
    (redisBufferWrite c).1 = true ∧ Writable (redisBufferWrite c).2.2 ∧
      (redisBufferWrite c).2.2.reader = c.reader ∧ (redisBufferWrite c).2.2.reads = c.reads ∧
      ((redisBufferWrite c).2.1 = false →
        (redisBufferWrite c).2.2.writes.length < c.writes.length) := by
  rw [redisBufferWrite, if_neg (by simp [h.err])]
  by_cases hobuf : c.obuf = []
  · rw [if_pos hobuf]
    exact ⟨rfl, h, rfl, rfl, fun hdone => by cases hdone⟩
  rw [if_neg hobuf]
  have hall := h.writes
  cases hwrites : c.writes with
  | nil =>
      refine ⟨rfl, ⟨h.err, fun errstr hmem => hall errstr (hwrites ▸ hmem),
        (length_wrote_le _ _).trans h.obuf⟩, rfl, rfl, fun hdone => ?_⟩
      exact absurd (wrote_all h.obuf) (of_decide_eq_false hdone)
  | cons write writes =>
      have hrest : ∀ errstr, WriteResult.failed errstr ∉ writes := fun errstr hmem =>
        hall errstr (by rw [hwrites]; exact List.mem_cons_of_mem _ hmem)
      cases write with
      | wrote nwritten =>
          exact ⟨rfl, ⟨h.err, hrest, (length_wrote_le _ _).trans h.obuf⟩, rfl, rfl,
            fun _ => Nat.lt_succ_self _⟩
      | interrupted =>
          exact ⟨rfl, ⟨h.err, hrest, h.obuf⟩, rfl, rfl, fun _ => Nat.lt_succ_self _⟩
      | failed errstr =>
          exact absurd (by rw [hwrites]; exact List.mem_cons_self) (hall errstr)

theorem writeUntilDone_writable {fuel : Nat} {c : RedisContext} (h : Writable c)
    (hfuel : c.writes.length < fuel) :
    (writeUntilDone fuel c).1 = true ∧ Writable (writeUntilDone fuel c).2 ∧
      (writeUntilDone fuel c).2.reader = c.reader ∧ (writeUntilDone fuel c).2.reads = c.reads := by
  induction fuel generalizing c with
  | zero => exact absurd hfuel (Nat.not_lt_zero _)
  | succ fuel ih =>
      obtain ⟨hok, hwritable, hreader, hreads, hshorter⟩ := redisBufferWrite_writable h
      rw [writeUntilDone]
      simp only [hok, if_true]
      cases hdone : (redisBufferWrite c).2.1 with
      | true =>
          rw [if_pos rfl]
          exact ⟨rfl, hwritable, hreader, hreads⟩
      | false =>
          rw [if_neg Bool.false_ne_true]
          obtain ⟨hok', hwritable', hreader', hreads'⟩ :=
            ih hwritable (by have := hshorter hdone; omega)
          exact ⟨hok', hwritable', hreader'.trans hreader, hreads'.trans hreads⟩

theorem writeUntilDone_live {fuel : Nat} {c : RedisContext} {s : State} {unread : List UInt8}
    (h : Live c s unread) (hfuel : c.writes.length < fuel) :
    (writeUntilDone fuel c).1 = true ∧ Live (writeUntilDone fuel c).2 s unread ∧
      (writeUntilDone fuel c).2.reads = c.reads := by
  obtain ⟨hok, hwritable, hreader, hreads⟩ := writeUntilDone_writable h.toWritable hfuel
  exact ⟨hok, ⟨hwritable, hreader ▸ h.stands, hreader ▸ h.small, hreads ▸ h.bounded⟩, hreads⟩

/-- A reader that waits has no reply to come without more bytes. -/
theorem outs_of_wait {s : State} {unread : List UInt8} (hwait : itemStep s unread = none) :
    (Reassembly.settle itemStep s (unread ++ [])).outs = [] := by
  rw [List.append_nil, Reassembly.settle_wait hwait]

/-- The end of the connection. -/
theorem answers_ended {c : RedisContext} {s : State} {unread : List UInt8} {e : RedisError}
    (hstands : Stands c.reader s unread) (hwait : itemStep s unread = none)
    (hsmall : Small c.reader) (herr : c.err = some e) :
    Answers (false, none, c) e (Reassembly.settle itemStep s (unread ++ [])).outs := by
  rw [outs_of_wait hwait]
  exact .ended ⟨herr, .inr ⟨s, unread, hstands, hwait, hsmall⟩⟩

/-- What follows from one question to the reader, when more questions follow a wait. -/
theorem answers_of_asked {c : RedisContext} {s : State} {unread : List UInt8}
    {next : RedisContext → Bool × Option RedisReply × RedisContext} (h : Live c s unread)
    (hnext : ∀ {c' : RedisContext} {s' : State} {left : List UInt8}, Live c' s' left →
      itemStep s' left = none → c'.reads = c.reads →
        Answers (next c') (ending c.reads)
          (Reassembly.settle itemStep s' (left ++ delivered c.reads)).outs) :
    Answers (if (redisGetReplyFromReader c).1 && (redisGetReplyFromReader c).2.1.isNone then
        next (redisGetReplyFromReader c).2.2 else redisGetReplyFromReader c) (ending c.reads)
      (Reassembly.settle itemStep s (unread ++ delivered c.reads)).outs := by
  have hasked := redisGetReplyFromReader_asked h
  generalize redisGetReplyFromReader c = get at hasked ⊢
  cases hpull : Reassembly.pull itemStep s unread with
  | mk s' result =>
      obtain ⟨left, out⟩ := result
      rw [settle_pull_append hpull]
      rw [hpull] at hasked
      cases hasked with
      | reply reply hlive => exact .reply reply hlive
      | error hdead => exact .error _ hdead
      -- no output so far, so everything is still to come
      | nothing hlive =>
          have hwait := (Reassembly.settle_of_pull_none steady hpull).2
          exact hnext hlive hwait rfl

/-- **Reading until there is a reply.** -/
theorem readUntilReply_answers {fuel : Nat} {c : RedisContext} {s : State} {unread : List UInt8}
    (h : Live c s unread) (hwait : itemStep s unread = none) (hfuel : c.reads.length < fuel) :
    Answers (readUntilReply fuel c) (ending c.reads)
      (Reassembly.settle itemStep s (unread ++ delivered c.reads)).outs := by
  -- on the number of results of `read`, with the bytes that have arrived so far
  induction fuel generalizing c s unread with
  | zero => exact absurd hfuel (Nat.not_lt_zero _)
  | succ fuel ih =>
      have hnone : ¬ c.err.isSome = true := by simp [h.err]
      rw [readUntilReply]
      cases hreads : c.reads with
      | nil =>
          have hread : redisBufferRead c = (false, { c with err := some .eof }) := by
            rw [redisBufferRead, if_neg hnone, hreads]
          rw [hread]
          exact answers_ended h.stands hwait h.small rfl
      | cons read reads =>
          rw [hreads, List.length_cons] at hfuel
          cases read with
          | bytes buf =>
              by_cases hbuf : buf = []
              · have hread : redisBufferRead c =
                    (false, { c with err := some .eof, reads := reads }) := by
                  rw [redisBufferRead, if_neg hnone, hreads]
                  exact if_pos hbuf
                rw [hread, ending, delivered, if_pos hbuf, if_pos hbuf]
                exact answers_ended h.stands hwait h.small rfl
              · obtain ⟨hfed, hstands⟩ := redisReaderFeed_stands h.stands buf
                have hread : redisBufferRead c = (true,
                    { c with reader := (redisReaderFeed c.reader buf).2, reads := reads }) := by
                  rw [redisBufferRead, if_neg hnone, hreads]
                  simp only [if_neg hbuf, hfed, if_true]
                rw [hread, ending, delivered, if_neg hbuf, if_neg hbuf, ← List.append_assoc]
                have hbounded := h.bounded
                rw [hreads] at hbounded
                exact @answers_of_asked _ _ _ (readUntilReply fuel)
                  ⟨⟨h.err, h.writes, h.obuf⟩, hstands,
                    small_redisReaderFeed h.small h.stands hwait hbounded, hbounded.read hbuf⟩
                  fun hlive hwait' hsame => by
                    rw [← hsame]
                    exact ih hlive hwait' (by rw [hsame]; show reads.length < fuel; omega)
          | interrupted =>
              have hread : redisBufferRead c = (true, { c with reads := reads }) := by
                rw [redisBufferRead, if_neg hnone, hreads]
              rw [hread, ending, delivered]
              have hbounded := h.bounded
              rw [hreads] at hbounded
              exact @answers_of_asked _ _ _ (readUntilReply fuel)
                ⟨⟨h.err, h.writes, h.obuf⟩, h.stands, h.small, hbounded.interrupted⟩
                fun hlive hwait' hsame => by
                  rw [← hsame]
                  exact ih hlive hwait' (by rw [hsame]; show reads.length < fuel; omega)
          | failed errstr =>
              have hread : redisBufferRead c =
                  (false, { c with err := some (.io errstr), reads := reads }) := by
                rw [redisBufferRead, if_neg hnone, hreads]
              rw [hread, ending, delivered]
              exact answers_ended h.stands hwait h.small rfl

/-- **A call returns the next reply or error of the bytes that arrive.** -/
theorem redisGetReply_answers {c : RedisContext} {s : State} {unread : List UInt8}
    (h : Live c s unread) :
    Answers (redisGetReply c) (ending c.reads)
      (Reassembly.settle itemStep s (unread ++ delivered c.reads)).outs := by
  have hall := @answers_of_asked c s unread (fun c' =>
    if (writeUntilDone (c'.writes.length + 1) c').1 then
      readUntilReply ((writeUntilDone (c'.writes.length + 1) c').2.reads.length + 1)
        (writeUntilDone (c'.writes.length + 1) c').2
    else (false, none, (writeUntilDone (c'.writes.length + 1) c').2)) h
    fun hlive hwait hsame => by
      obtain ⟨hok, hflushed, hreads⟩ := writeUntilDone_live hlive (Nat.lt_succ_self _)
      rw [if_pos hok, ← hsame, ← hreads]
      exact readUntilReply_answers hflushed hwait (Nat.lt_succ_self _)
  exact hall

/-- Nothing is got behind an error. -/
theorem redisGetReply_dead {c : RedisContext} {e : RedisError} (h : Dead c e) :
    ∃ c', redisGetReply c = (false, none, c') ∧ Dead c' e := by
  obtain ⟨herr, ⟨errstr, hreader, rfl⟩ | ⟨s, unread, hstands, hwait, hsmall⟩⟩ := h
  -- a protocol error stays in the reader
  · have hget : redisReaderGetReply c.reader = (false, none, c.reader) := by
      rw [redisReaderGetReply, if_pos (by simp [hreader])]
    have hfrom : redisGetReplyFromReader c =
        (false, none, { c with err := some (.protocol errstr) }) := by
      simp [redisGetReplyFromReader, hget, hreader]
    refine ⟨{ c with err := some (.protocol errstr) }, ?_, rfl, .inl ⟨errstr, hreader, rfl⟩⟩
    rw [redisGetReply, hfrom]
    rfl
  -- another one stays in the context, whose writes fail then
  · have hgets := redisReaderGetReply_pull hstands hsmall.fits
    have hsmall' := redisReaderGetReply_small hsmall
    rw [Reassembly.pull_wait hwait] at hgets
    generalize hget : redisReaderGetReply c.reader = get at hgets hsmall'
    cases hgets with
    | nothing hstands' =>
        rename_i r
        have hfrom : redisGetReplyFromReader c = (true, none, { c with reader := r }) := by
          simp [redisGetReplyFromReader, hget]
        have hwrite : redisBufferWrite { c with reader := r } =
            (false, false, { c with reader := r }) := by
          rw [redisBufferWrite, if_pos (by simp [herr])]
        have hflush : writeUntilDone (c.writes.length + 1) { c with reader := r } =
            (false, { c with reader := r }) := by
          rw [writeUntilDone, hwrite]
          rfl
        refine ⟨{ c with reader := r }, ?_, herr, .inr ⟨s, unread, hstands', hwait, hsmall' rfl⟩⟩
        rw [redisGetReply, hfrom]
        simp only [Option.isNone_none, Bool.and_self, if_true, hflush]
        rfl

theorem getReplies_dead {n : Nat} {c : RedisContext} {e : RedisError} (h : Dead c e) :
    getReplies n c = List.replicate n (none, some e) := by
  induction n generalizing c with
  | zero => rfl
  | succ n ih =>
      obtain ⟨c', hget, hdead⟩ := redisGetReply_dead h
      rw [getReplies, hget, ih hdead, hdead.err]
      rfl

theorem expected_nil (last : RedisError) (n : Nat) :
    expected last [] n = List.replicate n (none, some last) := by
  induction n with
  | zero => rfl
  | succ n ih =>
      rw [expected, ih]
      rfl

/-- The calls return the replies of the bytes that arrive, then their error. -/
theorem getReplies_live {c : RedisContext} {s : State} {unread : List UInt8}
    (h : Live c s unread) (n : Nat) :
    getReplies n c = expected (ending c.reads)
      (Reassembly.settle itemStep s (unread ++ delivered c.reads)).outs n := by
  induction n generalizing c s unread with
  | zero =>
      rw [getReplies]
      generalize (Reassembly.settle itemStep s (unread ++ delivered c.reads)).outs = outs
      cases outs with
      | nil => rfl
      | cons out outs => cases out <;> rfl
  | succ n ih =>
      have hanswers := redisGetReply_answers h
      rw [getReplies]
      generalize redisGetReply c = get at hanswers ⊢
      generalize hlast : ending c.reads = last at hanswers ⊢
      generalize (Reassembly.settle itemStep s (unread ++ delivered c.reads)).outs = outs
        at hanswers ⊢
      cases hanswers with
      | reply reply hlive =>
          rw [expected, ih hlive, hlive.err]
      | error outs hdead =>
          rw [expected, getReplies_dead hdead, hdead.err]
          rfl
      | ended hdead =>
          rw [expected, expected_nil, getReplies_dead hdead, hdead.err]

/-! ## From the start of a connection -/

/-- A context that has just connected. -/
def RedisContext.connected (reads : List ReadResult) (writes : List WriteResult) : RedisContext :=
  ⟨none, [], .create, reads, writes, []⟩

theorem live_of_create {c : RedisContext} (h : Writable c) (hreader : c.reader = .create)
    (hbounded : Bounded idle [] c.reads) : Live c idle [] := by
  refine ⟨h, ?_, ?_, hbounded⟩
  · rw [hreader]
    exact @Stands.idle .create rfl rfl le_rfl rfl
  · rw [hreader]
    exact ⟨by decide, by decide⟩

/-- **How the bytes of the server arrive does not matter**: any number of calls return the replies
of these bytes in order, and behind the last one always the same error. -/
theorem getReplies_eq {obuf : List UInt8} {reads : List ReadResult} {writes : List WriteResult}
    (hwrites : ∀ errstr, WriteResult.failed errstr ∉ writes) (hobuf : obuf.length ≤ 2147483647)
    (hbounded : Bounded idle [] reads) (n : Nat) :
    getReplies n ⟨none, obuf, .create, reads, writes, []⟩ = expected (ending reads)
      (Reassembly.settle itemStep idle (delivered reads)).outs n :=
  getReplies_live (@live_of_create ⟨none, obuf, .create, reads, writes, []⟩
    ⟨rfl, hwrites, hobuf⟩ rfl hbounded) n

/-- Few bytes are within the bounds. -/
theorem bounded_of_short {reads : List ReadResult} (hpieces : Pieces reads)
    (hshort : (delivered reads).length ≤ 2147466240) : Bounded idle [] reads := by
  refine ⟨hpieces, fun front hfront => ?_⟩
  exact (Reassembly.length_rest_settle_le steady _ _).trans (hfront.length_le.trans hshort)

theorem getReplies_eq_status :
    getReplies 2 ⟨none, [], .create, [.bytes [43], .interrupted, .bytes [79, 75, 13, 10]],
        [.wrote 3], []⟩ =
      expected .eof (Reassembly.settle itemStep idle [43, 79, 75, 13, 10]).outs 2 :=
  getReplies_eq (by simp) (by decide) (bounded_of_short (by simp [Pieces]) (by decide)) 2

/-! ## What is written -/

/-- What was written and what is to be written. -/
def RedisContext.sent (c : RedisContext) : List UInt8 := c.written ++ c.obuf

theorem sent_wrote {c : RedisContext} (hobuf : c.obuf.length ≤ 2147483647) (nwritten : Nat) :
    (c.wrote nwritten).sent = c.sent := by
  rw [RedisContext.sent, RedisContext.wrote]
  dsimp only
  rw [unwritten_eq_drop hobuf, List.append_assoc, List.take_append_drop, RedisContext.sent]

/-- A `write` loses nothing as long as its result is an `int`. -/
theorem redisBufferWrite_sent {c : RedisContext} (hobuf : c.obuf.length ≤ 2147483647) :
    (redisBufferWrite c).2.2.sent = c.sent ∧
      (redisBufferWrite c).2.2.obuf.length ≤ c.obuf.length := by
  rw [redisBufferWrite]
  split_ifs
  · exact ⟨rfl, le_rfl⟩
  · exact ⟨rfl, le_rfl⟩
  · cases c.writes with
    | nil => exact ⟨sent_wrote hobuf _, length_wrote_le c _⟩
    | cons write writes =>
        cases write with
        | wrote nwritten => exact ⟨sent_wrote hobuf nwritten, length_wrote_le c nwritten⟩
        | interrupted => exact ⟨rfl, le_rfl⟩
        | failed errstr => exact ⟨rfl, le_rfl⟩

theorem sent_writeUntilDone (fuel : Nat) {c : RedisContext} (hobuf : c.obuf.length ≤ 2147483647) :
    (writeUntilDone fuel c).2.sent = c.sent := by
  induction fuel generalizing c with
  | zero => rfl
  | succ fuel ih =>
      obtain ⟨hsent, hle⟩ := redisBufferWrite_sent hobuf
      rw [writeUntilDone]
      split_ifs
      · exact hsent
      · exact (ih (hle.trans hobuf)).trans hsent
      · exact hsent

theorem sent_redisBufferRead (c : RedisContext) : (redisBufferRead c).2.sent = c.sent := by
  rw [redisBufferRead]
  split_ifs
  · rfl
  · cases c.reads with
    | nil => rfl
    | cons read reads =>
        cases read with
        | bytes buf =>
            dsimp only
            split_ifs <;> rfl
        | interrupted => rfl
        | failed errstr => rfl

theorem redisGetReplyFromReader_output (c : RedisContext) :
    (redisGetReplyFromReader c).2.2.written = c.written ∧
      (redisGetReplyFromReader c).2.2.obuf = c.obuf := by
  rw [redisGetReplyFromReader]
  split_ifs <;> exact ⟨rfl, rfl⟩

theorem sent_redisGetReplyFromReader (c : RedisContext) :
    (redisGetReplyFromReader c).2.2.sent = c.sent := by
  obtain ⟨hwritten, hobuf⟩ := redisGetReplyFromReader_output c
  rw [RedisContext.sent, hwritten, hobuf, RedisContext.sent]

theorem sent_readUntilReply (fuel : Nat) (c : RedisContext) :
    (readUntilReply fuel c).2.2.sent = c.sent := by
  induction fuel generalizing c with
  | zero => rfl
  | succ fuel ih =>
      have hget := (sent_redisGetReplyFromReader (redisBufferRead c).2).trans
        (sent_redisBufferRead c)
      rw [readUntilReply]
      dsimp only
      split_ifs
      · exact (ih _).trans hget
      · exact hget
      · exact sent_redisBufferRead c

/-- A call loses no byte that was appended, and writes none twice or out of order. -/
theorem sent_redisGetReply {c : RedisContext} (hobuf : c.obuf.length ≤ 2147483647) :
    (redisGetReply c).2.2.sent = c.sent := by
  have hget := sent_redisGetReplyFromReader c
  have hflush := (sent_writeUntilDone ((redisGetReplyFromReader c).2.2.writes.length + 1)
    ((redisGetReplyFromReader_output c).2.symm ▸ hobuf)).trans hget
  rw [redisGetReply]
  dsimp only
  split_ifs
  · exact (sent_readUntilReply _ _).trans hflush
  · exact hflush
  · exact hget

end Read
end Redis
end TcMuzi
