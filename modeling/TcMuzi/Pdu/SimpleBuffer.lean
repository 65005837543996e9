import TcMuzi.Pdu.ByteStream

/-!
# The memory of a `CSimpleBuffer`

`ByteStream` keeps a `CSimpleBuffer` as the bytes in front of `write_offset_`.  Here is the
block that `realloc` gives, with the copies that `Write` and `Read` make in it; a byte of the
block that nothing was written to has no value.

* `Represents` relates the block to the bytes, and every call keeps it.
* On top, a `CSimpleBuffer` is a queue of bytes, as long as `alloc_size_` does not wrap.
-/

namespace TcMuzi
namespace Pdu
namespace Memory

/-! ## Blocks -/

/-- A block of memory. -/
@[reducible] def Block : Type := List (Option UInt8)

/-- What `realloc` returns: a larger block is not initialised behind the old bytes. -/
def realloc (block : Block) (size : Nat) : Block :=
  block.take size ++ List.replicate (size - block.length) none

/-- The source of a copy. -/
def load (block : Block) (pos len : Nat) : Except Fault Block :=
  if pos + len ≤ block.length then .ok ((block.drop pos).take len) else .error .outside

/-- The block with some of its bytes replaced. -/
def overwrite (block : Block) (pos : Nat) (data : Block) : Block :=
  block.take pos ++ data ++ block.drop (pos + data.length)

/-- `memcpy` and `memmove` of `len` bytes from the position `start` of `src` to the position
`pos` of `dest`. -/
def copy (dest : Block) (pos : Nat) (src : Block) (start len : Nat) : Except Fault Block := do
  let data ← load src start len
  if pos + len ≤ dest.length then .ok (overwrite dest pos data) else .error .outside

section Blocks

variable {block data : Block} {pos len size n : Nat}

@[simp] theorem length_realloc (block : Block) (size : Nat) :
    (realloc block size).length = size := by
  rw [realloc, List.length_append, List.length_take, List.length_replicate]
  omega

/-- The old bytes stay as far as both blocks reach. -/
theorem take_realloc (hsize : n ≤ size) (hlen : n ≤ block.length) :
    (realloc block size).take n = block.take n := by
  have hn : n ≤ (block.take size).length := by
    rw [List.length_take]
    omega
  rw [realloc, List.take_append_of_le_length hn, List.take_take, Nat.min_eq_left hsize]

theorem load_eq (h : pos + len ≤ block.length) :
    load block pos len = .ok ((block.drop pos).take len) := if_pos h

/-- A copy inside both blocks. -/
theorem copy_eq {dest src : Block} {start : Nat} (hsrc : start + len ≤ src.length)
    (hdest : pos + len ≤ dest.length) :
    copy dest pos src start len = .ok (overwrite dest pos ((src.drop start).take len)) := by
  rw [copy, load_eq hsrc]
  exact if_pos hdest

/-- What is in front of the end of the bytes that were replaced. -/
theorem take_overwrite (h : pos + data.length ≤ block.length) :
    (overwrite block pos data).take (pos + data.length) = block.take pos ++ data := by
  have hlen : (block.take pos ++ data).length = pos + data.length := by
    rw [List.length_append, List.length_take]
    omega
  rw [overwrite, ← hlen, List.take_left]

theorem length_overwrite (h : pos + data.length ≤ block.length) :
    (overwrite block pos data).length = block.length := by
  rw [overwrite, List.length_append, List.length_append, List.length_take, List.length_drop]
  omega

end Blocks

/-! ## The calls -/

/-- `buf_`, `alloc_size_` and `write_offset_`. -/
structure CSimpleBuffer where
  buf : Block
  allocSize : Nat
  writeOffset : Nat
deriving DecidableEq

namespace CSimpleBuffer

/-- The constructor. -/
def new : CSimpleBuffer := ⟨[], 0, 0⟩

/-- `Extend`. -/
def extend (s : CSimpleBuffer) (len : Nat) : CSimpleBuffer :=
  let allocSize := add32 s.writeOffset len
  let allocSize := add32 allocSize (allocSize / 4)
  { s with buf := realloc s.buf allocSize, allocSize := allocSize }

/-- `Write`; without data it only moves the offset. -/
def write (s : CSimpleBuffer) (buf : Option (List UInt8)) (len : Nat) :
    Except Fault (Nat × CSimpleBuffer) := do
  let s := if s.allocSize < add32 s.writeOffset len then s.extend len else s
  -- `memcpy`, of all bytes or of none
  let block ← match buf with
    | some data => copy s.buf s.writeOffset (data.map some) 0 len
    | none => .ok s.buf
  return (len, { s with buf := block, writeOffset := add32 s.writeOffset len })

/-- `Read`: what it returns, and the bytes that it copies unless its caller has no buffer for
them. -/
def read (s : CSimpleBuffer) (wanted : Bool) (len : Nat) :
    Except Fault (Nat × Block × CSimpleBuffer) :=
  if len = 0 then .ok (len, [], s)
  else do
    let len := if s.writeOffset < len then s.writeOffset else len
    let copied ← if wanted then load s.buf 0 len else .ok []
    let writeOffset := s.writeOffset - len
    let block ← copy s.buf 0 s.buf len writeOffset
    return (len, copied, { s with buf := block, writeOffset := writeOffset })

/-- What is in the buffer. -/
def content (s : CSimpleBuffer) : Block := s.buf.take s.writeOffset

/-- The block has the size that the buffer counts on, and its front holds the bytes. -/
structure Represents (s : CSimpleBuffer) (b : Pdu.CSimpleBuffer) : Prop where
  size : s.buf.length = s.allocSize
  alloc : s.allocSize = b.allocSize
  bound : b.allocSize < 4294967296
  offset : s.writeOffset = b.bytes.length
  content : s.content = b.bytes.map some

theorem new_represents : new.Represents .new := ⟨rfl, rfl, by decide, rfl, rfl⟩

namespace Represents

variable {s : CSimpleBuffer} {b b' : Pdu.CSimpleBuffer} {data : List UInt8} {len : Nat}

/-- The offset stays inside the block. -/
theorem offset_le (h : s.Represents b) : s.writeOffset ≤ s.buf.length := by
  have hlen := congrArg List.length h.content
  rw [CSimpleBuffer.content, List.length_take, List.length_map, ← h.offset] at hlen
  omega

/-- `Extend` keeps the bytes for which there is room. -/
theorem extend (h : s.Represents b) (hroom : b.bytes.length ≤ (b.extend len).allocSize) :
    (s.extend len).Represents (b.extend len) := by
  have halloc : (s.extend len).allocSize = (b.extend len).allocSize := by
    show add32 (add32 s.writeOffset len) _ = add32 (add32 b.bytes.length len) _
    rw [h.offset]
  have hroom' : s.writeOffset ≤ (s.extend len).allocSize := by
    rwa [halloc, h.offset]
  constructor
  · exact length_realloc s.buf _
  · exact halloc
  · exact Nat.mod_lt _ (by decide)
  · exact h.offset
  · have hcontent := h.content
    rw [CSimpleBuffer.content, ← take_realloc hroom' h.offset_le] at hcontent
    exact hcontent

/-- The block that a `Write` copies to. -/
theorem grow (h : s.Represents b) {grown : Pdu.CSimpleBuffer}
    (hroom : grown.bytes.length ≤ grown.allocSize)
    (hgrown : grown = if b.allocSize < add32 b.bytes.length len then b.extend len else b) :
    (if s.allocSize < add32 s.writeOffset len then s.extend len else s).Represents grown := by
  rw [h.alloc, h.offset]
  by_cases hsmall : b.allocSize < add32 b.bytes.length len
  · rw [if_pos hsmall] at hgrown ⊢
    rw [hgrown] at hroom ⊢
    exact h.extend hroom
  · rw [if_neg hsmall] at hgrown ⊢
    rwa [hgrown]

/-- The copy of a `Write`, into a block with room. -/
theorem append (h : s.Represents b) (hroom : b.bytes.length + data.length ≤ b.allocSize) :
    copy s.buf s.writeOffset (data.map some) 0 data.length =
        .ok (overwrite s.buf s.writeOffset (data.map some)) ∧
      CSimpleBuffer.Represents ⟨overwrite s.buf s.writeOffset (data.map some), s.allocSize,
        add32 s.writeOffset data.length⟩ ⟨b.bytes ++ data, b.allocSize⟩ := by
  have hmap : (data.map some).length = data.length := List.length_map _
  have hfit : s.writeOffset + data.length ≤ s.buf.length := by
    rwa [h.size, h.alloc, h.offset]
  have hoffset : add32 s.writeOffset data.length = s.writeOffset + data.length := by
    have hbound := h.bound
    rw [h.offset]
    exact add32_eq (by omega)
  constructor
  · rw [copy_eq (by omega) hfit, List.drop_zero, ← hmap, List.take_length]
  rw [← hmap] at hfit
  constructor
  · rw [← h.size]
    exact length_overwrite hfit
  · exact h.alloc
  · exact h.bound
  · rw [hoffset, h.offset, List.length_append]
  · rw [CSimpleBuffer.content, hoffset, ← hmap, take_overwrite hfit, List.map_append, ← h.content,
      CSimpleBuffer.content]

/-- `Write` puts the bytes behind those that are there. -/
theorem write (h : s.Represents b) (hwrite : b.write data = .ok b') :
    ∃ s', s.write (some data) data.length = .ok (data.length, s') ∧ s'.Represents b' := by
  rw [Pdu.CSimpleBuffer.write] at hwrite
  obtain ⟨grown, hgrown⟩ : ∃ grown, grown =
      if b.allocSize < add32 b.bytes.length data.length then b.extend data.length else b := ⟨_, rfl⟩
  rw [← hgrown] at hwrite
  by_cases hroom : grown.bytes.length + data.length ≤ grown.allocSize
  · simp only [if_pos hroom, Except.ok.injEq] at hwrite
    obtain ⟨hcopy, hrep⟩ := (h.grow (Nat.le_of_add_right_le hroom) hgrown).append hroom
    refine ⟨_, ?_, hwrite ▸ hrep⟩
    rw [CSimpleBuffer.write]
    simp only [hcopy]
    rfl
  · simp [hroom] at hwrite

/-- The copies of a `Read`: the front goes out, and the rest moves to the front. -/
theorem shift (h : s.Represents b) (hlen : len ≤ b.bytes.length) :
    load s.buf 0 len = .ok ((b.bytes.take len).map some) ∧
      copy s.buf 0 s.buf len (s.writeOffset - len) =
        .ok (overwrite s.buf 0 ((b.bytes.drop len).map some)) ∧
      CSimpleBuffer.Represents ⟨overwrite s.buf 0 ((b.bytes.drop len).map some), s.allocSize,
        s.writeOffset - len⟩ ⟨b.bytes.drop len, b.allocSize⟩ := by
  have hcontent := h.content
  have hoffset := h.offset
  have hle := h.offset_le
  rw [CSimpleBuffer.content] at hcontent
  have hrest : (s.buf.drop len).take (s.writeOffset - len) = (b.bytes.drop len).map some := by
    rw [← List.drop_take, hcontent, List.map_drop]
  have hlength : ((b.bytes.drop len).map some).length = s.writeOffset - len := by
    rw [List.length_map, List.length_drop, hoffset]
  have hfit : 0 + ((b.bytes.drop len).map some).length ≤ s.buf.length := by
    omega
  refine ⟨?_, ?_, ?_⟩
  · rw [load_eq (by omega), List.drop_zero, List.map_take, ← hcontent, List.take_take,
      Nat.min_eq_left (by omega)]
  · rw [copy_eq (by omega) (by omega), hrest]
  · constructor
    · rw [← h.size]
      exact length_overwrite hfit
    · exact h.alloc
    · exact h.bound
    · rw [hoffset, List.length_drop]
    · have htake := take_overwrite hfit
      rw [Nat.zero_add, hlength] at htake
      exact htake

/-- `Read` takes bytes from the front. -/
theorem read (h : s.Represents b) (len : Nat) :
    ∃ s', s.read true len = .ok (min len b.bytes.length, (b.read len).1.map some, s') ∧
      s'.Represents (b.read len).2 := by
  rw [CSimpleBuffer.read]
  by_cases hzero : len = 0
  · subst hzero
    exact ⟨s, by rw [if_pos rfl, Nat.zero_min]; rfl, h⟩
  rw [if_neg hzero]
  by_cases hshort : s.writeOffset < len
  · -- all that there is goes out
    have hlen : b.bytes.length ≤ len := by
      rw [← h.offset]
      omega
    obtain ⟨hload, hcopy, hrep⟩ := h.shift (Nat.le_refl _)
    rw [← h.offset] at hload hcopy hrep
    rw [Pdu.CSimpleBuffer.read, Nat.min_eq_right hlen, List.take_of_length_le hlen,
      List.drop_of_length_le hlen, if_pos hshort]
    rw [h.offset, List.take_length] at hload
    rw [h.offset, List.drop_length] at hcopy hrep
    rw [h.offset]
    refine ⟨_, ?_, hrep⟩
    simp only [if_true, hload, hcopy]
    rfl
  · have hlen : len ≤ b.bytes.length := by
      rw [← h.offset]
      omega
    obtain ⟨hload, hcopy, hrep⟩ := h.shift hlen
    rw [Pdu.CSimpleBuffer.read, Nat.min_eq_left hlen, if_neg hshort]
    refine ⟨_, ?_, hrep⟩
    simp only [if_true, hload, hcopy]
    rfl

end Represents

end CSimpleBuffer

/-! ## The queue -/

/-- A `Write` with data, or a `Read` into a buffer. -/
inductive Op
  | write (data : List UInt8)
  | read (len : Nat)

/-- What a call returns, and the bytes that it copies out. -/
structure Reply where
  ret : Nat
  copied : Block
deriving DecidableEq

namespace Op

/-- The call. -/
def call (s : CSimpleBuffer) : Op → Except Fault (Reply × CSimpleBuffer)
  | .write data => do
      let (ret, s) ← s.write (some data) data.length
      return (⟨ret, []⟩, s)
  | .read len => do
      let (ret, copied, s) ← s.read true len
      return (⟨ret, copied⟩, s)

def written : Op → List UInt8
  | .write data => data
  | .read _ => []

/-- What a queue of bytes has after the call. -/
def unread (queue : List UInt8) : Op → List UInt8
  | .write data => queue ++ data
  | .read len => queue.drop len

/-- What a queue of bytes answers. -/
def reply (queue : List UInt8) : Op → Reply
  | .write data => ⟨data.length, []⟩
  | .read len => ⟨min len queue.length, (queue.take len).map some⟩

end Op

/-- The calls in their order, as long as none of them faults. -/
def run (s : CSimpleBuffer) : List Op → Except Fault (List Reply × CSimpleBuffer)
  | [] => .ok ([], s)
  | op :: ops => do
      let (reply, s) ← op.call s
      let (replies, s) ← run s ops
      return (reply :: replies, s)

/-- What the calls leave in a queue of bytes. -/
def unread (queue : List UInt8) (ops : List Op) : List UInt8 := ops.foldl Op.unread queue

/-- What a queue of bytes answers the calls. -/
def replies (queue : List UInt8) : List Op → List Reply
  | [] => []
  | op :: ops => op.reply queue :: replies (op.unread queue) ops

section Queue

variable {s : CSimpleBuffer} {b : Pdu.CSimpleBuffer} {queue : List UInt8}

/-- Nothing is lost, and nothing is read twice. -/
theorem copied_append_unread (queue : List UInt8) (ops : List Op) :
    (replies queue ops).flatMap Reply.copied ++ (unread queue ops).map some =
      (queue ++ ops.flatMap Op.written).map some := by
  induction ops generalizing queue with
  | nil => rw [List.flatMap_nil, List.append_nil]; rfl
  | cons op ops ih =>
      rw [replies, List.flatMap_cons, List.flatMap_cons, unread, List.foldl_cons, ← unread,
        List.append_assoc, ih]
      cases op with
      | write data =>
          show [] ++ (queue ++ data ++ _).map some = (queue ++ (data ++ _)).map some
          rw [List.nil_append, List.append_assoc]
      | read len =>
          show (queue.take len).map some ++ (queue.drop len ++ _).map some =
            (queue ++ ([] ++ _)).map some
          rw [← List.map_append, ← List.append_assoc, List.take_append_drop, List.nil_append]

/-- The answer to the call at a position. -/
theorem replies_getElem? {ops : List Op} {k : Nat} {op : Op} (h : ops[k]? = some op) :
    (replies queue ops)[k]? = some (op.reply (unread queue (ops.take k))) := by
  induction ops generalizing queue k with
  | nil => simp at h
  | cons op' ops ih =>
      cases k with
      | zero =>
          obtain rfl : op' = op := by simpa using h
          rfl
      | succ k => exact ih (by simpa using h)

/-- With less than 2^31 bytes the size of the block does not wrap. -/
theorem write_eq_ok {data : List UInt8} (h : b.bytes.length + data.length < 2147483648) :
    ∃ allocSize, b.write data = .ok ⟨b.bytes ++ data, allocSize⟩ := by
  have hadd : add32 b.bytes.length data.length = b.bytes.length + data.length :=
    add32_eq (by omega)
  rw [Pdu.CSimpleBuffer.write]
  by_cases hsmall : b.allocSize < add32 b.bytes.length data.length
  · -- a quarter more than 2^31 is still below 2^32
    have hsize : (b.extend data.length).allocSize =
        b.bytes.length + data.length + (b.bytes.length + data.length) / 4 := by
      show add32 (add32 _ _) _ = _
      rw [hadd]
      exact add32_eq (by omega)
    have hbytes : (b.extend data.length).bytes = b.bytes := rfl
    simp only [if_pos hsmall, hbytes, hsize]
    rw [if_pos (by omega)]
    exact ⟨_, rfl⟩
  · simp only [if_neg hsmall]
    rw [if_pos (by omega)]
    exact ⟨_, rfl⟩

/-- A call does to the block what it does to the queue. -/
theorem call_represents {op : Op} (h : s.Represents b)
    (hsmall : (op.unread b.bytes).length < 2147483648) :
    ∃ s' b', op.call s = .ok (op.reply b.bytes, s') ∧ s'.Represents b' ∧
      b'.bytes = op.unread b.bytes := by
  cases op with
  | write data =>
      rw [Op.unread, List.length_append] at hsmall
      obtain ⟨allocSize, hwrite⟩ := write_eq_ok hsmall
      obtain ⟨s', hcall, hrep⟩ := h.write hwrite
      exact ⟨s', _, by rw [Op.call, hcall]; rfl, hrep, rfl⟩
  | read len =>
      obtain ⟨s', hcall, hrep⟩ := h.read len
      exact ⟨s', _, by rw [Op.call, hcall]; rfl, hrep, rfl⟩

/-- So do all calls, as long as the queue is small. -/
theorem run_represents {ops : List Op} (h : s.Represents b)
    (hsmall : ∀ k, (unread b.bytes (ops.take k)).length < 2147483648) :
    ∃ s' b', run s ops = .ok (replies b.bytes ops, s') ∧ s'.Represents b' ∧
      b'.bytes = unread b.bytes ops := by
  induction ops generalizing s b with
  | nil => exact ⟨s, b, rfl, h, rfl⟩
  | cons op ops ih =>
      obtain ⟨s', b', hcall, hrep, hbytes⟩ := call_represents h (hsmall 1)
      obtain ⟨s'', b'', hrun, hrep', hbytes'⟩ := ih hrep fun k => by
        rw [hbytes]
        exact hsmall (k + 1)
      rw [hbytes] at hrun hbytes'
      refine ⟨s'', b'', ?_, hrep', hbytes'⟩
      rw [run, hcall]
      show (run s' ops >>= fun out => Except.ok (op.reply b.bytes :: out.1, out.2)) = _
      rw [hrun]
      rfl

end Queue

/-- A `CSimpleBuffer` is a queue of bytes, as long as less than 2^31 are unread. -/
theorem run_isQueue {ops : List Op}
    (hsmall : ∀ k, (unread [] (ops.take k)).length < 2147483648) :
    ∃ (outcome : List Reply) (s : CSimpleBuffer), run .new ops = .ok (outcome, s) ∧
      outcome.flatMap Reply.copied ++ s.content = (ops.flatMap Op.written).map some ∧
      s.content = (unread [] ops).map some ∧
      (∀ k len : Nat, ops[k]? = some (Op.read len) →
        outcome[k]? = some ⟨min len (unread [] (ops.take k)).length,
          ((unread [] (ops.take k)).take len).map some⟩) ∧
      s.writeOffset ≤ s.allocSize := by
  obtain ⟨s, b, hrun, hrep, hbytes⟩ := run_represents CSimpleBuffer.new_represents hsmall
  have hcontent : s.content = (unread [] ops).map some := by
    rw [hrep.content, hbytes]
    rfl
  refine ⟨_, s, hrun, ?_, hcontent, ?_, ?_⟩
  · rw [hcontent]
    exact copied_append_unread [] ops
  · intro k len hop
    exact replies_getElem? hop
  · rw [← hrep.size]
    exact hrep.offset_le

/-- Two writes, and reads that take a part and ask for too much. -/
def parts : List Op := [.write [1, 2, 3], .read 2, .write [4], .read 9]

theorem run_isQueue_parts :
    ∃ (outcome : List Reply) (s : CSimpleBuffer), run .new parts = .ok (outcome, s) ∧
      outcome.flatMap Reply.copied ++ s.content = (parts.flatMap Op.written).map some ∧
      s.content = (unread [] parts).map some ∧
      (∀ k len : Nat, parts[k]? = some (Op.read len) →
        outcome[k]? = some ⟨min len (unread [] (parts.take k)).length,
          ((unread [] (parts.take k)).take len).map some⟩) ∧
      s.writeOffset ≤ s.allocSize := by
  refine run_isQueue fun k => ?_
  rcases k with _ | _ | _ | _ | k
  · decide
  · decide
  · decide
  · decide
  · have hall : parts.take (k + 4) = parts := List.take_of_length_le (Nat.le_add_left 4 k)
    rw [hall]
    decide

end Memory
end Pdu
end TcMuzi
