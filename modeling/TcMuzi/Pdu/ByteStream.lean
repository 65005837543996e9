import TcMuzi.Base.CString
import TcMuzi.Lib.BigEndian

/-!
# `CByteStream`

The streams of `util_pdu.cc`, over a fixed buffer or a `CSimpleBuffer`.  Positions, lengths
and sizes are of type `uint32_t`, so their sums are taken modulo 2^32.
-/

namespace TcMuzi
namespace Pdu

open Base Lib

/-! ## Faults -/

structure CPduException where
  serviceId : Nat
  commandId : Nat
  errorCode : Nat
  errorMsg : CString
deriving DecidableEq

def errorCodeParseFailed : Nat := 1

/-- The exception that the streams throw. -/
def parseFailed : CPduException where
  serviceId := 0
  commandId := 0
  errorCode := errorCodeParseFailed
  errorMsg := CString.lit "parase packet failed!"

/-- What an operation does instead of returning: it throws, copies bytes that are not in the
buffer, or leaves a part of its result unwritten. -/
inductive Fault
  | exception (e : CPduException)
  | outside
  | unwritten
deriving DecidableEq

/-- The sum of two `uint32_t`. -/
def add32 (m n : Nat) : Nat := (m + n) % 4294967296

theorem add32_eq {m n : Nat} (h : m + n < 4294967296) : add32 m n = m + n := Nat.mod_eq_of_lt h

/-! ## `CSimpleBuffer` -/

/-- The bytes up to `write_offset_`, and `alloc_size_`. -/
structure CSimpleBuffer where
  bytes : List UInt8
  allocSize : Nat

namespace CSimpleBuffer

/-- The constructor. -/
def new : CSimpleBuffer := ⟨[], 0⟩

/-- `Extend`; `realloc` has the memory. -/
def extend (buf : CSimpleBuffer) (len : Nat) : CSimpleBuffer :=
  let allocSize := add32 buf.bytes.length len
  { buf with allocSize := add32 allocSize (allocSize / 4) }

def write (buf : CSimpleBuffer) (data : List UInt8) : Except Fault CSimpleBuffer :=
  let buf := if buf.allocSize < add32 buf.bytes.length data.length then buf.extend data.length
    else buf
  if buf.bytes.length + data.length ≤ buf.allocSize then
    .ok { buf with bytes := buf.bytes ++ data }
  else .error .outside

/-- `Read`: the bytes that it copies. -/
def read (buf : CSimpleBuffer) (len : Nat) : List UInt8 × CSimpleBuffer :=
  (buf.bytes.take len, { buf with bytes := buf.bytes.drop len })

end CSimpleBuffer

/-! ## The streams -/

/-- `buf_` or `simple_buf_`, whichever is not NULL. -/
inductive Backing
  | fixed (buf : List UInt8)
  | simple (buf : CSimpleBuffer)

/-- The bytes behind `GetBuf()`. -/
def Backing.memory : Backing → List UInt8
  | .fixed buf => buf
  | .simple buf => buf.bytes

structure CByteStream where
  backing : Backing
  len : Nat
  pos : Nat

/-- The memory of a fixed buffer with some of its bytes overwritten. -/
def splice (buf : List UInt8) (pos : Nat) (data : List UInt8) : List UInt8 :=
  buf.take pos ++ data ++ buf.drop (pos + data.length)

/-- The types of the shift operators. -/
inductive IntType
  | int8
  | uint8
  | int16
  | uint16
  | int32
  | uint32
deriving DecidableEq

namespace IntType

def width : IntType → Nat
  | .int8 => 1
  | .uint8 => 1
  | .int16 => 2
  | .uint16 => 2
  | .int32 => 4
  | .uint32 => 4

@[reducible] def Data : IntType → Type
  | .int8 => Int8
  | .uint8 => UInt8
  | .int16 => Int16
  | .uint16 => UInt16
  | .int32 => Int32
  | .uint32 => UInt32

/-- The value that the shifts of `operator<<` start from. -/
def toInt : (t : IntType) → t.Data → Int
  | .int8, data => Int8.toInt data
  | .uint8, data => (UInt8.toNat data : Int)
  | .int16, data => Int16.toInt data
  | .uint16, data => (UInt16.toNat data : Int)
  | .int32, data => Int32.toInt data
  | .uint32, data => (UInt32.toNat data : Int)

/-- The conversion at the end of `operator>>`. -/
def convert : (t : IntType) → Nat → t.Data
  | .int8, n => Int8.ofNat n
  | .uint8, n => UInt8.ofNat n
  | .int16, n => Int16.ofNat n
  | .uint16, n => UInt16.ofNat n
  | .int32, n => Int32.ofNat n
  | .uint32, n => UInt32.ofNat n

end IntType

namespace CByteStream

/-- `CByteStream(uchar_t *buf, uint32_t len)`. -/
def ofBuffer (buf : List UInt8) : CByteStream := ⟨.fixed buf, buf.length, 0⟩

/-- `CByteStream(CSimpleBuffer *pSimpBuf, uint32_t pos)`: `len_` is 0. -/
def ofSimple (buf : CSimpleBuffer) (pos : Nat) : CByteStream := ⟨.simple buf, 0, pos⟩

/-- `_WriteByte`; a fixed buffer that is too short is left alone. -/
def writeByte (s : CByteStream) (data : List UInt8) : Except Fault CByteStream :=
  match s.backing with
  | .fixed buf =>
      if s.len < add32 s.pos data.length then .ok s
      else if s.pos + data.length ≤ buf.length then
        .ok { s with backing := .fixed (splice buf s.pos data), pos := add32 s.pos data.length }
      else .error .outside
  | .simple buf =>
      match buf.write data with
      | .ok buf => .ok { s with backing := .simple buf, pos := add32 s.pos data.length }
      | .error fault => .error fault

/-- `_ReadByte`. -/
def readByte (s : CByteStream) (len : Nat) : Except Fault (List UInt8 × CByteStream) :=
  if s.len < add32 s.pos len then .error (.exception parseFailed)
  else
    match s.backing with
    | .fixed buf =>
        if s.pos + len ≤ buf.length then
          .ok ((buf.drop s.pos).take len, { s with pos := add32 s.pos len })
        else .error .outside
    | .simple buf =>
        let (data, buf) := buf.read len
        if data.length = len then
          .ok (data, { s with backing := .simple buf, pos := add32 s.pos len })
        else .error .unwritten

/-- The source moves `pos_` before it throws, so a stream that is used behind a caught exception
is outside of this model. -/
def skip (s : CByteStream) (len : Nat) : Except Fault CByteStream :=
  if s.len < add32 s.pos len then .error (.exception parseFailed)
  else .ok { s with pos := add32 s.pos len }

/-- `operator<<`. -/
def writeNumber (s : CByteStream) (t : IntType) (data : t.Data) : Except Fault CByteStream :=
  s.writeByte (BigEndian.toBytes t.width (t.toInt data))

/-- `operator>>`. -/
def readNumber (s : CByteStream) (t : IntType) : Except Fault (t.Data × CByteStream) := do
  let (bytes, s) ← s.readByte t.width
  return (t.convert (BigEndian.ofBytes bytes), s)

/-- A length and the bytes. -/
def writeBlock (s : CByteStream) (data : List UInt8) : Except Fault CByteStream := do
  let len := UInt32.ofNat data.length
  let s ← s.writeNumber .uint32 len
  s.writeByte (data.take len.toNat)

/-- `WriteString(const char *str)`. -/
def writeCString (s : CByteStream) (str : CString) : Except Fault CByteStream :=
  s.writeBlock str.bytes

/-- `WriteString(const char *str, uint32_t len)`. -/
def writeString (s : CByteStream) (str : List UInt8) : Except Fault CByteStream :=
  s.writeBlock str

def writeData (s : CByteStream) (data : List UInt8) : Except Fault CByteStream :=
  s.writeBlock data

/-- The place behind a length, and the length. -/
def readBlock (s : CByteStream) : Except Fault ((Nat × Nat) × CByteStream) := do
  let (len, s) ← s.readNumber .uint32
  let start := s.pos
  let s ← s.skip len.toNat
  return ((start, len.toNat), s)

def readString (s : CByteStream) : Except Fault ((Nat × Nat) × CByteStream) := s.readBlock

def readData (s : CByteStream) : Except Fault ((Nat × Nat) × CByteStream) := s.readBlock

end CByteStream

/-! ## Values -/

/-- What one call writes. -/
inductive Value
  | number (t : IntType) (data : t.Data)
  | cString (str : CString)
  | string (str : List UInt8)
  | data (data : List UInt8)

/-- What one call reads. -/
inductive Kind
  | number (t : IntType)
  | string
  | data
deriving DecidableEq

def Value.kind : Value → Kind
  | .number t _ => .number t
  | .cString _ => .string
  | .string _ => .string
  | .data _ => .data

/-- What a call returns: a number, or a pointer into the buffer with a length. -/
inductive Read
  | number (t : IntType) (data : t.Data)
  | block (start len : Nat)

def CByteStream.write (s : CByteStream) : Value → Except Fault CByteStream
  | .number t data => s.writeNumber t data
  | .cString str => s.writeCString str
  | .string str => s.writeString str
  | .data data => s.writeData data

def CByteStream.read (s : CByteStream) : Kind → Except Fault (Read × CByteStream)
  | .number t => do
      let (data, s) ← s.readNumber t
      return (.number t data, s)
  | .string => do
      let ((start, len), s) ← s.readString
      return (.block start len, s)
  | .data => do
      let ((start, len), s) ← s.readData
      return (.block start len, s)

/-- A number, or the bytes of a block. -/
inductive Content
  | number (t : IntType) (data : t.Data)
  | bytes (data : List UInt8)

def Value.content : Value → Content
  | .number t n => .number t n
  | .cString str => .bytes str.bytes
  | .string str => .bytes str
  | .data bytes => .bytes bytes

/-- What the caller finds at the pointer; `none` when the block is not in the buffer. -/
def Read.content (memory : List UInt8) : Read → Option Content
  | .number t data => some (.number t data)
  | .block start len =>
      if start + len ≤ memory.length then some (.bytes ((memory.drop start).take len)) else none

namespace CByteStream

def writeAll : CByteStream → List Value → Except Fault CByteStream
  | s, [] => .ok s
  | s, value :: values => do
      let s ← s.write value
      s.writeAll values

/-- The contents in order, each as it is when its call returns. -/
def readAll : CByteStream → List Kind → Except Fault (List (Option Content) × CByteStream)
  | s, [] => .ok ([], s)
  | s, kind :: kinds => do
      let (read, s) ← s.read kind
      let content := read.content s.backing.memory
      let (contents, s) ← s.readAll kinds
      return (content :: contents, s)

end CByteStream

/-! ## Encodings -/

/-- A length in front of the bytes. -/
def encodeBlock (data : List UInt8) : List UInt8 :=
  BigEndian.toBytes 4 (data.length : Int) ++ data

def Value.encode : Value → List UInt8
  | .number t n => BigEndian.toBytes t.width (t.toInt n)
  | .cString str => encodeBlock str.bytes
  | .string str => encodeBlock str
  | .data bytes => encodeBlock bytes

/-- A fixed buffer; its length is a `uint32_t`. -/
structure FixedBuffer where
  bytes : List UInt8
  size : bytes.length < 4294967296

/-- Values that fit into a buffer. -/
structure Transfer where
  values : List Value
  buffer : FixedBuffer
  fits : (values.flatMap Value.encode).length ≤ buffer.bytes.length

/-- Another stream over the buffer that the values were written to. -/
def CByteStream.reopen (s : CByteStream) : CByteStream :=
  match s.backing with
  | .fixed buf => .ofBuffer buf
  | .simple buf => .ofSimple buf 0

/-! ## Numbers -/

theorem toInt_uint32 {n : Nat} (h : n < 4294967296) :
    IntType.uint32.toInt (UInt32.ofNat n) = (n : Int) := by
  rw [IntType.toInt, UInt32.toNat_ofNat', Nat.mod_eq_of_lt h]

theorem emod_bmod_self {n : Int} {m : Nat} (hlow : -(m : Int) ≤ n * 2) (hhigh : n * 2 < m) :
    (n % (m : Int)).bmod m = n := by
  rw [Int.emod_bmod, Int.bmod_eq_of_le_mul_two hlow hhigh]

/-- A type has as many values as its bytes, so the conversion undoes the promotion. -/
theorem convert_ofBytes (t : IntType) (data : t.Data) :
    t.convert (BigEndian.ofBytes (BigEndian.toBytes t.width (t.toInt data))) = data := by
  have hback := BigEndian.ofBytes_toBytes t.width (t.toInt data)
  generalize BigEndian.ofBytes (BigEndian.toBytes t.width (t.toInt data)) = n at hback
  cases t with
  | int8 =>
      have hn : Int8.ofInt n = Int8.ofInt (Int8.toInt data) := by
        have hlow := Int8.le_toInt data
        have hhigh := Int8.toInt_lt data
        rw [hback, Int8.ofInt_toInt, ← Int8.toInt_inj, Int8.toInt_ofInt]
        show (Int8.toInt data % ((256 : Nat) : Int)).bmod 256 = Int8.toInt data
        exact emod_bmod_self (by omega) (by omega)
      rw [Int8.ofInt_toInt, Int8.ofInt_eq_ofNat] at hn
      exact hn
  | uint8 =>
      have hn : n = UInt8.toNat data := by
        have := UInt8.toNat_lt data
        simp only [IntType.toInt, IntType.width] at hback
        omega
      exact hn ▸ UInt8.ofNat_toNat
  | int16 =>
      have hn : Int16.ofInt n = Int16.ofInt (Int16.toInt data) := by
        have hlow := Int16.le_toInt data
        have hhigh := Int16.toInt_lt data
        rw [hback, Int16.ofInt_toInt, ← Int16.toInt_inj, Int16.toInt_ofInt]
        show (Int16.toInt data % ((65536 : Nat) : Int)).bmod 65536 = Int16.toInt data
        exact emod_bmod_self (by omega) (by omega)
      rw [Int16.ofInt_toInt, Int16.ofInt_eq_ofNat] at hn
      exact hn
  | uint16 =>
      have hn : n = UInt16.toNat data := by
        have := UInt16.toNat_lt data
        simp only [IntType.toInt, IntType.width] at hback
        omega
      exact hn ▸ UInt16.ofNat_toNat
  | int32 =>
      have hn : Int32.ofInt n = Int32.ofInt (Int32.toInt data) := by
        have hlow := Int32.le_toInt data
        have hhigh := Int32.toInt_lt data
        rw [hback, Int32.ofInt_toInt, ← Int32.toInt_inj, Int32.toInt_ofInt]
        show (Int32.toInt data % ((4294967296 : Nat) : Int)).bmod 4294967296 = Int32.toInt data
        exact emod_bmod_self (by omega) (by omega)
      rw [Int32.ofInt_toInt, Int32.ofInt_eq_ofNat] at hn
      exact hn
  | uint32 =>
      have hn : n = UInt32.toNat data := by
        have := UInt32.toNat_lt data
        simp only [IntType.toInt, IntType.width] at hback
        omega
      exact hn ▸ UInt32.ofNat_toNat

end Pdu
end TcMuzi
