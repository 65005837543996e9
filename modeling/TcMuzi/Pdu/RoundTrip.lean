import TcMuzi.Pdu.ByteStream

/-!
# What is written to a fixed buffer is read back

Each write puts the encoding of its value behind those already there, and each read takes
one encoding off the front of what is left.
-/

namespace TcMuzi
namespace Pdu

open Base Lib

/-- A stream over a fixed buffer, at this position. -/
def atPos (buf : List UInt8) (pos : Nat) : CByteStream := ⟨.fixed buf, buf.length, pos⟩

theorem readByte_of_atPos (buf : List UInt8) (pos len : Nat) :
    (atPos buf pos).readByte len =
      if buf.length < add32 pos len then .error (.exception parseFailed)
      else if pos + len ≤ buf.length then
        .ok ((buf.drop pos).take len, ⟨.fixed buf, buf.length, add32 pos len⟩)
      else .error .outside := rfl

theorem skip_of_atPos (buf : List UInt8) (pos len : Nat) :
    (atPos buf pos).skip len =
      if buf.length < add32 pos len then .error (.exception parseFailed)
      else .ok ⟨.fixed buf, buf.length, add32 pos len⟩ := rfl

/-! ## Overwriting bytes -/

section Splice

variable {buf a b : List UInt8} {pos : Nat}

theorem length_splice (h : pos + a.length ≤ buf.length) :
    (splice buf pos a).length = buf.length := by
  simp only [splice, List.length_append, List.length_take, List.length_drop]
  omega

theorem splice_nil (buf : List UInt8) (pos : Nat) : splice buf pos [] = buf := by
  simp [splice]

/-- Two writes in a row are one. -/
theorem splice_splice (h : pos + (a.length + b.length) ≤ buf.length) :
    splice (splice buf pos a) (pos + a.length) b = splice buf pos (a ++ b) := by
  have hfront : (buf.take pos ++ a).length = pos + a.length := by
    rw [List.length_append, List.length_take]
    omega
  have htake : (splice buf pos a).take (pos + a.length) = buf.take pos ++ a := by
    rw [splice, ← hfront, List.take_left]
  have hdrop : (splice buf pos a).drop (pos + a.length + b.length) =
      buf.drop (pos + (a ++ b).length) := by
    rw [splice, ← hfront, ← List.drop_drop, List.drop_left, List.drop_drop, hfront,
      List.length_append, Nat.add_assoc]
  rw [splice, htake, hdrop, splice, List.append_assoc (buf.take pos)]

/-- What was written stands at its position. -/
theorem drop_splice (h : pos + a.length ≤ buf.length) :
    (splice buf pos a).drop pos = a ++ buf.drop (pos + a.length) := by
  have hfront : (buf.take pos).length = pos := by
    rw [List.length_take]
    omega
  rw [splice, List.append_assoc]
  exact List.drop_left' hfront

end Splice

/-! ## Writing -/

section Writing

variable {buf : List UInt8} {pos : Nat}

theorem writeByte_atPos {data : List UInt8} (hsize : buf.length < 4294967296)
    (h : pos + data.length ≤ buf.length) :
    (atPos buf pos).writeByte data = .ok (atPos (splice buf pos data) (pos + data.length)) := by
  have hadd : add32 pos data.length = pos + data.length := add32_eq (by omega)
  rw [CByteStream.writeByte]
  simp only [atPos, hadd, Nat.not_lt.mpr h, if_false, h, if_true, length_splice h]

theorem length_encodeBlock (data : List UInt8) : (encodeBlock data).length = 4 + data.length := by
  rw [encodeBlock, List.length_append, BigEndian.length_toBytes]

theorem writeBlock_atPos {data : List UInt8} (hsize : buf.length < 4294967296)
    (h : pos + (encodeBlock data).length ≤ buf.length) :
    (atPos buf pos).writeBlock data =
      .ok (atPos (splice buf pos (encodeBlock data)) (pos + (encodeBlock data).length)) := by
  rw [length_encodeBlock] at h
  have hlen : data.length < 4294967296 := by omega
  have htoNat : (UInt32.ofNat data.length).toNat = data.length := by
    rw [UInt32.toNat_ofNat', Nat.mod_eq_of_lt hlen]
  have hprefix : pos + (BigEndian.toBytes 4 (data.length : Int)).length ≤ buf.length := by
    rw [BigEndian.length_toBytes]
    omega
  have hnumber : (atPos buf pos).writeNumber .uint32 (UInt32.ofNat data.length) =
      .ok (atPos (splice buf pos (BigEndian.toBytes 4 (data.length : Int)))
        (pos + (BigEndian.toBytes 4 (data.length : Int)).length)) := by
    rw [CByteStream.writeNumber, toInt_uint32 hlen]
    exact writeByte_atPos hsize hprefix
  have hsplice := length_splice hprefix
  have hroom : pos + (BigEndian.toBytes 4 (data.length : Int)).length + data.length ≤
      (splice buf pos (BigEndian.toBytes 4 (data.length : Int))).length := by
    rw [hsplice, BigEndian.length_toBytes]
    omega
  have hrest := writeByte_atPos (by rwa [hsplice]) hroom
  have hboth : splice (splice buf pos (BigEndian.toBytes 4 (data.length : Int)))
      (pos + (BigEndian.toBytes 4 (data.length : Int)).length) data =
      splice buf pos (BigEndian.toBytes 4 (data.length : Int) ++ data) :=
    splice_splice (by rw [BigEndian.length_toBytes]; omega)
  rw [CByteStream.writeBlock, hnumber]
  show (atPos _ _).writeByte (data.take (UInt32.ofNat data.length).toNat) = _
  rw [htoNat, List.take_length, hrest, hboth, encodeBlock, List.length_append, Nat.add_assoc]

/-- A value that fits is written as its encoding. -/
theorem write_atPos {value : Value} (hsize : buf.length < 4294967296)
    (h : pos + value.encode.length ≤ buf.length) :
    (atPos buf pos).write value =
      .ok (atPos (splice buf pos value.encode) (pos + value.encode.length)) := by
  cases value with
  | number t n => exact writeByte_atPos hsize h
  | cString str => exact writeBlock_atPos hsize h
  | string str => exact writeBlock_atPos hsize h
  | data bytes => exact writeBlock_atPos hsize h

theorem writeAll_atPos {values : List Value} (hsize : buf.length < 4294967296)
    (h : pos + (values.flatMap Value.encode).length ≤ buf.length) :
    (atPos buf pos).writeAll values =
      .ok (atPos (splice buf pos (values.flatMap Value.encode))
        (pos + (values.flatMap Value.encode).length)) := by
  induction values generalizing buf pos with
  | nil =>
      rw [List.flatMap_nil, splice_nil]
      rfl
  | cons value values ih =>
      rw [List.flatMap_cons, List.length_append] at h
      have hfirst : pos + value.encode.length ≤ buf.length := by omega
      rw [CByteStream.writeAll, write_atPos hsize hfirst]
      show (atPos _ _).writeAll values = _
      rw [ih (by rwa [length_splice hfirst]) (by rw [length_splice hfirst]; omega),
        splice_splice h, List.flatMap_cons, List.length_append, Nat.add_assoc]

end Writing

/-! ## Reading -/

section Reading

variable {buf rest : List UInt8} {pos : Nat}

/-- What stands at the position is read. -/
theorem readByte_atPos {data : List UInt8} (hsize : buf.length < 4294967296)
    (hpos : pos + data.length ≤ buf.length) (h : buf.drop pos = data ++ rest) :
    (atPos buf pos).readByte data.length = .ok (data, atPos buf (pos + data.length)) := by
  have hadd : add32 pos data.length = pos + data.length := add32_eq (by omega)
  rw [readByte_of_atPos, hadd, if_neg (Nat.not_lt.mpr hpos), if_pos hpos, h, List.take_left]
  rfl

theorem readNumber_atPos {t : IntType} (data : t.Data) (hsize : buf.length < 4294967296)
    (hpos : pos + t.width ≤ buf.length)
    (h : buf.drop pos = BigEndian.toBytes t.width (t.toInt data) ++ rest) :
    (atPos buf pos).readNumber t = .ok (data, atPos buf (pos + t.width)) := by
  have hread := readByte_atPos hsize (by rwa [BigEndian.length_toBytes]) h
  rw [BigEndian.length_toBytes] at hread
  rw [CByteStream.readNumber, hread]
  show Except.ok (t.convert (BigEndian.ofBytes _), _) = _
  rw [convert_ofBytes]

theorem readBlock_atPos {data : List UInt8} (hsize : buf.length < 4294967296)
    (hpos : pos + (encodeBlock data).length ≤ buf.length)
    (h : buf.drop pos = encodeBlock data ++ rest) :
    (atPos buf pos).readBlock =
      .ok ((pos + 4, data.length), atPos buf (pos + (encodeBlock data).length)) := by
  rw [length_encodeBlock] at hpos ⊢
  have hlen : data.length < 4294967296 := by omega
  have htoNat : (UInt32.ofNat data.length).toNat = data.length := by
    rw [UInt32.toNat_ofNat', Nat.mod_eq_of_lt hlen]
  have hadd : add32 (pos + 4) data.length = pos + 4 + data.length := add32_eq (by omega)
  have hnumber : (atPos buf pos).readNumber .uint32 =
      .ok (UInt32.ofNat data.length, atPos buf (pos + 4)) := by
    have hbytes : buf.drop pos = BigEndian.toBytes IntType.uint32.width
        (IntType.uint32.toInt (UInt32.ofNat data.length)) ++ (data ++ rest) := by
      rw [toInt_uint32 hlen, h, encodeBlock, List.append_assoc]
      rfl
    have hwidth : pos + IntType.uint32.width ≤ buf.length := by
      show pos + 4 ≤ buf.length
      omega
    exact readNumber_atPos (t := .uint32) (UInt32.ofNat data.length) hsize hwidth hbytes
  have hskip : (atPos buf (pos + 4)).skip data.length = .ok (atPos buf (pos + 4 + data.length)) := by
    rw [skip_of_atPos, hadd, if_neg (by omega)]
    rfl
  rw [CByteStream.readBlock, hnumber]
  show ((atPos buf (pos + 4)).skip (UInt32.ofNat data.length).toNat >>= _) = _
  rw [htoNat, hskip, Nat.add_assoc]
  rfl

/-- A block that was read is the bytes behind its length. -/
theorem content_block {data : List UInt8} (hpos : pos + (encodeBlock data).length ≤ buf.length)
    (h : buf.drop pos = encodeBlock data ++ rest) :
    (Read.block (pos + 4) data.length).content buf = some (.bytes data) := by
  rw [length_encodeBlock] at hpos
  have hprefix : (BigEndian.toBytes 4 (data.length : Int)).length = 4 :=
    BigEndian.length_toBytes 4 _
  have hdrop : buf.drop (pos + 4) = data ++ rest := by
    rw [← List.drop_drop, h, encodeBlock, List.append_assoc]
    exact List.drop_left' hprefix
  rw [Read.content, if_pos (by omega), hdrop, List.take_left]

/-- A value whose encoding stands at the position is read. -/
theorem read_atPos {value : Value} (hsize : buf.length < 4294967296)
    (hpos : pos + value.encode.length ≤ buf.length) (h : buf.drop pos = value.encode ++ rest) :
    ∃ read, (atPos buf pos).read value.kind =
        .ok (read, atPos buf (pos + value.encode.length)) ∧
      read.content buf = some value.content := by
  cases value with
  | number t n =>
      have hwidth : (Value.number t n).encode.length = t.width := BigEndian.length_toBytes ..
      rw [hwidth] at hpos ⊢
      refine ⟨.number t n, ?_, rfl⟩
      rw [Value.kind, CByteStream.read, readNumber_atPos n hsize hpos h]
      rfl
  | cString str =>
      refine ⟨_, ?_, content_block hpos h⟩
      rw [Value.kind, CByteStream.read, CByteStream.readString, readBlock_atPos hsize hpos h]
      rfl
  | string str =>
      refine ⟨_, ?_, content_block hpos h⟩
      rw [Value.kind, CByteStream.read, CByteStream.readString, readBlock_atPos hsize hpos h]
      rfl
  | data bytes =>
      refine ⟨_, ?_, content_block hpos h⟩
      rw [Value.kind, CByteStream.read, CByteStream.readData, readBlock_atPos hsize hpos h]
      rfl

theorem readAll_atPos {values : List Value} (hsize : buf.length < 4294967296)
    (hpos : pos + (values.flatMap Value.encode).length ≤ buf.length)
    (h : buf.drop pos = values.flatMap Value.encode ++ rest) :
    (atPos buf pos).readAll (values.map Value.kind) =
      .ok (values.map fun value => some value.content,
        atPos buf (pos + (values.flatMap Value.encode).length)) := by
  induction values generalizing pos with
  | nil => rfl
  | cons value values ih =>
      rw [List.flatMap_cons, List.length_append] at hpos
      rw [List.flatMap_cons, List.append_assoc] at h
      obtain ⟨read, hread, hcontent⟩ := read_atPos hsize (by omega) h
      have hdrop : buf.drop (pos + value.encode.length) = values.flatMap Value.encode ++ rest := by
        rw [← List.drop_drop, h, List.drop_left]
      rw [List.map_cons, CByteStream.readAll, hread]
      show ((atPos buf _).readAll (values.map Value.kind) >>= fun result =>
        Except.ok (read.content buf :: result.1, result.2)) = _
      rw [ih (by omega) hdrop, hcontent, List.flatMap_cons, List.length_append, Nat.add_assoc]
      rfl

end Reading

/-! ## Both together -/

namespace Transfer

variable (t : Transfer)

/-- The buffer with the encodings at its front. -/
def filled : List UInt8 := splice t.buffer.bytes 0 (t.values.flatMap Value.encode)

theorem writeAll_eq : (CByteStream.ofBuffer t.buffer.bytes).writeAll t.values =
    .ok (atPos t.filled (t.values.flatMap Value.encode).length) := by
  have hfits : 0 + (t.values.flatMap Value.encode).length ≤ t.buffer.bytes.length := by
    rw [Nat.zero_add]
    exact t.fits
  have hwrite := writeAll_atPos t.buffer.size hfits
  rw [Nat.zero_add] at hwrite
  exact hwrite

theorem readAll_eq : (CByteStream.ofBuffer t.filled).readAll (t.values.map Value.kind) =
    .ok (t.values.map fun value => some value.content,
      atPos t.filled (t.values.flatMap Value.encode).length) := by
  have hfits : 0 + (t.values.flatMap Value.encode).length ≤ t.buffer.bytes.length := by
    rw [Nat.zero_add]
    exact t.fits
  have hlength : t.filled.length = t.buffer.bytes.length := length_splice hfits
  have hsize : t.filled.length < 4294967296 := hlength ▸ t.buffer.size
  have hread := readAll_atPos hsize (hlength ▸ hfits) (drop_splice hfits)
  rw [Nat.zero_add] at hread
  exact hread

/-- A second stream over the buffer reads the values in order and ends where the first one
ended; nothing is thrown. -/
theorem reads_written : ∃ written final,
    (CByteStream.ofBuffer t.buffer.bytes).writeAll t.values = .ok written ∧
      written.reopen.readAll (t.values.map Value.kind) =
        .ok (t.values.map fun value => some value.content, final) ∧
      final.pos = written.pos :=
  ⟨_, _, t.writeAll_eq, t.readAll_eq, rfl⟩

end Transfer

end Pdu
end TcMuzi
