import TcMuzi.Pdu.RoundTrip

/-!
# Reading what somebody else wrote

The checks of a stream compare a sum of two `uint32_t` with the length.  Where the sum wraps,
a length in the buffer moves the position backwards, and the block it announces is not in the
buffer.  A stream over a `CSimpleBuffer` has the length 0, so that it refuses every read.
-/

namespace TcMuzi
namespace Pdu

open Base Lib

/-! ## A sequence of reads -/

/-- The stream over a buffer after the first reads of a sequence. -/
def FixedBuffer.after (buffer : FixedBuffer) (kinds : Nat → Kind) : Nat → Except Fault CByteStream
  | 0 => .ok (.ofBuffer buffer.bytes)
  | n + 1 => do
      let s ← buffer.after kinds n
      let (_, s) ← s.read (kinds n)
      return s

/-- The data lies in a buffer of this length. -/
def Read.Inside (length : Nat) : Read → Prop
  | .number _ _ => True
  | .block start len => start + len ≤ length

/-- The read throws, or returns data of the buffer and does not move backwards. -/
def ReadsWell (buffer : FixedBuffer) (s : CByteStream) (kind : Kind) : Prop :=
  s.read kind = .error (.exception parseFailed) ∨
    ∃ read s', s.read kind = .ok (read, s') ∧ read.Inside buffer.bytes.length ∧ s.pos ≤ s'.pos

/-- Every read of the sequence is a good one, and a loop that goes on until the position is
the end of the buffer ends. -/
structure ReadsSafely (buffer : FixedBuffer) (kinds : Nat → Kind) : Prop where
  step : ∀ n s, buffer.after kinds n = .ok s → ReadsWell buffer s (kinds n)
  ends : ∃ n, (∃ fault, buffer.after kinds n = .error fault) ∨
    ∃ s, buffer.after kinds n = .ok s ∧ s.pos = buffer.bytes.length

/-- The length of a block at this position. -/
def announced (buffer : FixedBuffer) (pos : Nat) : Nat :=
  (UInt32.ofNat (BigEndian.ofBytes ((buffer.bytes.drop pos).take 4))).toNat

/-- No sum that is checked for this read wraps. -/
def StaysBelow (buffer : FixedBuffer) (pos : Nat) : Kind → Prop
  | .number t => pos + t.width < 4294967296
  | _ => pos + 4 < 4294967296 ∧
      (pos + 4 ≤ buffer.bytes.length → pos + 4 + announced buffer pos < 4294967296)

/-! ## One read -/

section OneRead

variable (buffer : FixedBuffer) {pos : Nat}

theorem add32_of_le {m n : Nat} (hm : m < 4294967296) (hn : n < 4294967296)
    (h : 4294967296 ≤ m + n) : add32 m n = m + n - 4294967296 := by
  rw [add32]
  omega

/-- Where the sum wraps, the check does not notice. -/
theorem readByte_eq (hpos : pos ≤ buffer.bytes.length) {len : Nat} (hlen : len < 4294967296) :
    (atPos buffer.bytes pos).readByte len =
      if pos + len ≤ buffer.bytes.length then
        .ok ((buffer.bytes.drop pos).take len, atPos buffer.bytes (pos + len))
      else if pos + len < 4294967296 then .error (.exception parseFailed)
      else .error .outside := by
  have hsize := buffer.size
  rw [readByte_of_atPos]
  by_cases hin : pos + len ≤ buffer.bytes.length
  · rw [add32_eq (by omega), if_neg (by omega), if_pos hin, if_pos hin]
    rfl
  · rw [if_neg hin, if_neg hin]
    by_cases hbelow : pos + len < 4294967296
    · rw [add32_eq hbelow, if_pos (by omega), if_pos hbelow]
    · rw [add32_of_le (by omega) hlen (by omega), if_neg (by omega), if_neg hbelow]

theorem skip_eq (hpos : pos ≤ buffer.bytes.length) {len : Nat} (hlen : len < 4294967296) :
    (atPos buffer.bytes pos).skip len =
      if pos + len < 4294967296 then
        if pos + len ≤ buffer.bytes.length then .ok (atPos buffer.bytes (pos + len))
        else .error (.exception parseFailed)
      else .ok (atPos buffer.bytes (pos + len - 4294967296)) := by
  have hsize := buffer.size
  rw [skip_of_atPos]
  by_cases hbelow : pos + len < 4294967296
  · rw [add32_eq hbelow, if_pos hbelow]
    by_cases hin : pos + len ≤ buffer.bytes.length
    · rw [if_neg (by omega), if_pos hin]
      rfl
    · rw [if_pos (by omega), if_neg hin]
  · rw [add32_of_le (by omega) hlen (by omega), if_neg (by omega), if_neg hbelow]
    rfl

theorem width_pos (t : IntType) : 0 < t.width ∧ t.width ≤ 4 := by
  cases t <;> decide

theorem readNumber_eq (hpos : pos ≤ buffer.bytes.length) (t : IntType) :
    (atPos buffer.bytes pos).readNumber t =
      if pos + t.width ≤ buffer.bytes.length then
        .ok (t.convert (BigEndian.ofBytes ((buffer.bytes.drop pos).take t.width)),
          atPos buffer.bytes (pos + t.width))
      else if pos + t.width < 4294967296 then .error (.exception parseFailed)
      else .error .outside := by
  have hwidth := width_pos t
  rw [CByteStream.readNumber, readByte_eq buffer hpos (by omega)]
  split
  · rfl
  · split <;> rfl

/-- A block that ends behind the buffer is refused only where the sum does not wrap. -/
theorem readBlock_eq (hpos : pos ≤ buffer.bytes.length) :
    (atPos buffer.bytes pos).readBlock =
      if pos + 4 ≤ buffer.bytes.length then
        if pos + 4 + announced buffer pos < 4294967296 then
          if pos + 4 + announced buffer pos ≤ buffer.bytes.length then
            .ok ((pos + 4, announced buffer pos),
              atPos buffer.bytes (pos + 4 + announced buffer pos))
          else .error (.exception parseFailed)
        else .ok ((pos + 4, announced buffer pos),
          atPos buffer.bytes (pos + 4 + announced buffer pos - 4294967296))
      else if pos + 4 < 4294967296 then .error (.exception parseFailed)
      else .error .outside := by
  have hnumber := readNumber_eq buffer hpos .uint32
  have hwidth : IntType.uint32.width = 4 := rfl
  rw [hwidth] at hnumber
  rw [CByteStream.readBlock, hnumber]
  by_cases hprefix : pos + 4 ≤ buffer.bytes.length
  · rw [if_pos hprefix, if_pos hprefix]
    show ((atPos buffer.bytes (pos + 4)).skip (announced buffer pos) >>= fun s =>
      Except.ok ((pos + 4, announced buffer pos), s)) = _
    have hannounced : announced buffer pos < 4294967296 := UInt32.toNat_lt _
    rw [skip_eq buffer hprefix hannounced]
    split
    · split <;> rfl
    · rfl
  · rw [if_neg hprefix, if_neg hprefix]
    split <;> rfl

/-- A good read that does not throw moves forward inside the buffer. -/
def MovesForward (buffer : FixedBuffer) (pos : Nat) (kind : Kind) : Prop :=
  ∀ read s, (atPos buffer.bytes pos).read kind = .ok (read, s) →
    ∃ pos', s = atPos buffer.bytes pos' ∧ pos' ≤ buffer.bytes.length ∧
      (StaysBelow buffer pos kind → pos < pos')

/-- A read that throws is a good one. -/
theorem readsWell_of_exception {kind : Kind}
    (h : (atPos buffer.bytes pos).read kind = .error (.exception parseFailed)) :
    ReadsWell buffer (atPos buffer.bytes pos) kind ∧ MovesForward buffer pos kind := by
  refine ⟨Or.inl h, fun read s hread => ?_⟩
  rw [h] at hread
  cases hread

/-- A read outside of the buffer is not. -/
theorem not_readsWell_of_outside {kind : Kind}
    (h : (atPos buffer.bytes pos).read kind = .error .outside) :
    ¬ ReadsWell buffer (atPos buffer.bytes pos) kind ∧ MovesForward buffer pos kind := by
  constructor
  · rintro (hthrows | ⟨read, s, hread, _⟩)
    · rw [h] at hthrows
      cases hthrows
    · rw [h] at hread
      cases hread
  · intro read s hread
    rw [h] at hread
    cases hread

theorem movesForward_of_ok {kind : Kind} {read : Read} {pos' : Nat}
    (h : (atPos buffer.bytes pos).read kind = .ok (read, atPos buffer.bytes pos'))
    (hpos' : pos' ≤ buffer.bytes.length) (hforward : StaysBelow buffer pos kind → pos < pos') :
    MovesForward buffer pos kind := by
  intro other s hread
  rw [h] at hread
  cases hread
  exact ⟨pos', rfl, hpos', hforward⟩

/-- What a read of a number can do. -/
theorem readsWell_number (hpos : pos ≤ buffer.bytes.length) (t : IntType) :
    (ReadsWell buffer (atPos buffer.bytes pos) (.number t) ↔
      StaysBelow buffer pos (.number t)) ∧ MovesForward buffer pos (.number t) := by
  have hsize := buffer.size
  have hwidth := width_pos t
  have heq : (atPos buffer.bytes pos).read (.number t) =
      (atPos buffer.bytes pos).readNumber t >>= fun result =>
        .ok (Read.number t result.1, result.2) := rfl
  rw [readNumber_eq buffer hpos t] at heq
  by_cases hin : pos + t.width ≤ buffer.bytes.length
  · rw [if_pos hin] at heq
    have hwell : ReadsWell buffer (atPos buffer.bytes pos) (.number t) :=
      Or.inr ⟨_, _, heq, trivial, Nat.le_add_right ..⟩
    exact ⟨iff_of_true hwell (Nat.lt_of_le_of_lt hin hsize),
      movesForward_of_ok buffer heq hin fun _ => by omega⟩
  · rw [if_neg hin] at heq
    by_cases hbelow : pos + t.width < 4294967296
    · rw [if_pos hbelow] at heq
      exact (readsWell_of_exception buffer heq).imp_left fun h => iff_of_true h hbelow
    · rw [if_neg hbelow] at heq
      exact (not_readsWell_of_outside buffer heq).imp_left fun h => iff_of_false h hbelow

/-- What a read of a block can do. -/
theorem readsWell_block (hpos : pos ≤ buffer.bytes.length) {kind : Kind}
    (hkind : kind = .string ∨ kind = .data) :
    (ReadsWell buffer (atPos buffer.bytes pos) kind ↔ StaysBelow buffer pos kind) ∧
      MovesForward buffer pos kind := by
  have hsize := buffer.size
  have hstays : StaysBelow buffer pos kind ↔ pos + 4 < 4294967296 ∧
      (pos + 4 ≤ buffer.bytes.length → pos + 4 + announced buffer pos < 4294967296) := by
    rcases hkind with rfl | rfl <;> rfl
  have heq : (atPos buffer.bytes pos).read kind =
      (atPos buffer.bytes pos).readBlock >>= fun result =>
        .ok (Read.block result.1.1 result.1.2, result.2) := by
    rcases hkind with rfl | rfl <;> rfl
  rw [readBlock_eq buffer hpos] at heq
  have hannounced : announced buffer pos < 4294967296 := UInt32.toNat_lt _
  by_cases hprefix : pos + 4 ≤ buffer.bytes.length
  · -- the length is read, and the block may be too long
    rw [if_pos hprefix] at heq
    by_cases hbelow : pos + 4 + announced buffer pos < 4294967296
    · rw [if_pos hbelow] at heq
      have hcond : StaysBelow buffer pos kind := hstays.mpr ⟨by omega, fun _ => hbelow⟩
      by_cases hin : pos + 4 + announced buffer pos ≤ buffer.bytes.length
      · rw [if_pos hin] at heq
        have hahead : pos ≤ pos + 4 + announced buffer pos := by omega
        exact ⟨iff_of_true (Or.inr ⟨_, _, heq, hin, hahead⟩) hcond,
          movesForward_of_ok buffer heq hin fun _ => by omega⟩
      · rw [if_neg hin] at heq
        exact (readsWell_of_exception buffer heq).imp_left fun h => iff_of_true h hcond
    · -- the block starts inside and ends 2^32 bytes behind the new position
      rw [if_neg hbelow] at heq
      have hcond : ¬ StaysBelow buffer pos kind := fun h => hbelow ((hstays.mp h).2 hprefix)
      refine ⟨iff_of_false ?_ hcond,
        movesForward_of_ok buffer heq (by omega) fun h => absurd h hcond⟩
      rintro (hthrows | ⟨read, s, hread, hinside, _⟩)
      · rw [heq] at hthrows
        cases hthrows
      · rw [heq] at hread
        cases hread
        have hinside' : pos + 4 + announced buffer pos ≤ buffer.bytes.length := hinside
        omega
  · -- the length is missing, which is found where the sum does not wrap
    rw [if_neg hprefix] at heq
    by_cases hbelow : pos + 4 < 4294967296
    · rw [if_pos hbelow] at heq
      have hcond := hstays.mpr ⟨hbelow, fun h => absurd h hprefix⟩
      exact (readsWell_of_exception buffer heq).imp_left fun h => iff_of_true h hcond
    · rw [if_neg hbelow] at heq
      exact (not_readsWell_of_outside buffer heq).imp_left fun h =>
        iff_of_false h fun hcond => hbelow (hstays.mp hcond).1

/-- A read is a good one exactly where no sum wraps. -/
theorem readsWell_iff (hpos : pos ≤ buffer.bytes.length) (kind : Kind) :
    (ReadsWell buffer (atPos buffer.bytes pos) kind ↔ StaysBelow buffer pos kind) ∧
      MovesForward buffer pos kind := by
  cases kind with
  | number t => exact readsWell_number buffer hpos t
  | string => exact readsWell_block buffer hpos (Or.inl rfl)
  | data => exact readsWell_block buffer hpos (Or.inr rfl)

end OneRead

/-! ## All reads -/

section AllReads

variable (buffer : FixedBuffer) (kinds : Nat → Kind)

/-- The position is inside the buffer, and where nothing wraps it is ahead of the number of
reads. -/
theorem after_eq_atPos {n : Nat} {s : CByteStream} (h : buffer.after kinds n = .ok s) :
    ∃ pos, s = atPos buffer.bytes pos ∧ pos ≤ buffer.bytes.length ∧
      ((∀ k s, k < n → buffer.after kinds k = .ok s → StaysBelow buffer s.pos (kinds k)) →
        n ≤ pos) := by
  induction n generalizing s with
  | zero =>
      cases h
      exact ⟨0, rfl, Nat.zero_le _, fun _ => Nat.le_refl 0⟩
  | succ n ih =>
      rw [FixedBuffer.after] at h
      cases hbefore : buffer.after kinds n with
      | error fault => rw [hbefore] at h; cases h
      | ok before =>
          obtain ⟨pos, rfl, hpos, hahead⟩ := ih hbefore
          rw [hbefore] at h
          cases hread : (atPos buffer.bytes pos).read (kinds n) with
          | error fault =>
              have hfault : (atPos buffer.bytes pos).read (kinds n) >>= (fun result =>
                Except.ok result.2) = .ok s := h
              rw [hread] at hfault
              cases hfault
          | ok result =>
              obtain ⟨read, s'⟩ := result
              have hok : (atPos buffer.bytes pos).read (kinds n) >>= (fun result =>
                Except.ok result.2) = .ok s := h
              rw [hread] at hok
              obtain rfl : s' = s := Except.ok.inj hok
              obtain ⟨pos', rfl, hpos', hforward⟩ :=
                (readsWell_iff buffer hpos (kinds n)).2 read s' hread
              refine ⟨pos', rfl, hpos', fun hstays => ?_⟩
              have hlt := hforward (hstays n _ (Nat.lt_succ_self n) hbefore)
              have hle := hahead fun k s hk => hstays k s (by omega)
              omega

/-- A sequence of reads is safe exactly where, at every read it comes to, the position and
what is read do not add up to 2^32. -/
theorem readsSafely_iff : ReadsSafely buffer kinds ↔
    ∀ n s, buffer.after kinds n = .ok s → StaysBelow buffer s.pos (kinds n) := by
  constructor
  · intro h n s hafter
    obtain ⟨pos, rfl, hpos, _⟩ := after_eq_atPos buffer kinds hafter
    exact (readsWell_iff buffer hpos (kinds n)).1.mp (h.step n _ hafter)
  · intro h
    refine ⟨fun n s hafter => ?_, buffer.bytes.length + 1, Or.inl ?_⟩
    · obtain ⟨pos, rfl, hpos, _⟩ := after_eq_atPos buffer kinds hafter
      exact (readsWell_iff buffer hpos (kinds n)).1.mpr (h n _ hafter)
    · cases hafter : buffer.after kinds (buffer.bytes.length + 1) with
      | error fault => exact ⟨fault, rfl⟩
      | ok s =>
          obtain ⟨pos, rfl, hpos, hahead⟩ := after_eq_atPos buffer kinds hafter
          have := hahead fun k s _ => h k s
          omega

end AllReads

/-- A length of 2^32 - 4. -/
def longBlock : FixedBuffer := ⟨[255, 255, 255, 252], by decide⟩

/-- Reading it goes back to the start, again and again. -/
theorem not_readsSafely_longBlock : ¬ ReadsSafely longBlock (fun _ => .string) := by
  intro h
  have hwell := h.step 0 (atPos longBlock.bytes 0) rfl
  have hstays := (readsWell_iff longBlock (Nat.zero_le _) .string).1.mp hwell
  exact absurd (hstays.2 (by decide)) (by decide)

/-! ## `CSimpleBuffer` -/

/-- Writing through one stream and reading through a second one over the same buffer. -/
def transfer (s : CByteStream) (values : List Value) : Except Fault (List (Option Content)) := do
  let written ← s.writeAll values
  let (contents, _) ← written.reopen.readAll (values.map Value.kind)
  return contents

/-- An empty `CSimpleBuffer` transfers the values as the fixed buffer does. -/
def Transfer.Agrees (t : Transfer) : Prop :=
  ∃ contents, transfer (.ofBuffer t.buffer.bytes) t.values = .ok contents ∧
    transfer (.ofSimple .new 0) t.values = .ok contents

section Simple

variable {s s' : CByteStream} {buf : CSimpleBuffer}

/-- A stream keeps its backing. -/
theorem writeByte_simple {data : List UInt8} (hs : s.backing = .simple buf)
    (h : s.writeByte data = .ok s') : ∃ buf', s'.backing = .simple buf' := by
  rw [CByteStream.writeByte, hs] at h
  cases hwrite : buf.write data with
  | error fault => simp [hwrite] at h
  | ok buf' =>
      simp only [hwrite, Except.ok.injEq] at h
      exact ⟨buf', h ▸ rfl⟩

theorem writeBlock_simple {data : List UInt8} (hs : s.backing = .simple buf)
    (h : s.writeBlock data = .ok s') : ∃ buf', s'.backing = .simple buf' := by
  rw [CByteStream.writeBlock] at h
  cases hlen : s.writeNumber .uint32 (UInt32.ofNat data.length) with
  | error fault => rw [hlen] at h; cases h
  | ok s'' =>
      obtain ⟨buf', hbuf'⟩ := writeByte_simple hs hlen
      rw [hlen] at h
      exact writeByte_simple hbuf' h

theorem write_simple {value : Value} (hs : s.backing = .simple buf)
    (h : s.write value = .ok s') : ∃ buf', s'.backing = .simple buf' := by
  cases value with
  | number t n => exact writeByte_simple hs h
  | cString str => exact writeBlock_simple hs h
  | string str => exact writeBlock_simple hs h
  | data bytes => exact writeBlock_simple hs h

theorem writeAll_simple {values : List Value} (hs : s.backing = .simple buf)
    (h : s.writeAll values = .ok s') : ∃ buf', s'.backing = .simple buf' := by
  induction values generalizing s buf with
  | nil =>
      cases h
      exact ⟨buf, hs⟩
  | cons value values ih =>
      rw [CByteStream.writeAll] at h
      cases hwrite : s.write value with
      | error fault => rw [hwrite] at h; cases h
      | ok s'' =>
          obtain ⟨buf', hbuf'⟩ := write_simple hs hwrite
          rw [hwrite] at h
          exact ih hbuf' h

/-- `len_` is 0, so the first read throws. -/
theorem read_ofSimple (buf : CSimpleBuffer) (kind : Kind) :
    (CByteStream.ofSimple buf 0).read kind = .error (.exception parseFailed) := by
  have hnumber : ∀ t : IntType, (CByteStream.ofSimple buf 0).readNumber t =
      .error (.exception parseFailed) := by
    intro t
    rw [CByteStream.readNumber, CByteStream.readByte, if_pos]
    · rfl
    · show 0 < add32 0 t.width
      cases t <;> decide
  cases kind with
  | number t =>
      rw [CByteStream.read, hnumber]
      rfl
  | string =>
      rw [CByteStream.read, CByteStream.readString, CByteStream.readBlock, hnumber]
      rfl
  | data =>
      rw [CByteStream.read, CByteStream.readData, CByteStream.readBlock, hnumber]
      rfl

/-- So nothing that was written comes back. -/
theorem transfer_simple {value : Value} {values : List Value} {contents : List (Option Content)} :
    transfer (.ofSimple .new 0) (value :: values) ≠ .ok contents := by
  intro h
  rw [transfer] at h
  cases hwrite : (CByteStream.ofSimple .new 0).writeAll (value :: values) with
  | error fault => rw [hwrite] at h; cases h
  | ok written =>
      obtain ⟨buf, hbuf⟩ := writeAll_simple rfl hwrite
      have hreopen : written.reopen = .ofSimple buf 0 := by
        rw [CByteStream.reopen, hbuf]
      have hread : written.reopen.readAll ((value :: values).map Value.kind) =
          .error (.exception parseFailed) := by
        rw [hreopen, List.map_cons, CByteStream.readAll, read_ofSimple]
        rfl
      rw [hwrite] at h
      have hrest : (written.reopen.readAll ((value :: values).map Value.kind) >>= fun result =>
        Except.ok result.1) = .ok contents := h
      rw [hread] at hrest
      cases hrest

end Simple

theorem Transfer.transfer_fixed (t : Transfer) : transfer (.ofBuffer t.buffer.bytes) t.values =
    .ok (t.values.map fun value => some value.content) := by
  rw [transfer, t.writeAll_eq]
  show ((CByteStream.ofBuffer t.filled).readAll (t.values.map Value.kind) >>= fun result =>
    Except.ok result.1) = _
  rw [t.readAll_eq]
  rfl

/-- The two buffers agree exactly when there is nothing to transfer. -/
theorem Transfer.agrees_iff (t : Transfer) : t.Agrees ↔ t.values = [] := by
  have hfixed := t.transfer_fixed
  rw [Agrees, hfixed]
  cases hvalues : t.values with
  | nil => exact iff_of_true ⟨[], rfl, rfl⟩ rfl
  | cons value values =>
      refine iff_of_false ?_ (List.cons_ne_nil _ _)
      rintro ⟨contents, _, hsimple⟩
      exact transfer_simple hsimple

/-- One byte. -/
def oneByte : Transfer := ⟨[.number .uint8 (7 : UInt8)], ⟨[0], by decide⟩, by decide⟩

/-- It is written to both buffers, and read from the fixed one alone. -/
theorem not_agrees_oneByte : ¬ oneByte.Agrees := by
  rintro ⟨contents, _, hsimple⟩
  exact transfer_simple hsimple

end Pdu
end TcMuzi
