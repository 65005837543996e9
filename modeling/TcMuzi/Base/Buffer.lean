import TcMuzi.Base.TcCommon

/-!
# Where `TrimSpace` looks

`TrimSpace` works on a buffer in place.  Its two loops look for the first and the last byte
to keep; a position outside the buffer has no byte.
-/

namespace TcMuzi
namespace Base

/-- `strlen`: a buffer without a NUL has no end. -/
def strlen (buf : List UInt8) : Option Nat :=
  if 0 ∈ buf then some (buf.idxOf 0) else none

/-- The first loop, from position `i` on. -/
def skipFront (buf : List UInt8) : Nat → Nat → Option Nat
  | 0, _ => none
  | fuel + 1, i =>
      match buf[i]? with
      | none => none
      | some b =>
          if Lib.Decimal.isSpace b ∧ b ≠ 0 then skipFront buf fuel (i + 1) else some i

/-- The second loop, from the position below `k` down to `i`.  Below 0 there is nothing to
look at. -/
def skipBack (buf : List UInt8) (i : Nat) : Nat → Option Nat
  | 0 => none
  | k + 1 =>
      match buf[k]? with
      | none => none
      | some b => if Lib.Decimal.isSpace b ∧ i < k then skipBack buf i k else some k

/-- The positions of the first and the last byte that `TrimSpace` keeps. -/
def trimEnds (buf : List UInt8) : Option (Nat × Nat) := do
  let length ← strlen buf
  let first ← skipFront buf (buf.length + 1) 0
  let last ← skipBack buf first length
  return (first, last)

/-- The first loop stops at the terminator at the latest. -/
theorem skipFront_isSome {buf : List UInt8} {i n fuel : Nat} (hin : i ≤ n) (hend : buf[n]? = some 0)
    (hfuel : n < i + fuel) : (skipFront buf fuel i).isSome := by
  induction fuel generalizing i with
  | zero => omega
  | succ fuel ih =>
      have hlen : n < buf.length := (List.getElem?_eq_some_iff.mp hend).1
      obtain ⟨b, hb⟩ : ∃ b, buf[i]? = some b := ⟨buf[i], List.getElem?_eq_getElem (by omega)⟩
      simp only [skipFront, hb]
      by_cases hspace : Lib.Decimal.isSpace b ∧ b ≠ 0
      · rw [if_pos hspace]
        have hne : i ≠ n := by
          rintro rfl
          exact hspace.2 (Option.some.inj (hb.symm.trans hend))
        exact ih (by omega) (by omega)
      · simp [hspace]

/-- The second loop stops before it leaves the buffer, unless it starts in front of it. -/
theorem skipBack_isSome_iff {buf : List UInt8} {i k : Nat} (hlen : k ≤ buf.length) :
    (skipBack buf i k).isSome ↔ 0 < k := by
  induction k with
  | zero => simp [skipBack]
  | succ k ih =>
      obtain ⟨b, hb⟩ : ∃ b, buf[k]? = some b := ⟨buf[k], List.getElem?_eq_getElem (by omega)⟩
      simp only [skipBack, hb]
      by_cases hspace : Lib.Decimal.isSpace b ∧ i < k
      · rw [if_pos hspace, ih (by omega)]
        omega
      · simp [hspace]

/-- `TrimSpace` stays inside its buffer exactly on a terminated text that is not empty. -/
theorem trimEnds_isSome_iff (buf : List UInt8) :
    (trimEnds buf).isSome ↔ 0 ∈ buf ∧ buf.head? ≠ some 0 := by
  unfold trimEnds strlen
  by_cases hzero : 0 ∈ buf
  · have hlen : buf.idxOf 0 < buf.length := List.idxOf_lt_length_of_mem hzero
    have hend : buf[buf.idxOf 0]? = some 0 := by
      rw [List.getElem?_eq_getElem hlen, List.getElem_idxOf hlen]
    have hfront : (skipFront buf (buf.length + 1) 0).isSome :=
      skipFront_isSome (Nat.zero_le _) hend (by omega)
    obtain ⟨first, hfirst⟩ := Option.isSome_iff_exists.mp hfront
    have hback := skipBack_isSome_iff (i := first) hlen.le
    have hpos : 0 < buf.idxOf 0 ↔ buf.head? ≠ some 0 := by
      cases buf with
      | nil => simp at hzero
      | cons b bs => by_cases hb : b = 0 <;> simp [hb]
    rw [← hpos, ← hback]
    simp only [hzero, if_true, hfirst, Option.bind_eq_bind, Option.bind_some]
    cases skipBack buf first (buf.idxOf 0) <;> simp
  · simp [hzero]

end Base
end TcMuzi
