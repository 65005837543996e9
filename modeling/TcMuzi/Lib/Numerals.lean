import Mathlib.Algebra.GroupWithZero.Nat
import TcMuzi.Lib.Decimal

/-!
# Reading digits one by one

`extend value digits` is the value of a numeral that goes on: what a loop
`value = value * 10 + digit` ends with.  Without a leading zero it is printed as it was read
(`ofNat_extend`).
-/

namespace TcMuzi
namespace Lib
namespace Decimal

/-- The value of more digits behind `value`. -/
def extend (value : Nat) (digits : List UInt8) : Nat :=
  Nat.ofDigitChars 10 (digits.map charOf) value

theorem extend_zero (digits : List UInt8) : extend 0 digits = natValue digits := rfl

theorem toNat_digit {c : UInt8} (h : isDigit c = true) :
    48 ≤ c.toNat ∧ c.toNat ≤ 57 := by
  rw [isDigit, Bool.and_eq_true, decide_eq_true_eq, decide_eq_true_eq,
    UInt8.le_iff_toNat_le, UInt8.le_iff_toNat_le] at h
  exact h

theorem toNat_sub_digit {c : UInt8} (h : isDigit c = true) :
    (c - 48).toNat = c.toNat - 48 :=
  UInt8.toNat_sub_of_le c 48 (UInt8.le_iff_toNat_le.mpr (toNat_digit h).1)

theorem extend_cons {c : UInt8} (h : isDigit c = true) (value : Nat)
    (digits : List UInt8) :
    extend value (c :: digits) = extend (value * 10 + (c - 48).toNat) digits := by
  obtain ⟨hlo, hhi⟩ := toNat_digit h
  have hvalid : c.toNat.isValidChar := .inl (by omega)
  have hchar : (charOf c).toNat = c.toNat := by
    rw [charOf, Char.ofNat, dif_pos hvalid]
    rfl
  rw [extend, List.map_cons, Nat.ofDigitChars_cons, hchar, toNat_sub_digit h, extend,
    Nat.mul_comm]
  rfl

theorem le_extend (value : Nat) (digits : List UInt8) :
    10 ^ digits.length * value ≤ extend value digits := by
  rw [extend, Nat.ofDigitChars_eq_ofDigitChars_zero, List.length_map]
  exact Nat.le_add_right _ _

theorem mul_ten_le_extend {value : Nat} {digits : List UInt8} (h : digits ≠ []) :
    value * 10 ≤ extend value digits := by
  obtain ⟨c, tail, rfl⟩ := List.exists_cons_of_ne_nil h
  have hle := le_extend value (c :: tail)
  have hpow : 10 ≤ 10 ^ (c :: tail).length := Nat.le_self_pow (by simp) 10
  calc value * 10 ≤ value * 10 ^ (c :: tail).length := Nat.mul_le_mul_left value hpow
    _ ≤ extend value (c :: tail) := by rw [Nat.mul_comm]; exact hle

theorem self_le_extend (value : Nat) (digits : List UInt8) : value ≤ extend value digits :=
  (Nat.le_mul_of_pos_left value (Nat.pow_pos (by decide))).trans (le_extend value digits)

theorem ofNat_digit {c : UInt8} (h : isDigit c = true) : ofNat (c - 48).toNat = [c] := by
  obtain ⟨hlo, hhi⟩ := toNat_digit h
  have hdigits : ∀ n < 10, ofNat n = [UInt8.ofNat (48 + n)] := by decide
  rw [toNat_sub_digit h, hdigits _ (by omega), Nat.add_sub_cancel' hlo, UInt8.ofNat_toNat]

theorem ofNat_append_digit {value : Nat} (hvalue : 0 < value) {c : UInt8} (h : isDigit c = true) :
    ofNat (value * 10 + (c - 48).toNat) = ofNat value ++ [c] := by
  have hlt : (c - 48).toNat < 10 := by
    have := toNat_digit h
    rw [toNat_sub_digit h]
    omega
  have happend := Nat.toDigits_append_toDigits (b := 10) (n := value) (d := (c - 48).toNat)
    (by decide) hvalue hlt
  rw [ofNat, Nat.mul_comm, ← happend, List.map_append]
  exact congrArg (ofNat value ++ ·) (ofNat_digit h)

/-- Digits behind a positive number are printed as they were read. -/
theorem ofNat_extend {value : Nat} (hvalue : 0 < value) {digits : List UInt8}
    (h : ∀ c ∈ digits, isDigit c = true) : ofNat (extend value digits) = ofNat value ++ digits := by
  induction digits generalizing value with
  | nil => exact (List.append_nil _).symm
  | cons c digits ih =>
      have hc := h c List.mem_cons_self
      rw [extend_cons hc, ih (by omega) (fun b hb => h b (List.mem_cons_of_mem c hb)),
        ofNat_append_digit hvalue hc, List.append_assoc, List.singleton_append]

end Decimal
end Lib
end TcMuzi
