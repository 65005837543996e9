import Mathlib.Data.List.TakeWhile
import Mathlib.Tactic.Common

/-!
# Decimal numerals as bytes

Printing an integer in base ten, the strict parser that accepts exactly the
printed forms inside a range, and the lenient C parser that reads a leading
numeral and ignores what follows.
-/

namespace TcMuzi
namespace Lib
namespace Decimal

/-- The ASCII byte of a character. -/
def byteOf (c : Char) : UInt8 :=
  UInt8.ofNat c.toNat

/-- The character of an ASCII byte. -/
def charOf (b : UInt8) : Char :=
  Char.ofNat b.toNat

/-- The minus sign. -/
def minus : UInt8 := 45

/-- Decimal digits of a natural number, most significant first. -/
def ofNat (n : Nat) : List UInt8 :=
  (Nat.toDigits 10 n).map byteOf

/-- Decimal form of an integer. -/
def ofInt : Int → List UInt8
  | .ofNat n => ofNat n
  | .negSucc n => minus :: ofNat (n + 1)

/-- Value of a string of digits, whatever its bytes are. -/
def natValue (bytes : List UInt8) : Nat :=
  Nat.ofDigitChars 10 (bytes.map charOf) 0

/-- Value of an optionally negated string of digits. -/
def intValue : List UInt8 → Int
  | [] => 0
  | b :: bs => if b = minus then -(natValue bs : Int) else natValue (b :: bs)

/-- The strict parser: a string is accepted when it is the decimal form of an
integer between `lo` and `hi`. -/
def parse (lo hi : Int) (bytes : List UInt8) : Option Int :=
  if ofInt (intValue bytes) = bytes ∧ lo ≤ intValue bytes ∧ intValue bytes ≤ hi then
    some (intValue bytes)
  else
    none

/-- ASCII digits. -/
def isDigit (b : UInt8) : Bool :=
  48 ≤ b && b ≤ 57

/-- ASCII white space, as `isspace` in the C locale. -/
def isSpace (b : UInt8) : Bool :=
  b == 32 || (9 ≤ b && b ≤ 13)

/-- An optional sign and what follows it. -/
def splitSign : List UInt8 → Bool × List UInt8
  | [] => (false, [])
  | b :: bs =>
      if b = minus then (true, bs)
      else if b = 43 then (false, bs)
      else (false, b :: bs)

/-- The digits after white space and a sign, with the sign; the rest is ignored. -/
def leadingDigits (bytes : List UInt8) : Bool × List UInt8 :=
  let (negative, rest) := splitSign (bytes.dropWhile isSpace)
  (negative, rest.takeWhile isDigit)

/-- The lenient parser, 0 when there is no digit. -/
def lenient (bytes : List UInt8) : Int :=
  let (negative, digits) := leadingDigits bytes
  if negative then -(natValue digits : Int) else natValue digits

theorem charOf_byteOf {c : Char} (h : c.isDigit) : charOf (byteOf c) = c := by
  have hlt : c.toNat < 256 := by
    simp only [Char.isDigit, Bool.and_eq_true, decide_eq_true_eq] at h
    have : c.val ≤ 57 := h.2
    have : c.val.toNat ≤ 57 := this
    simp only [Char.toNat]
    omega
  simp only [charOf, byteOf, UInt8.toNat_ofNat']
  rw [Nat.mod_eq_of_lt (by simpa using hlt)]
  exact Char.ofNat_toNat c

/-- The digits read back the number. -/
theorem natValue_ofNat (n : Nat) : natValue (ofNat n) = n := by
  have hchars : (ofNat n).map charOf = Nat.toDigits 10 n := by
    rw [ofNat, List.map_map]
    conv_rhs => rw [← List.map_id (Nat.toDigits 10 n)]
    apply List.map_congr_left
    intro c hc
    exact charOf_byteOf (Nat.isDigit_of_mem_toDigits (by omega) (by omega) hc)
  rw [natValue, hchars]
  exact Nat.ofDigitChars_ten_toDigits

/-- Digits never start with a minus sign. -/
theorem ofNat_ne_minus_cons (n : Nat) (bs : List UInt8) : ofNat n ≠ minus :: bs := by
  intro h
  have hmem : minus ∈ ofNat n := by simp [h]
  obtain ⟨c, hc, hbyte⟩ := List.mem_map.mp hmem
  have hdigit := Nat.isDigit_of_mem_toDigits (by omega) (by omega) hc
  have hback := charOf_byteOf hdigit
  rw [hbyte] at hback
  subst hback
  revert hdigit
  decide

/-- Printing and reading back an integer. -/
theorem intValue_ofInt (n : Int) : intValue (ofInt n) = n := by
  cases n with
  | ofNat n =>
      have hvalue := natValue_ofNat n
      cases hdigits : ofNat n with
      | nil =>
          rw [hdigits] at hvalue
          simp only [ofInt, hdigits, intValue]
          simpa [natValue] using congrArg (fun k : Nat => (k : Int)) hvalue
      | cons b bs =>
          have hb : b ≠ minus := fun h => ofNat_ne_minus_cons n bs (h ▸ hdigits)
          rw [hdigits] at hvalue
          simp [ofInt, hdigits, intValue, hb, hvalue]
  | negSucc n =>
      simp only [ofInt, intValue, if_true, natValue_ofNat]
      omega

/-- Decimal forms determine the integer. -/
theorem ofInt_injective : Function.Injective ofInt := by
  intro m n h
  have := congrArg intValue h
  rwa [intValue_ofInt, intValue_ofInt] at this

/-- The strict parser accepts a decimal form inside its range. -/
theorem parse_ofInt {lo hi n : Int} (hlo : lo ≤ n) (hhi : n ≤ hi) :
    parse lo hi (ofInt n) = some n := by
  simp [parse, intValue_ofInt, hlo, hhi]

/-- The strict parser accepts nothing but decimal forms inside its range. -/
theorem parse_eq_some_iff {lo hi n : Int} {bytes : List UInt8} :
    parse lo hi bytes = some n ↔ bytes = ofInt n ∧ lo ≤ n ∧ n ≤ hi := by
  constructor
  · intro h
    unfold parse at h
    split at h
    · rename_i hform
      obtain rfl := Option.some.inj h
      exact ⟨hform.1.symm, hform.2⟩
    · simp at h
  · rintro ⟨rfl, hlo, hhi⟩
    exact parse_ofInt hlo hhi

/-- Decimal forms contain no NUL byte. -/
theorem zero_notMem_ofInt (n : Int) : (0 : UInt8) ∉ ofInt n := by
  have hnat : ∀ k : Nat, (0 : UInt8) ∉ ofNat k := by
    intro k hmem
    obtain ⟨c, hc, hbyte⟩ := List.mem_map.mp hmem
    have hdigit := Nat.isDigit_of_mem_toDigits (by omega) (by omega) hc
    have hback := charOf_byteOf hdigit
    rw [hbyte] at hback
    subst hback
    revert hdigit
    decide
  cases n with
  | ofNat k => exact hnat k
  | negSucc k =>
      simp only [ofInt, List.mem_cons, not_or]
      exact ⟨by decide, hnat _⟩

/-- The bytes of a decimal form are digits. -/
theorem isDigit_of_mem_ofNat {n : Nat} {b : UInt8} (h : b ∈ ofNat n) : isDigit b := by
  obtain ⟨c, hc, rfl⟩ := List.mem_map.mp h
  have hdigit := Nat.isDigit_of_mem_toDigits (by omega) (by omega) hc
  simp only [Char.isDigit, Bool.and_eq_true, decide_eq_true_eq] at hdigit
  have hlo : 48 ≤ c.toNat := hdigit.1
  have hhi : c.toNat ≤ 57 := hdigit.2
  have hbyte : (byteOf c).toNat = c.toNat := by
    rw [byteOf, UInt8.toNat_ofNat']
    omega
  rw [isDigit, Bool.and_eq_true, decide_eq_true_eq, decide_eq_true_eq, UInt8.le_iff_toNat_le,
    UInt8.le_iff_toNat_le, hbyte]
  exact ⟨hlo, hhi⟩

/-- A digit is neither a space nor a sign. -/
theorem splitSign_of_digits {bytes : List UInt8} (h : ∀ b ∈ bytes, isDigit b) :
    bytes.dropWhile isSpace = bytes ∧ splitSign bytes = (false, bytes) := by
  cases bytes with
  | nil => exact ⟨rfl, rfl⟩
  | cons b bs =>
      have hb := h b (List.mem_cons_self ..)
      have hspace : isSpace b = false := by
        rw [isDigit, Bool.and_eq_true, decide_eq_true_eq, decide_eq_true_eq,
          UInt8.le_iff_toNat_le, UInt8.le_iff_toNat_le] at hb
        rw [isSpace, Bool.or_eq_false_iff, Bool.and_eq_false_iff, beq_eq_false_iff_ne,
          decide_eq_false_iff_not, decide_eq_false_iff_not, UInt8.le_iff_toNat_le,
          UInt8.le_iff_toNat_le]
        have h48 : (48 : UInt8).toNat = 48 := rfl
        have h13 : (13 : UInt8).toNat = 13 := rfl
        refine ⟨?_, Or.inr (by omega)⟩
        rintro rfl
        revert hb
        decide
      have hminus : b ≠ minus := by
        rintro rfl
        revert hb
        decide
      have hplus : b ≠ 43 := by
        rintro rfl
        revert hb
        decide
      refine ⟨by rw [List.dropWhile_cons, hspace]; rfl, ?_⟩
      rw [splitSign, if_neg hminus, if_neg hplus]

/-- The lenient parser reads back every decimal form. -/
theorem lenient_ofInt (n : Int) : lenient (ofInt n) = n := by
  have hdigits : ∀ k : Nat, ∀ b ∈ ofNat k, isDigit b := fun k b => isDigit_of_mem_ofNat
  have htake : ∀ k : Nat, (ofNat k).takeWhile isDigit = ofNat k := fun k =>
    List.takeWhile_eq_self_iff.mpr (hdigits k)
  cases n with
  | ofNat k =>
      obtain ⟨hspace, hsign⟩ := splitSign_of_digits (hdigits k)
      rw [ofInt, lenient, leadingDigits, hspace, hsign]
      show ((natValue ((ofNat k).takeWhile isDigit) : Nat) : Int) = _
      rw [htake, natValue_ofNat]
      rfl
  | negSucc k =>
      have hspace : (minus :: ofNat (k + 1)).dropWhile isSpace = minus :: ofNat (k + 1) := rfl
      rw [ofInt, lenient, leadingDigits, hspace]
      show -((natValue ((ofNat (k + 1)).takeWhile isDigit) : Nat) : Int) = _
      rw [htake, natValue_ofNat]
      rfl

example : ofInt (-12) = [45, 49, 50] := by decide

end Decimal
end Lib
end TcMuzi
