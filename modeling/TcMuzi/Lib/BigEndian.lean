import Mathlib.Algebra.Order.Ring.Int
import Mathlib.Tactic.LinearCombination
import Mathlib.Tactic.Positivity
import Mathlib.Tactic.Ring

/-!
# Numbers as big-endian bytes

The bytes of an integer by shifts, the highest one first, and the number that shifts put
together from bytes.  What comes back is the integer modulo `256 ^ width`, so a type with as
many values loses nothing.
-/

namespace TcMuzi
namespace Lib
namespace BigEndian

/-- The lowest `width` bytes, by arithmetic shifts. -/
def toBytes : Nat → Int → List UInt8
  | 0, _ => []
  | width + 1, n => UInt8.ofInt (n >>> (8 * width)) :: toBytes width n

/-- `(bytes[0] << …) | … | bytes[width - 1]`, behind a number that is already there. -/
def ofBytesFrom (n : Nat) (bytes : List UInt8) : Nat :=
  bytes.foldl (fun n b => n <<< 8 ||| b.toNat) n

def ofBytes (bytes : List UInt8) : Nat := ofBytesFrom 0 bytes

@[simp] theorem length_toBytes (width : Nat) (n : Int) : (toBytes width n).length = width := by
  induction width with
  | zero => rfl
  | succ width ih => rw [toBytes, List.length_cons, ih]

theorem shiftLeft_or (n : Nat) (b : UInt8) : n <<< 8 ||| b.toNat = n * 256 + b.toNat := by
  rw [← Nat.shiftLeft_add_eq_or_of_lt b.toNat_lt, Nat.shiftLeft_eq]

theorem ofBytesFrom_cons (n : Nat) (b : UInt8) (bytes : List UInt8) :
    ofBytesFrom n (b :: bytes) = ofBytesFrom (n * 256 + b.toNat) bytes := by
  rw [ofBytesFrom, List.foldl_cons, shiftLeft_or]
  rfl

theorem toNat_ofInt (n : Int) : ((UInt8.ofInt n).toNat : Int) = n % 256 := by
  rw [UInt8.ofInt, UInt8.toNat_ofNat']
  omega

/-- The bytes of a number bring it back behind what is there. -/
theorem ofBytesFrom_toBytes (width n : Nat) (k : Int) :
    (ofBytesFrom n (toBytes width k) : Int) = n * 256 ^ width + k % 256 ^ width := by
  induction width generalizing n with
  | zero => simp [toBytes, ofBytesFrom]
  | succ width ih =>
      have hshift : k >>> (8 * width) = k / 256 ^ width := by
        rw [Int.shiftRight_eq_div_pow, pow_mul]
        norm_num
      have hsplit : k % 256 ^ (width + 1) =
          k / 256 ^ width % 256 * 256 ^ width + k % 256 ^ width := by
        have hmod := Int.emod_add_mul_ediv k (256 ^ width * 256)
        have hlow := Int.emod_add_mul_ediv k (256 ^ width)
        have hhigh := Int.emod_add_mul_ediv (k / 256 ^ width) 256
        have hquotient : k / 256 ^ width / 256 = k / (256 ^ width * 256) :=
          Int.ediv_ediv_of_nonneg (by positivity)
        rw [hquotient] at hhigh
        rw [pow_succ]
        linear_combination hmod - hlow - 256 ^ width * hhigh
      rw [toBytes, ofBytesFrom_cons, ih, hshift, Nat.cast_add, Nat.cast_mul, toNat_ofInt, hsplit]
      rw [Nat.cast_ofNat, pow_succ]
      ring

/-- Writing and reading keeps a number modulo `256 ^ width`. -/
theorem ofBytes_toBytes (width : Nat) (n : Int) :
    (ofBytes (toBytes width n) : Int) = n % 256 ^ width := by
  rw [ofBytes, ofBytesFrom_toBytes]
  simp

example : toBytes 2 (-2) = [255, 254] ∧ ofBytes [255, 254] = 65534 := by decide

end BigEndian
end Lib
end TcMuzi
