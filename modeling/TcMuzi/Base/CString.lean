import TcMuzi.Base.Int32
import TcMuzi.Lib.Decimal
import TcMuzi.Lib.FirstOccurrence

/-!
# C strings

Every string that the handlers put into an SQL text or a Redis command is
passed as `c_str()`, so its bytes end at the first NUL.  `CString` is a byte
string that contains no NUL; `cStr` is what `c_str()` of an arbitrary
`std::string` shows to `%s`.
-/

namespace TcMuzi
namespace Base

/-- A NUL-free byte string. -/
structure CString where
  bytes : List UInt8
  nulFree : (0 : UInt8) ∉ bytes
deriving DecidableEq

namespace CString

@[ext] theorem ext {s t : CString} (h : s.bytes = t.bytes) : s = t := by
  cases s
  cases t
  simpa using h

/-- `std::string::c_str()` read as a C string: the bytes before the first NUL. -/
def cStr (bytes : List UInt8) : CString where
  bytes := bytes.takeWhile (· ≠ 0)
  nulFree := by
    intro h
    simpa using List.mem_takeWhile_imp h

/-- The text of an ASCII literal of the source. -/
def lit (s : String) : CString :=
  cStr (s.toList.map Lib.Decimal.byteOf)

theorem bytes_lit (l : List Char) :
    (lit (String.ofList l)).bytes = (l.map Lib.Decimal.byteOf).takeWhile (· ≠ 0) := by
  rw [lit, String.toList_ofList]
  rfl

/-- Concatenation, as `%s%s` and `std::string` `+` do. -/
def append (s t : CString) : CString where
  bytes := s.bytes ++ t.bytes
  nulFree := by
    rw [List.mem_append]
    exact fun h => h.elim s.nulFree t.nulFree

instance : Append CString := ⟨append⟩

@[simp] theorem bytes_append (s t : CString) : (s ++ t).bytes = s.bytes ++ t.bytes := rfl

/-- `strlen`. -/
def length (s : CString) : Nat := s.bytes.length

@[simp] theorem length_append (s t : CString) : (s ++ t).length = s.length + t.length := by
  simp [length]

theorem bytes_cStr {bytes : List UInt8} (h : (0 : UInt8) ∉ bytes) :
    (cStr bytes).bytes = bytes :=
  Lib.takeWhile_ne_self h

theorem bytes_cStr_eq_iff {bytes : List UInt8} :
    (cStr bytes).bytes = bytes ↔ (0 : UInt8) ∉ bytes :=
  Lib.takeWhile_ne_eq_self_iff

theorem bytes_cStr_append_left {bytes : List UInt8} (h : (0 : UInt8) ∉ bytes)
    (rest : List UInt8) : (cStr (bytes ++ rest)).bytes = bytes ++ (cStr rest).bytes :=
  Lib.takeWhile_ne_append_left h rest

/-- What stands behind a terminator is not read. -/
theorem bytes_cStr_append {bytes : List UInt8} (h : (0 : UInt8) ∉ bytes) (rest : List UInt8) :
    (cStr (bytes ++ 0 :: rest)).bytes = bytes :=
  Lib.takeWhile_ne_append h rest

/-- A NUL-free string is its own `c_str()`. -/
@[simp] theorem cStr_bytes (s : CString) : cStr s.bytes = s := by
  ext1
  exact bytes_cStr s.nulFree

/-- Concatenations with first parts of one length have equal parts. -/
theorem append_inj {s s' t t' : CString} (h : s ++ t = s' ++ t') (hlen : s.length = s'.length) :
    s = s' ∧ t = t' := by
  have hbytes : s.bytes ++ t.bytes = s'.bytes ++ t'.bytes := congrArg CString.bytes h
  obtain ⟨hs, ht⟩ := List.append_inj hbytes hlen
  exact ⟨CString.ext hs, CString.ext ht⟩

/-- What `strncpy` of `n` bytes copies, with a terminator behind it. -/
def strncpy (s : CString) (n : Nat) : CString where
  bytes := s.bytes.take n
  nulFree := fun h => s.nulFree (List.mem_of_mem_take h)

theorem strncpy_eq_self {s : CString} {n : Nat} (h : s.length ≤ n) : s.strncpy n = s :=
  ext (List.take_of_length_le h)

/-- The empty string. -/
def empty : CString := ⟨[], by simp⟩

/-- `std::to_string` of an integer. -/
def ofInt (n : Int) : CString := ⟨Lib.Decimal.ofInt n, Lib.Decimal.zero_notMem_ofInt n⟩

theorem ofInt_injective : Function.Injective ofInt := by
  intro m n h
  exact Lib.Decimal.ofInt_injective (congrArg CString.bytes h)

/-- `atoll`. -/
def atoll (s : CString) : Int := Lib.Decimal.lenient s.bytes

/-- `atoi`: a `strtol` cut down to an `int`. -/
def atoi (s : CString) : Int := wrapInt32 s.atoll

/-- `atoll` of a printed number. -/
@[simp] theorem atoll_ofInt (n : Int) : (ofInt n).atoll = n :=
  Lib.Decimal.lenient_ofInt n

/-- `atoi` of a printed `int`. -/
theorem atoi_ofInt {n : Int} (h : IsInt32 n) : (ofInt n).atoi = n := by
  rw [atoi, atoll_ofInt, wrapInt32_eq h]

/-- `std::stol`: throws without a digit and out of range. -/
def stol (s : CString) : Option Int :=
  if (Lib.Decimal.leadingDigits s.bytes).2 = [] then none
  else if -9223372036854775808 ≤ s.atoll ∧ s.atoll ≤ 9223372036854775807 then some s.atoll
  else none

end CString

end Base
end TcMuzi
