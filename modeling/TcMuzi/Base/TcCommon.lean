import TcMuzi.Base.CString
import TcMuzi.Lib.Search

/-!
# String helpers of `tc_common.cc`

`QueryParseKeyValue`, `TrimSpace` and `GetFileSuffix`, on bytes.
-/

namespace TcMuzi
namespace Base

/-- `strstr` and `std::search`: the text from the first occurrence on. -/
def strstr (needle : List UInt8) : List UInt8 → Option (List UInt8)
  | [] => if needle = [] then some [] else none
  | b :: bs => if needle.isPrefixOf (b :: bs) then some (b :: bs) else strstr needle bs

theorem strstr_eq_find (needle hay : List UInt8) :
    strstr needle hay = Lib.Search.find needle hay := by
  induction hay with
  | nil => rfl
  | cons b hay ih => rw [strstr, Lib.Search.find, ih]

/-- `QueryParseKeyValue`: the text after the first occurrence of the key and one
more byte, up to a `#`, a `&` or the end.  `none` when the caller's buffer is not
written: no occurrence, or nothing behind it. -/
def queryParseKeyValue (query key : CString) : Option CString :=
  match strstr key.bytes query.bytes with
  | none => none
  | some found =>
      match found.drop key.length with
      | [] => none
      | _ :: value => some (CString.cStr (value.takeWhile fun b => b ≠ 35 && b ≠ 38))

/-- What `QueryParseKeyValue` returns, also when the scan starts behind the terminator. -/
def queryParseKeyValueRet (query key : CString) : Int :=
  if (strstr key.bytes query.bytes).isSome then 0 else -1

/-- `TrimSpace`. -/
def trimSpace (s : CString) : CString :=
  CString.cStr (((s.bytes.dropWhile Lib.Decimal.isSpace).reverse.dropWhile
    Lib.Decimal.isSpace).reverse)

/-- `GetFileSuffix`: the text after the last dot, `null` when there is none. -/
def getFileSuffix (fileName : CString) : CString :=
  let suffix := (fileName.bytes.reverse.takeWhile (· ≠ 46)).reverse
  if 46 ∈ fileName.bytes ∧ suffix ≠ [] then CString.cStr suffix else CString.lit "null"

end Base
end TcMuzi
