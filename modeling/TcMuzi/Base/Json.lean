import TcMuzi.Base.CString

/-!
# JSON values

The part of the bundled jsoncpp that the handlers use: the value type, member
access and the conversions `asString` and `asInt`.  `none` stands for the
`std::runtime_error` these throw.  Strings are stored as C strings, so
`asString` never yields a NUL.  `Reader::parse` itself is a parameter of the
entry points.
-/

namespace TcMuzi
namespace Base

/-- `Json::Value`.  A `real` carries its printed form and its value; an infinite one has a value
beyond all `double`s. -/
inductive Json
  | null
  | bool (b : Bool)
  | int (n : Int)
  | real (text : CString) (value : Rat)
  | str (s : CString)
  | arr (items : List Json)
  | obj (members : List (CString × Json))

namespace Json

/-- `Value::isNull`. -/
def isNull : Json → Bool
  | null => true
  | _ => false

/-- `root[key]`: throws unless `root` is null or an object. -/
def member : Json → CString → Option Json
  | null, _ => some null
  | obj members, key =>
      match members.find? fun m => m.1 = key with
      | some m => some m.2
      | none => some null
  | _, _ => none

/-- `Value::asString`. -/
def asString : Json → Option CString
  | null => some CString.empty
  | str s => some s
  | bool true => some (CString.lit "true")
  | bool false => some (CString.lit "false")
  | int n => some (CString.ofInt n)
  | real text _ => some text
  | arr _ => none
  | obj _ => none

/-- `Value::asInt`: the `double` itself has to be in range, not what is left of it. -/
def asInt : Json → Option Int
  | null => some 0
  | bool b => some (if b then 1 else 0)
  | int n => if -2147483648 ≤ n ∧ n ≤ 2147483647 then some n else none
  | real _ x =>
      if -2147483648 ≤ x ∧ x ≤ 2147483647 then some (x.num.tdiv x.den) else none
  | str _ => none
  | arr _ => none
  | obj _ => none

example : (real CString.empty ⟨4294967295, 2, by decide, by decide⟩).asInt = none := by decide

/-- An object with a `code` member and further members, as the `encode…Json`
functions build it. -/
def withCode (code : Int) (members : List (CString × Json)) : Json :=
  obj ((CString.lit "code", int code) :: members)

/-- The integer `code` member of a response. -/
def code : Json → Option Int
  | obj members =>
      match members.find? fun m => m.1 = CString.lit "code" with
      | some (_, int n) => some n
      | _ => none
  | _ => none

@[simp] theorem code_withCode (n : Int) (members : List (CString × Json)) :
    (withCode n members).code = some n := by
  simp [withCode, code]

end Json

/-- A value with the writer of its text: `FastWriter`, or `toStyledString`. -/
inductive Written
  | fast (root : Json)
  | styled (root : Json)

@[simp] def Written.root : Written → Json
  | fast root => root
  | styled root => root

instance : Coe Json Written := ⟨Written.fast⟩

/-- `Json::Reader::parse`: `none` when it returns false. -/
abbrev JsonReader := List UInt8 → Option Json

end Base
end TcMuzi
