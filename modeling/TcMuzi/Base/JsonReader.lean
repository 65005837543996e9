import Mathlib.Data.List.Lex
import TcMuzi.Base.Json
import TcMuzi.Lib.SortedMap

/-!
# Reading a JSON value

`Json::Reader` of the bundled jsoncpp with the features the handlers use
(`Features::all`): comments are skipped and not kept, a root may be any value, and
what stands behind the root is not read.

* The position of the reader is the list of bytes that are left; `getNextChar` yields
  NUL at their end.
* `false` of the source is `none`: every error ends in `recoverFromError`, which only
  moves the position before it returns `false` as well.
* `sscanf` with `%lf` is a parameter: for a text that it converts it yields the number and
  the text that is printed for it.
-/

namespace TcMuzi
namespace Base
namespace Reader

/-- `sscanf(buffer, "%lf", &value)`, by the printed form of `value` and `value`. -/
abbrev Sscanf := List UInt8 → Option (CString × Rat)

/-- `Reader::TokenType`. -/
inductive TokenType
  | endOfStream
  | objectBegin
  | objectEnd
  | arrayBegin
  | arrayEnd
  | string
  | number
  | true
  | false
  | null
  | arraySeparator
  | memberSeparator
  | comment
  | error
deriving DecidableEq

/-- `Reader::Token`: its type and the bytes from `start_` to `end_`. -/
structure Token where
  type : TokenType
  text : List UInt8

/-! ## Scanning -/

/-- The white space of `skipSpaces`. -/
def isSpace (c : UInt8) : Bool := c = 32 ∨ c = 9 ∨ c = 13 ∨ c = 10

/-- `Reader::skipSpaces`. -/
def skipSpaces (bytes : List UInt8) : List UInt8 := bytes.dropWhile isSpace

/-- `Reader::match`: the position behind the pattern, when the pattern is there. -/
def matchPattern (pattern bytes : List UInt8) : Option (List UInt8) :=
  if bytes.take pattern.length = pattern then some (bytes.drop pattern.length) else none

/-- `Reader::readCStyleComment`: whether the comment is closed, and the position. -/
def readCStyleComment : List UInt8 → Bool × List UInt8
  | [] => (false, [])
  | c :: rest => if c = 42 ∧ rest.head? = some 47 then (true, rest.tail) else readCStyleComment rest

/-- `Reader::readCppStyleComment`: it also ends with the document. -/
def readCppStyleComment : List UInt8 → List UInt8
  | [] => []
  | c :: rest => if c = 13 ∨ c = 10 then rest else readCppStyleComment rest

/-- `Reader::readComment`, behind the first slash. -/
def readComment : List UInt8 → Bool × List UInt8
  | [] => (false, [])
  | c :: rest =>
      if c = 42 then readCStyleComment rest
      else if c = 47 then (true, readCppStyleComment rest)
      else (false, rest)

/-- The bytes that `readNumber` takes. -/
def isNumberByte (c : UInt8) : Bool :=
  Lib.Decimal.isDigit c ∨ c = 46 ∨ c = 101 ∨ c = 69 ∨ c = 43 ∨ c = 45

/-- `Reader::readNumber`. -/
def readNumber (bytes : List UInt8) : List UInt8 := bytes.dropWhile isNumberByte

/-- `Reader::readString`, behind the first quote: whether a closing quote was found, and the
position.  A backslash hides the byte behind it. -/
def readString : List UInt8 → Bool × List UInt8
  | [] => (false, [])
  | c :: rest =>
      if c = 92 then
        match rest with
        | [] => (false, [])
        | _ :: rest => readString rest
      else if c = 34 then (true, rest)
      else readString rest

/-- The `switch` of `Reader::readToken`, at the first byte of the token. -/
def scanToken : List UInt8 → TokenType × List UInt8
  | [] => (.endOfStream, [])
  | c :: rest =>
      if c = 123 then (.objectBegin, rest)
      else if c = 125 then (.objectEnd, rest)
      else if c = 91 then (.arrayBegin, rest)
      else if c = 93 then (.arrayEnd, rest)
      else if c = 34 then
        (if (readString rest).1 then .string else .error, (readString rest).2)
      else if c = 47 then
        (if (readComment rest).1 then .comment else .error, (readComment rest).2)
      else if Lib.Decimal.isDigit c ∨ c = 45 then (.number, readNumber rest)
      else if c = 116 then
        match matchPattern [114, 117, 101] rest with
        | some rest => (.true, rest)
        | none => (.error, rest)
      else if c = 102 then
        match matchPattern [97, 108, 115, 101] rest with
        | some rest => (.false, rest)
        | none => (.error, rest)
      else if c = 110 then
        match matchPattern [117, 108, 108] rest with
        | some rest => (.null, rest)
        | none => (.error, rest)
      else if c = 44 then (.arraySeparator, rest)
      else if c = 58 then (.memberSeparator, rest)
      else if c = 0 then (.endOfStream, rest)
      else (.error, rest)

/-- `Reader::readToken`. -/
def readToken (bytes : List UInt8) : Token × List UInt8 :=
  let start := skipSpaces bytes
  let current := (scanToken start).2
  (⟨(scanToken start).1, start.take (start.length - current.length)⟩, current)

/-- The loop over comments, with a bound on their number. -/
def skipComments : Nat → List UInt8 → Token × List UInt8
  | 0, bytes => readToken bytes
  | fuel + 1, bytes =>
      if (readToken bytes).1.type = .comment then skipComments fuel (readToken bytes).2
      else readToken bytes

/-- `Reader::skipCommentTokens`: the next token that is no comment. -/
def skipCommentTokens (bytes : List UInt8) : Token × List UInt8 :=
  skipComments bytes.length bytes

/-! ## Numbers -/

/-- The ways out of the digit loop of `decodeNumber`. -/
inductive Digits
  | value (n : Nat)
  | notNumber
  | tooLarge

/-- The digit loop of `decodeNumber`: the test against `threshold` comes before the product. -/
def decodeDigits (maxIntegerValue : Nat) : Nat → List UInt8 → Digits
  | value, [] => .value value
  | value, c :: current =>
      if c < 48 ∨ 57 < c then .notNumber
      else
        let digit := (c - 48).toNat
        if maxIntegerValue / 10 ≤ value ∧
            (maxIntegerValue / 10 < value ∨ current ≠ [] ∨ maxIntegerValue % 10 < digit) then
          .tooLarge
        else decodeDigits maxIntegerValue (value * 10 + digit) current

/-- `Reader::decodeDouble`. -/
def decodeDouble (sscanf : Sscanf) (text : List UInt8) : Option Json :=
  (sscanf text).map fun r => .real r.1 r.2

/-- A number with a point, an exponent or an inner sign is a `double`. -/
def isDouble (text : List UInt8) : Bool :=
  text.any (fun c => c = 46 ∨ c = 101 ∨ c = 69 ∨ c = 43) ∨ 45 ∈ text.tail

/-- The largest magnitude: `-minLargestInt` behind a minus sign, otherwise `maxLargestUInt`. -/
def maxIntegerValue (isNegative : Bool) : Nat :=
  if isNegative then 9223372036854775808 else 18446744073709551615

/-- `Reader::decodeNumber`. -/
def decodeNumber (sscanf : Sscanf) (text : List UInt8) : Option Json :=
  if isDouble text then decodeDouble sscanf text
  else
    let isNegative : Bool := text.head? = some 45
    let digits := if isNegative then text.tail else text
    match decodeDigits (maxIntegerValue isNegative) 0 digits with
    | .value value => some (.int (if isNegative then -(value : Int) else value))
    | .notNumber => none
    | .tooLarge => decodeDouble sscanf text

/-! ## Strings -/

/-- One digit of `decodeUnicodeEscapeSequence`. -/
def hexValue (c : UInt8) : Option Nat :=
  if 48 ≤ c ∧ c ≤ 57 then some (c - 48).toNat
  else if 97 ≤ c ∧ c ≤ 102 then some ((c - 97).toNat + 10)
  else if 65 ≤ c ∧ c ≤ 70 then some ((c - 65).toNat + 10)
  else none

/-- `Reader::decodeUnicodeEscapeSequence`. -/
def decodeUnicodeEscapeSequence (current : List UInt8) : Option (Nat × List UInt8) :=
  if current.length < 4 then none
  else do
    let unicode ← (current.take 4).foldlM
      (fun unicode c => (hexValue c).map (unicode * 16 + ·)) 0
    some (unicode, current.drop 4)

/-- `Reader::decodeUnicodeCodePoint`: a high surrogate takes the escape behind it as its low
one, whatever that is. -/
def decodeUnicodeCodePoint (current : List UInt8) : Option (Nat × List UInt8) := do
  let (unicode, current) ← decodeUnicodeEscapeSequence current
  if 0xD800 ≤ unicode ∧ unicode ≤ 0xDBFF then
    if current.length < 6 then none
    else if current.take 2 = [92, 117] then do
      let (surrogatePair, current) ← decodeUnicodeEscapeSequence (current.drop 2)
      some (0x10000 + unicode % 1024 * 1024 + surrogatePair % 1024, current)
    else none
  else some (unicode, current)

/-- `codePointToUTF8`. -/
def codePointToUTF8 (cp : Nat) : List UInt8 :=
  if cp ≤ 0x7f then [UInt8.ofNat cp]
  else if cp ≤ 0x7FF then [UInt8.ofNat (0xC0 + cp / 64 % 32), UInt8.ofNat (0x80 + cp % 64)]
  else if cp ≤ 0xFFFF then
    [UInt8.ofNat (0xE0 + cp / 4096 % 16), UInt8.ofNat (0x80 + cp / 64 % 64),
      UInt8.ofNat (0x80 + cp % 64)]
  else if cp ≤ 0x10FFFF then
    [UInt8.ofNat (0xF0 + cp / 262144 % 8), UInt8.ofNat (0x80 + cp / 4096 % 64),
      UInt8.ofNat (0x80 + cp / 64 % 64), UInt8.ofNat (0x80 + cp % 64)]
  else []

/-- The escapes of one letter. -/
def escapeByte (escape : UInt8) : Option UInt8 :=
  if escape = 34 then some 34
  else if escape = 47 then some 47
  else if escape = 92 then some 92
  else if escape = 98 then some 8
  else if escape = 102 then some 12
  else if escape = 110 then some 10
  else if escape = 114 then some 13
  else if escape = 116 then some 9
  else none

/-- The loop of `decodeString`, from `current` to `end`. -/
def decodeChars : Nat → List UInt8 → Option (List UInt8)
  | _, [] => some []
  | 0, _ :: _ => none
  | fuel + 1, c :: current =>
      if c = 34 then some []
      else if c = 92 then
        match current with
        | [] => none
        | escape :: current =>
            if escape = 117 then do
              let (unicode, current) ← decodeUnicodeCodePoint current
              let decoded ← decodeChars fuel current
              some (codePointToUTF8 unicode ++ decoded)
            else do
              let b ← escapeByte escape
              let decoded ← decodeChars fuel current
              some (b :: decoded)
      else do
        let decoded ← decodeChars fuel current
        some (c :: decoded)

/-- `Reader::decodeString`, without the quotes of the token. -/
def decodeString (text : List UInt8) : Option (List UInt8) :=
  decodeChars text.length (text.drop 1).dropLast

/-! ## Values -/

/-- The order of `std::map` on the names: `strcmp` compares unsigned bytes. -/
def nameOrder (name : CString) : List Nat := name.bytes.map UInt8.toNat

/-- `currentValue()[name] = value`. -/
def setMember (name : CString) (value : Json) (members : List (CString × Json)) :
    List (CString × Json) :=
  Lib.SortedMap.set nameOrder name value members

mutual

/-- `Reader::readValue`: the value and the position behind it. -/
def readValue (sscanf : Sscanf) : Nat → List UInt8 → Option (Json × List UInt8)
  | 0, _ => none
  | fuel + 1, bytes =>
      let (token, current) := skipCommentTokens bytes
      match token.type with
      | .objectBegin => readObject sscanf fuel [] [] current
      | .arrayBegin => readArray sscanf fuel current
      | .number => (decodeNumber sscanf token.text).map fun value => (value, current)
      | .string => (decodeString token.text).map fun s => (.str (.cStr s), current)
      | .true => some (.bool true, current)
      | .false => some (.bool false, current)
      | .null => some (.null, current)
      | _ => none

/-- One pass of the loop of `Reader::readObject`, with the name of the last member.  Behind a
value and a comment any token but `}` passes as a comma. -/
def readObject (sscanf : Sscanf) :
    Nat → List UInt8 → List (CString × Json) → List UInt8 → Option (Json × List UInt8)
  | 0, _, _, _ => none
  | fuel + 1, name, members, bytes =>
      let (tokenName, current) := skipCommentTokens bytes
      if tokenName.type = .objectEnd ∧ name = [] then some (.obj members, current)
      else if tokenName.type = .string then do
        let name ← decodeString tokenName.text
        let (colon, current) := readToken current
        if colon.type = .memberSeparator then do
          let (value, current) ← readValue sscanf fuel current
          let members := setMember (.cStr name) value members
          let (comma, current) := readToken current
          match comma.type with
          | .objectEnd => some (.obj members, current)
          | .arraySeparator => readObject sscanf fuel name members current
          | .comment =>
              let (comma, current) := skipCommentTokens current
              if comma.type = .objectEnd then some (.obj members, current)
              else readObject sscanf fuel name members current
          | _ => none
        else none
      else none

/-- `Reader::readArray`; that its `int index` ends at 2147483647 elements is not modelled. -/
def readArray (sscanf : Sscanf) : Nat → List UInt8 → Option (Json × List UInt8)
  | 0, _ => none
  | fuel + 1, bytes =>
      if (skipSpaces bytes).head? = some 93 then some (.arr [], (readToken (skipSpaces bytes)).2)
      else readItems sscanf fuel [] bytes

/-- One pass of the loop of `Reader::readArray`. -/
def readItems (sscanf : Sscanf) :
    Nat → List Json → List UInt8 → Option (Json × List UInt8)
  | 0, _, _ => none
  | fuel + 1, items, bytes => do
      let (value, current) ← readValue sscanf fuel bytes
      let (token, current) := skipCommentTokens current
      match token.type with
      | .arraySeparator => readItems sscanf fuel (items ++ [value]) current
      | .arrayEnd => some (.arr (items ++ [value]), current)
      | _ => none

end

/-- `Reader::parse`. -/
def parse (sscanf : Sscanf) : JsonReader := fun document =>
  (readValue sscanf (3 * document.length + 1) document).map Prod.fst

end Reader
end Base
end TcMuzi
