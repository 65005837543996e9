import TcMuzi.Base.CString

/-!
# `URLEncode` and `URLDecode`

The escapes of `util.cc`.  `FromHex` takes every byte that is not a digit for an upper-case
letter; the bits that a lower-case one brings with it are shifted out of the first digit of
an escape, but not out of the second.
-/

namespace TcMuzi
namespace Base

open Lib.Decimal (isDigit)

/-! ## The source -/

/-- `isalnum` in the C locale. -/
def isAlnum (b : UInt8) : Bool := isDigit b || (65 ≤ b && b ≤ 90) || (97 ≤ b && b ≤ 122)

def toHex (x : UInt8) : UInt8 := if 9 < x then x - 10 + 65 else x + 48

def fromHex (x : UInt8) : UInt8 := if isDigit x then x - 48 else x - 65 + 10

/-- `out += (char *)buf`, with the buffer as one round of the loop fills it. -/
def encodeByte (b : UInt8) : List UInt8 :=
  (CString.cStr
    (if isAlnum b then [b, 0, 0, 0] else [37, toHex (b >>> 4), toHex (b % 16), 0])).bytes

def urlEncode (input : List UInt8) : List UInt8 := input.flatMap encodeByte

/-- `ch`, from the two bytes behind a `%`. -/
def unescape (x y : UInt8) : UInt8 := (fromHex x <<< 4) ||| fromHex y

/-- The loop from `ix` on; `none` when it reads a byte behind the terminator. -/
def urlDecode : List UInt8 → Option (List UInt8)
  | [] => some []
  | b :: rest =>
      if b = 37 then
        match rest with
        | [] => none
        -- `in[ix + 2]` is the terminator
        | [x] => some [unescape x 0]
        | x :: y :: rest => (urlDecode rest).map (unescape x y :: ·)
      else (urlDecode rest).map ((if b = 43 then 32 else b) :: ·)

/-! ## Form decoding -/

def isUpperHex (b : UInt8) : Bool := isDigit b || (65 ≤ b && b ≤ 70)

def isLowerLetter (b : UInt8) : Bool := 97 ≤ b && b ≤ 102

/-- The value of a hex digit in either case. -/
def hexValue (b : UInt8) : Option UInt8 :=
  if isDigit b then some (b - 48)
  else if isUpperHex b then some (b - 55)
  else if isLowerLetter b then some (b - 87)
  else none

/-- Two digits of an escape as a byte. -/
def hexByte (x y : UInt8) : Option UInt8 := do
  let high ← hexValue x
  let low ← hexValue y
  return high * 16 + low

/-- The decoding of a form, undefined where a `%` is not followed by two digits. -/
def formDecode : List UInt8 → Option (List UInt8)
  | [] => some []
  | b :: rest =>
      if b = 37 then
        match rest with
        | x :: y :: rest => do
            let value ← hexByte x y
            let out ← formDecode rest
            return value :: out
        | _ => none
      else (formDecode rest).map ((if b = 43 then 32 else b) :: ·)

/-- Alphanumerics, and escapes with upper-case digits. -/
def escaped : List UInt8 → Bool
  | [] => true
  | b :: rest =>
      if b = 37 then
        match rest with
        | x :: y :: rest => isUpperHex x && isUpperHex y && escaped rest
        | _ => false
      else isAlnum b && escaped rest

/-- What the loop takes for the digits of its escapes. -/
def escapes : List UInt8 → List (UInt8 × UInt8)
  | [] => []
  | b :: rest =>
      if b = 37 then
        match rest with
        | x :: y :: rest => (x, y) :: escapes rest
        | _ => []
      else escapes rest

/-- The loop comes to a `%` that is the last byte. -/
def percentLast : List UInt8 → Bool
  | [] => false
  | b :: rest =>
      if b = 37 then
        match rest with
        | [] => true
        | [_] => false
        | _ :: _ :: rest => percentLast rest
      else percentLast rest

/-- The digits whose value has its second bit set: that bit is the one which a lower-case
digit behind them brings along. -/
def coversCase (x : UInt8) : Bool := (hexValue x).any fun high => high % 4 ≥ 2

/-! ## Bytes -/

/-- What can be evaluated for each byte holds of all. -/
theorem forall_byte {p : UInt8 → Prop} (h : ∀ n < 256, p (UInt8.ofNat n)) (b : UInt8) : p b := by
  have hb := h b.toNat b.toNat_lt
  rwa [UInt8.ofNat_toNat] at hb

theorem encodeByte_of_isAlnum {b : UInt8} (h : isAlnum b) : encodeByte b = [b] := by
  have hne : b ≠ 0 := by
    rintro rfl
    revert h
    decide
  simp [encodeByte, h, CString.cStr, hne]

/-- Neither digit of an escape is a NUL. -/
theorem encodeByte_of_not_isAlnum {b : UInt8} (h : ¬ isAlnum b) :
    encodeByte b = [37, toHex (b >>> 4), toHex (b % 16)] := by
  have hdigits : toHex (b >>> 4) ≠ 0 ∧ toHex (b % 16) ≠ 0 := by
    refine forall_byte (p := fun b => toHex (b >>> 4) ≠ 0 ∧ toHex (b % 16) ≠ 0) ?_ b
    decide +kernel
  simp [encodeByte, h, CString.cStr, hdigits]

/-- The digits of a byte are upper-case ones, and read back as the byte. -/
theorem unescape_toHex (b : UInt8) :
    isUpperHex (toHex (b >>> 4)) ∧ isUpperHex (toHex (b % 16)) ∧
      unescape (toHex (b >>> 4)) (toHex (b % 16)) = b := by
  refine forall_byte (p := fun b => isUpperHex (toHex (b >>> 4)) ∧
    isUpperHex (toHex (b % 16)) ∧ unescape (toHex (b >>> 4)) (toHex (b % 16)) = b) ?_ b
  decide +kernel

/-- Neither `%` nor `+` is alphanumeric. -/
theorem ne_of_isAlnum {b : UInt8} (h : isAlnum b) : b ≠ 37 ∧ b ≠ 43 := by
  constructor <;> rintro rfl <;> revert h <;> decide

section Kept

variable {b : UInt8} (rest : List UInt8)

theorem urlDecode_of_ne (hb : b ≠ 37) :
    urlDecode (b :: rest) = (urlDecode rest).map ((if b = 43 then 32 else b) :: ·) := by
  rw [urlDecode.eq_def]
  exact if_neg hb

theorem formDecode_of_ne (hb : b ≠ 37) :
    formDecode (b :: rest) = (formDecode rest).map ((if b = 43 then 32 else b) :: ·) := by
  rw [formDecode.eq_def]
  exact if_neg hb

theorem escaped_of_ne (hb : b ≠ 37) : escaped (b :: rest) = (isAlnum b && escaped rest) := by
  rw [escaped.eq_def]
  exact if_neg hb

theorem escapes_of_ne (hb : b ≠ 37) : escapes (b :: rest) = escapes rest := by
  rw [escapes.eq_def]
  exact if_neg hb

end Kept

/-! ## The round trip -/

theorem urlDecode_encodeByte (b : UInt8) (rest : List UInt8) :
    urlDecode (encodeByte b ++ rest) = (urlDecode rest).map (b :: ·) := by
  by_cases hb : isAlnum b
  · obtain ⟨hpercent, hplus⟩ := ne_of_isAlnum hb
    rw [encodeByte_of_isAlnum hb, List.singleton_append, urlDecode_of_ne rest hpercent,
      if_neg hplus]
  · rw [encodeByte_of_not_isAlnum hb]
    show (urlDecode rest).map (unescape _ _ :: ·) = _
    rw [(unescape_toHex b).2.2]

theorem escaped_encodeByte (b : UInt8) (rest : List UInt8) :
    escaped (encodeByte b ++ rest) = escaped rest := by
  by_cases hb : isAlnum b
  · rw [encodeByte_of_isAlnum hb, List.singleton_append,
      escaped_of_ne rest (ne_of_isAlnum hb).1, hb, Bool.true_and]
  · rw [encodeByte_of_not_isAlnum hb]
    show (isUpperHex _ && isUpperHex _ && escaped rest) = _
    rw [(unescape_toHex b).1, (unescape_toHex b).2.1, Bool.true_and, Bool.true_and]

/-- Decoding undoes encoding, whatever the bytes are. -/
theorem urlDecode_urlEncode (s : List UInt8) :
    urlDecode (urlEncode s) = some s ∧ escaped (urlEncode s) := by
  induction s with
  | nil => exact ⟨rfl, rfl⟩
  | cons b s ih =>
      have hcons : urlEncode (b :: s) = encodeByte b ++ urlEncode s := List.flatMap_cons
      rw [hcons, urlDecode_encodeByte, escaped_encodeByte, ih.1]
      exact ⟨rfl, ih.2⟩

/-! ## What is decoded -/

/-- Every input whose escapes are complete is decoded as a form, and no input makes the loop
read behind the terminator. -/
def DecodesForm (input : List UInt8) : Prop :=
  (∀ out, formDecode input = some out → urlDecode input = some out) ∧ (urlDecode input).isSome

instance (input : List UInt8) : Decidable (DecodesForm input) :=
  decidable_of_iff
    (((formDecode input).all fun out => urlDecode input = some out) ∧ (urlDecode input).isSome)
    (by rw [DecodesForm]; cases formDecode input <;> simp)

/-- The loop does not come to a `%` at the end, and a lower-case second digit stands only
behind a first one that covers its case. -/
structure Decodable (input : List UInt8) : Prop where
  last : ¬ percentLast input
  lower : (formDecode input).isSome → ∀ e ∈ escapes input, isLowerLetter e.2 → coversCase e.1

theorem urlDecode_isSome_iff (input : List UInt8) :
    (urlDecode input).isSome ↔ ¬ percentLast input := by
  fun_induction percentLast input with
  | case1 => simp [urlDecode]
  | case2 => simp [urlDecode]
  | case3 => simp [urlDecode]
  | case4 x y rest ih => simpa [urlDecode] using ih
  | case5 b rest hb ih => rwa [urlDecode_of_ne rest hb, Option.isSome_map]

def hexDigits : List UInt8 :=
  [48, 49, 50, 51, 52, 53, 54, 55, 56, 57, 65, 66, 67, 68, 69, 70, 97, 98, 99, 100, 101, 102]

theorem mem_hexDigits {b : UInt8} (h : (hexValue b).isSome) : b ∈ hexDigits := by
  revert h
  refine forall_byte (p := fun b => (hexValue b).isSome → b ∈ hexDigits) ?_ b
  decide +kernel

/-- `FromHex` is right about two digits unless the second one's case shows. -/
theorem unescape_eq_iff {x y value : UInt8} (h : hexByte x y = some value) :
    unescape x y = value ↔ (isLowerLetter y → coversCase x) := by
  have hall : ∀ x ∈ hexDigits, ∀ y ∈ hexDigits,
      (hexByte x y = some (unescape x y) ↔ (isLowerLetter y → coversCase x)) := by
    decide +kernel
  have hx : (hexValue x).isSome := by
    cases hx : hexValue x with
    | none => simp [hexByte, hx] at h
    | some high => rfl
  have hy : (hexValue y).isSome := by
    cases hy : hexValue y with
    | none => simp [hexByte, hy] at h
    | some low => rfl
  rw [← hall x (mem_hexDigits hx) y (mem_hexDigits hy), h, Option.some.injEq, eq_comm]

/-- Where a form can be decoded, the escapes decide whether the loop does. -/
theorem urlDecode_eq_iff {input out : List UInt8} (h : formDecode input = some out) :
    urlDecode input = some out ↔ ∀ e ∈ escapes input, isLowerLetter e.2 → coversCase e.1 := by
  induction input using formDecode.induct generalizing out with
  | case1 =>
      obtain rfl : [] = out := Option.some.inj h
      simp [urlDecode, escapes]
  | case2 x y rest ih =>
      simp only [formDecode, if_true, Option.bind_eq_bind, Option.bind_eq_some_iff] at h
      obtain ⟨value, hvalue, out, hout, hcons⟩ := h
      obtain rfl := Option.some.inj hcons
      have hbyte := unescape_eq_iff hvalue
      have hrest := ih hout
      simp only [urlDecode, escapes, if_true, List.forall_mem_cons, Option.map_eq_some_iff]
      rw [← hbyte, ← hrest]
      constructor
      · rintro ⟨tail, htail, heq⟩
        obtain ⟨hhead, rfl⟩ := List.cons.inj heq
        exact ⟨hhead, htail⟩
      · rintro ⟨rfl, htail⟩
        exact ⟨out, htail, rfl⟩
  | case3 rest hshort =>
      rcases rest with _ | ⟨x, _ | ⟨y, rest⟩⟩
      · cases h
      · cases h
      · exact absurd rfl (hshort x y rest)
  | case4 b rest hb ih =>
      rw [formDecode_of_ne rest hb, Option.map_eq_some_iff] at h
      obtain ⟨tail, htail, rfl⟩ := h
      rw [urlDecode_of_ne rest hb, escapes_of_ne rest hb, ← ih htail]
      simp

/-- A form is decoded exactly where the case of no second digit shows, and nothing is read
behind the terminator exactly where no `%` comes last. -/
theorem decodesForm_iff (input : List UInt8) : DecodesForm input ↔ Decodable input := by
  constructor
  · rintro ⟨hform, hsome⟩
    refine ⟨(urlDecode_isSome_iff input).mp hsome, fun hdecodes => ?_⟩
    obtain ⟨out, hout⟩ := Option.isSome_iff_exists.mp hdecodes
    exact (urlDecode_eq_iff hout).mp (hform out hout)
  · rintro ⟨hlast, hlower⟩
    refine ⟨fun out hout => (urlDecode_eq_iff hout).mpr (hlower (by rw [hout]; rfl)), ?_⟩
    exact (urlDecode_isSome_iff input).mpr hlast

example : urlDecode (CString.lit "a%2Fb+c").bytes = some (CString.lit "a/b c").bytes := by
  decide +kernel

/-- An escaped line break in lower case becomes an asterisk. -/
theorem not_decodesForm_lineBreak : ¬ DecodesForm (CString.lit "%0a").bytes := by
  decide +kernel

end Base
end TcMuzi
