import Mathlib.Algebra.GroupWithZero.Nat
import Mathlib.Data.List.Induction
import TcMuzi.Base.CString

/-!
# `idtourl` and `urltoid`

The short links of `util_pdu.cc`: twice the id and 56 more, as a `uint32_t` in base 36
behind a version number.
-/

namespace TcMuzi
namespace Base

/-! ## The source -/

/-- `static char digits[]`. -/
def digitChar (d : Nat) : UInt8 :=
  (CString.lit "0123456789abcdefghijklmnopqrstuvwxyz").bytes.getD d 0

/-- `static char buf[64]`, with what an earlier call left in it. -/
structure Scratch where
  bytes : List UInt8
  size : bytes.length = 64

/-- `*--ptr = c`; `none` in front of the buffer. -/
def writeBefore (c : UInt8) : List UInt8 × Nat → Option (List UInt8 × Nat)
  | (_, 0) => none
  | (buf, ptr + 1) => some (buf.set ptr c, ptr)

/-- The conversion to base 36. -/
def writeDigits (value : Nat) (buf : List UInt8) : Nat → Option (List UInt8 × Nat)
  | 0 => none
  | ptr + 1 =>
      let buf := buf.set ptr (digitChar (value % 36))
      if 0 < ptr ∧ value / 36 ≠ 0 then writeDigits (value / 36) buf ptr else some (buf, ptr)

/-- The string at the pointer that is returned. -/
def idtourl (scratch : Scratch) (id : UInt32) : Option CString := do
  let value := id * 2 + 56
  let written ← writeDigits value.toNat (scratch.bytes.set 63 0) 63
  let (buf, ptr) ← writeBefore 49 written
  return CString.cStr (buf.drop ptr)

/-- The value of a character of a link; others are skipped. -/
def digitValue (c : UInt8) : Option UInt8 :=
  if 48 ≤ c ∧ c ≤ 57 then some (c - 48)
  else if 97 ≤ c ∧ c ≤ 122 then some (c - (97 - 10))
  else if 65 ≤ c ∧ c ≤ 90 then some (c - (65 - 10))
  else none

/-- One round of the loop. -/
def addDigit (number : UInt32) (c : UInt8) : UInt32 :=
  match digitValue c with
  | some d => number * 36 + d.toUInt32
  | none => number

/-- The first character is the version number. -/
def urltoid (url : CString) : UInt32 := ((url.bytes.drop 1).foldl addDigit 0 - 56) >>> 1

/-! ## Digits -/

def isDigit36 (c : UInt8) : Bool := (48 ≤ c && c ≤ 57) || (97 ≤ c && c ≤ 122)

/-- A version number and one to seven lower-case digits. -/
def IsIdUrl (url : CString) : Prop :=
  ∃ digits, url.bytes = 49 :: digits ∧ 1 ≤ digits.length ∧ digits.length ≤ 7 ∧
    ∀ c ∈ digits, isDigit36 c

theorem digitChar_spec : ∀ d < 36, isDigit36 (digitChar d) ∧ digitChar d ≠ 0 ∧
    digitValue (digitChar d) = some (UInt8.ofNat d) := by
  decide +kernel

/-- The number with these digits, the first one most significant. -/
def ofDigits36 (digits : List Nat) : Nat := digits.foldl (fun n d => n * 36 + d) 0

theorem ofDigits36_append (digits : List Nat) (d : Nat) :
    ofDigits36 (digits ++ [d]) = ofDigits36 digits * 36 + d := by
  rw [ofDigits36, List.foldl_append]
  rfl

theorem drop_set {buf : List UInt8} {ptr : Nat} (h : ptr < buf.length) (c : UInt8) :
    (buf.set ptr c).drop ptr = c :: buf.drop (ptr + 1) := by
  rw [List.drop_eq_getElem_cons (by rwa [List.length_set]), List.getElem_set_self,
    List.drop_set_of_lt (Nat.lt_succ_self ptr)]

/-- The digits of a value, no more than it needs, are written in front of what is there. -/
structure Writes (value : Nat) (buf : List UInt8) (ptr : Nat) (buf' : List UInt8)
    (digits : List Nat) : Prop where
  length : buf'.length = buf.length
  drop : buf'.drop (ptr - digits.length) = digits.map digitChar ++ buf.drop ptr
  ne : digits ≠ []
  lt : ∀ d ∈ digits, d < 36
  ofDigits : ofDigits36 digits = value
  shortest : ∀ k, 0 < k → value < 36 ^ k → digits.length ≤ k

section Writes

variable {value ptr : Nat} {buf buf' : List UInt8} {digits : List Nat}

/-- A value below 36 is one digit. -/
theorem writes_last (hvalue : value / 36 = 0) (hptr : ptr + 1 ≤ buf.length) :
    Writes value buf (ptr + 1) (buf.set ptr (digitChar (value % 36))) [value % 36] where
  length := List.length_set ..
  drop := drop_set hptr _
  ne := List.cons_ne_nil _ _
  lt := by
    intro d hd
    rw [List.mem_singleton.mp hd]
    exact Nat.mod_lt _ (by omega)
  ofDigits := by
    simp only [ofDigits36, List.foldl_cons, List.foldl_nil]
    omega
  shortest := fun k hk _ => hk

/-- In front of the last digit stand those of the quotient. -/
theorem Writes.cons (hvalue : value / 36 ≠ 0) (hptr : ptr + 1 ≤ buf.length)
    (h : Writes (value / 36) (buf.set ptr (digitChar (value % 36))) ptr buf' digits) :
    Writes value buf (ptr + 1) buf' (digits ++ [value % 36]) where
  length := by rw [h.length, List.length_set]
  drop := by
    have hstart : ptr + 1 - (digits ++ [value % 36]).length = ptr - digits.length := by
      simp
    rw [hstart, h.drop, drop_set hptr]
    simp
  ne := by simp
  lt := by
    intro d hd
    rcases List.mem_append.mp hd with hd | hd
    · exact h.lt d hd
    · rw [List.mem_singleton.mp hd]
      exact Nat.mod_lt _ (by omega)
  ofDigits := by
    rw [ofDigits36_append, h.ofDigits]
    omega
  shortest := by
    intro k hk hpow
    rw [List.length_append, List.length_singleton]
    obtain ⟨k, rfl⟩ := Nat.exists_eq_succ_of_ne_zero hk.ne'
    rw [Nat.succ_eq_add_one, Nat.pow_succ] at hpow
    have hk' : 0 < k := by
      rcases Nat.eq_zero_or_pos k with rfl | hk'
      · omega
      · exact hk'
    have hle := h.shortest k hk' (by omega)
    omega

end Writes

/-- The loop ends in front of the digits of its value. -/
theorem writeDigits_spec {value : Nat} {buf : List UInt8} {ptr : Nat} (hroom : 0 < ptr)
    (hvalue : value < 36 ^ ptr) (hptr : ptr ≤ buf.length) :
    ∃ buf' digits, writeDigits value buf ptr = some (buf', ptr - digits.length) ∧
      Writes value buf ptr buf' digits := by
  -- the last digit is written first, and the loop goes on in front of it
  induction ptr generalizing value buf with
  | zero => omega
  | succ ptr ih =>
      by_cases hmore : 0 < ptr ∧ value / 36 ≠ 0
      · have hquotient : value / 36 < 36 ^ ptr := by
          rw [Nat.pow_succ] at hvalue
          omega
        obtain ⟨buf', digits, hwrite, hwrites⟩ :=
          @ih _ (buf.set ptr (digitChar (value % 36))) hmore.1 hquotient
            (by rw [List.length_set]; omega)
        refine ⟨buf', digits ++ [value % 36], ?_, hwrites.cons hmore.2 hptr⟩
        rw [writeDigits, if_pos hmore, hwrite, List.length_append]
        simp
      · have hzero : value / 36 = 0 := by
          by_contra hne
          have hptr0 : ptr = 0 := by
            by_contra hptr0
            exact hmore ⟨Nat.pos_of_ne_zero hptr0, hne⟩
          subst hptr0
          omega
        refine ⟨_, [value % 36], ?_, writes_last hzero hptr⟩
        rw [writeDigits, if_neg hmore]
        rfl

/-- Reading the digits back gives the number modulo 2^32. -/
theorem foldl_addDigit {digits : List Nat} (hlt : ∀ d ∈ digits, d < 36) :
    (digits.map digitChar).foldl addDigit 0 = UInt32.ofNat (ofDigits36 digits) := by
  induction digits using List.reverseRecOn with
  | nil => rfl
  | append_singleton digits d ih =>
      have hd : d < 36 := hlt d (by simp)
      have hrest := ih fun e he => hlt e (List.mem_append_left _ he)
      have hchar : (UInt8.ofNat d).toUInt32 = UInt32.ofNat d := by
        rw [← UInt32.toNat_inj, UInt8.toNat_toUInt32, UInt8.toNat_ofNat', UInt32.toNat_ofNat']
        omega
      rw [List.map_append, List.foldl_append, hrest, ofDigits36_append]
      simp only [List.map_cons, List.map_nil, List.foldl_cons, List.foldl_nil, addDigit,
        (digitChar_spec d hd).2.2, hchar]
      rw [UInt32.ofNat_add, UInt32.ofNat_mul]
      rfl

/-! ## The round trip -/

/-- Twice the id and 56 more, 56 less, and half of that. -/
theorem half_of_value (id : UInt32) :
    ((id * 2 + 56 - 56) >>> 1).toNat = id.toNat % 2147483648 := by
  have hcancel : id * 2 + 56 - 56 = id * 2 := by
    rw [UInt32.add_sub_cancel]
  rw [hcancel, UInt32.toNat_shiftRight, UInt32.toNat_mul]
  have htwo : (2 : UInt32).toNat = 2 := rfl
  have hone : (1 : UInt32).toNat % 32 = 1 := rfl
  rw [htwo, hone, Nat.shiftRight_eq_div_pow]
  omega

/-- The link of an id is one, and reads back as the id without its highest bit. -/
theorem idtourl_spec (scratch : Scratch) (id : UInt32) :
    ∃ url, idtourl scratch id = some url ∧ IsIdUrl url ∧
      (urltoid url).toNat = id.toNat % 2147483648 := by
  have hbound : (id * 2 + 56).toNat < 36 ^ 7 :=
    Nat.lt_of_lt_of_le (id * 2 + 56).toNat_lt (by decide)
  have hsize := scratch.size
  have hroom : (id * 2 + 56).toNat < 36 ^ 63 :=
    lt_of_lt_of_le hbound (Nat.pow_le_pow_right (by omega) (by omega))
  obtain ⟨buf, digits, hwrite, hlength, hdrop, hne, hlt, hdigits, hmin⟩ :=
    @writeDigits_spec _ (scratch.bytes.set 63 0) 63 (by omega) hroom
      (by rw [List.length_set]; omega)
  have hseven := hmin 7 (by omega) hbound
  have hpos : 0 < digits.length := List.length_pos_iff.mpr hne
  obtain ⟨ptr, hptr⟩ : ∃ ptr, 63 - digits.length = ptr + 1 :=
    Nat.exists_eq_succ_of_ne_zero (by omega)
  have hend : (scratch.bytes.set 63 0).drop 63 = [0] := by
    rw [drop_set (by omega), List.drop_eq_nil_of_le (by omega)]
  have hstring : (buf.set ptr 49).drop ptr = 49 :: (digits.map digitChar ++ [0]) := by
    rw [List.length_set] at hlength
    rw [drop_set (by omega), ← hptr, hdrop, hend]
  have hurl : (CString.cStr ((buf.set ptr 49).drop ptr)).bytes = 49 :: digits.map digitChar := by
    have hzero : (0 : UInt8) ∉ 49 :: digits.map digitChar := by
      intro hmem
      rcases List.mem_cons.mp hmem with h | h
      · cases h
      · obtain ⟨d, hd, hnul⟩ := List.mem_map.mp h
        exact (digitChar_spec d (hlt d hd)).2.1 hnul
    rw [hstring, ← List.cons_append, CString.bytes_cStr_append hzero]
  refine ⟨_, ?_, ⟨digits.map digitChar, hurl, by rwa [List.length_map],
    by rwa [List.length_map], ?_⟩, ?_⟩
  · rw [idtourl]
    simp only [hwrite, hptr, writeBefore, Option.bind_eq_bind, Option.bind_some]
    rfl
  · intro c hc
    obtain ⟨d, hd, rfl⟩ := List.mem_map.mp hc
    exact (digitChar_spec d (hlt d hd)).1
  · rw [urltoid, hurl, List.drop_succ_cons, List.drop_zero, foldl_addDigit hlt, hdigits,
      UInt32.ofNat_toNat, half_of_value]

/-- An id below 2^31 survives. -/
theorem map_urltoid_idtourl (scratch : Scratch) {id : UInt32} (hid : id.toNat < 2147483648) :
    (idtourl scratch id).map urltoid = some id := by
  obtain ⟨url, hurl, _, hback⟩ := idtourl_spec scratch id
  rw [hurl, Option.map_some, Option.some.injEq, ← UInt32.toNat_inj, hback]
  exact Nat.mod_eq_of_lt hid

/-- Every id has a link that reads back as the id modulo 2^31, so that ids below 2^31 survive
and never share a link. -/
theorem urltoid_idtourl (scratch scratch' : Scratch) (id id' : UInt32) :
    (∃ url, idtourl scratch id = some url ∧ IsIdUrl url ∧
      (urltoid url).toNat = id.toNat % 2147483648) ∧
    (id.toNat < 2147483648 → (idtourl scratch id).map urltoid = some id) ∧
    (id.toNat < 2147483648 → id'.toNat < 2147483648 →
      idtourl scratch id = idtourl scratch' id' → id = id') := by
  refine ⟨idtourl_spec scratch id, map_urltoid_idtourl scratch, fun hid hid' heq => ?_⟩
  have hback := map_urltoid_idtourl scratch hid
  rw [heq, map_urltoid_idtourl scratch' hid'] at hback
  exact (Option.some.inj hback).symm

end Base
end TcMuzi
