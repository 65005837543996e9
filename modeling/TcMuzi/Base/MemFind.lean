import TcMuzi.Base.Buffer

/-!
# `MemFind`

The loop forward stops one position early, the loop backward starts from an `int`, and a
length of 0 stands for `strlen`, which is taken after the lengths were compared.
-/

namespace TcMuzi
namespace Base

/-! ## The source -/

/-- The bytes behind a pointer with a `size_t` for their number. -/
structure Block where
  bytes : List UInt8
  size : bytes.length < 18446744073709551616

/-- A text to search for: with its length, or as a C string with the length 0. -/
structure Sub extends Block where
  counted : Bool
  nonempty : bytes ≠ []
  nulFree : counted = false → 0 ∉ bytes

namespace Sub

def subStr (sub : Sub) : List UInt8 := if sub.counted then sub.bytes else sub.bytes ++ [0]

def subLen (sub : Sub) : Nat := if sub.counted then sub.bytes.length else 0

end Sub

/-- How a search ends: with a position, with NULL, with a comparison of bytes that are not
in the block, or with an `int` counted past its largest value. -/
inductive Found
  | position (i : Nat)
  | null
  | outside
  | overflow
deriving DecidableEq

/-- `0 == memcmp(src + i, sub, sub_len)`; `none` when `src` ends before. -/
def equalAt (src sub : List UInt8) (i : Nat) : Option Bool :=
  if i + sub.length ≤ src.length then some ((src.drop i).take sub.length = sub) else none

/-- `for (int i = 0; i < src_len - sub_len; i++)`, from `i` on. -/
def findForward (src sub : List UInt8) : Nat → Nat → Found
  | 0, _ => .null
  | left + 1, i =>
      match equalAt src sub i with
      | none => .outside
      | some true => .position i
      -- `i` is an `int`
      | some false => if i = 2147483647 then .overflow else findForward src sub left (i + 1)

/-- `for (int i = (src_len - sub_len); i >= 0; i--)`, from below `k` on. -/
def findBackward (src sub : List UInt8) : Nat → Found
  | 0 => .null
  | i + 1 =>
      match equalAt src sub i with
      | none => .outside
      | some true => .position i
      | some false => findBackward src sub i

/-- A `size_t` as an `int`. -/
def toInt (n : Nat) : Int :=
  if n % 4294967296 < 2147483648 then ((n % 4294967296 : Nat) : Int)
  else ((n % 4294967296 : Nat) : Int) - 4294967296

/-- Behind the checks, with the length that is compared. -/
def searchBlock (src sub : List UInt8) (flag : Bool) : Found :=
  if src.length = sub.length then
    if src = sub then .position 0 else .null
  else
    -- `src_len - sub_len` of two `size_t`
    let distance := (src.length + 18446744073709551616 - sub.length) % 18446744073709551616
    if flag then findForward src sub distance 0
    else findBackward src sub (toInt distance + 1).toNat

/-- Neither pointer is NULL. -/
def memFind (src : Block) (subStr : List UInt8) (subLen : Nat) (flag : Bool) : Found :=
  if src.bytes.length = 0 then .null
  else if src.bytes.length < subLen then .null
  else if subLen = 0 then
    -- this length is not compared with that of the block
    match strlen subStr with
    | none => .outside
    | some length => searchBlock src.bytes (subStr.take length) flag
  else searchBlock src.bytes (subStr.take subLen) flag

/-! ## Searching -/

/-- The text stands at this position. -/
def OccursAt (sub src : List UInt8) (i : Nat) : Prop :=
  i + sub.length ≤ src.length ∧ (src.drop i).take sub.length = sub

/-- A position where it stands, and none that is better; or it stands nowhere. -/
def IsBest (sub src : List UInt8) (better : Nat → Nat → Prop) : Found → Prop
  | .position i => OccursAt sub src i ∧ ∀ j, better j i → ¬ OccursAt sub src j
  | .null => ∀ j, ¬ OccursAt sub src j
  | .outside => False
  | .overflow => False

/-- The first position forward, the last one backward, and NULL where there is none. -/
def Searches (src : Block) (sub : Sub) : Prop :=
  IsBest sub.bytes src.bytes (fun j i => j < i) (memFind src sub.subStr sub.subLen true) ∧
    IsBest sub.bytes src.bytes (fun j i => i < j) (memFind src sub.subStr sub.subLen false)

/-- A C string is not longer than the block.  In a longer block a text that occurs does so
before the last possible position, and the positions fit an `int`. -/
structure Searchable (src : Block) (sub : Sub) : Prop where
  fits : sub.counted = false → src.bytes = [] ∨ sub.bytes.length ≤ src.bytes.length
  missing : sub.bytes.length < src.bytes.length → (∀ i, ¬ OccursAt sub.bytes src.bytes i) →
    src.bytes.length - sub.bytes.length < 2147483648
  occurring : sub.bytes.length < src.bytes.length → ∀ i, OccursAt sub.bytes src.bytes i →
    (∃ j, OccursAt sub.bytes src.bytes j ∧ j < src.bytes.length - sub.bytes.length ∧
      j < 2147483648) ∧ (i : Int) ≤ toInt (src.bytes.length - sub.bytes.length)

section Loops

variable {src sub : List UInt8} {i : Nat}

theorem not_occursAt_of_lt (h : src.length < sub.length) (i : Nat) : ¬ OccursAt sub src i :=
  fun hocc => by
    have := hocc.1
    omega

/-- A comparison inside the block tells whether the text stands there. -/
theorem equalAt_eq (h : i + sub.length ≤ src.length) :
    (equalAt src sub i = some true ∧ OccursAt sub src i) ∨
      (equalAt src sub i = some false ∧ ¬ OccursAt sub src i) := by
  rw [equalAt, if_pos h]
  by_cases heq : (src.drop i).take sub.length = sub
  · exact Or.inl ⟨by simp [heq], h, heq⟩
  · exact Or.inr ⟨by simp [heq], fun hocc => heq hocc.2⟩

/-- The loop forward from a position before which the text does not stand. -/
theorem isBest_findForward {left : Nat} (hdistance : i + left + sub.length ≤ src.length)
    (hi : i < 2147483648) (hbefore : ∀ j < i, ¬ OccursAt sub src j) :
    IsBest sub src (fun j i => j < i) (findForward src sub left i) ↔
      (∃ j, OccursAt sub src j ∧ j < i + left ∧ j < 2147483648) ∨
        ((∀ j, ¬ OccursAt sub src j) ∧ i + left < 2147483648) := by
  induction left generalizing i with
  | zero =>
      constructor
      · exact fun hnone => Or.inr ⟨hnone, hi⟩
      · rintro (⟨j, hocc, hj, _⟩ | ⟨hnone, _⟩)
        · exact absurd hocc (hbefore j hj)
        · exact hnone
  | succ left ih =>
      have hroom : i + sub.length ≤ src.length := by omega
      rcases equalAt_eq hroom with ⟨heq, hocc⟩ | ⟨heq, hocc⟩
      · simp only [findForward, heq, IsBest]
        exact ⟨fun _ => Or.inl ⟨i, hocc, by omega, hi⟩, fun _ => ⟨hocc, hbefore⟩⟩
      · have hbefore' : ∀ j < i + 1, ¬ OccursAt sub src j := by
          intro j hj
          rcases Nat.lt_succ_iff_lt_or_eq.mp hj with hlt | rfl
          · exact hbefore j hlt
          · exact hocc
        simp only [findForward, heq]
        by_cases hmax : i = 2147483647
        · rw [if_pos hmax]
          constructor
          · exact False.elim
          · rintro (⟨j, hocc', _, hj⟩ | ⟨_, hlt⟩)
            · exact hbefore' j (by omega) hocc'
            · omega
        · have hnext : i + 1 + left = i + (left + 1) := by omega
          rw [if_neg hmax, ih (by omega) (by omega) hbefore', hnext]

/-- The loop backward finds positions below the one it starts from. -/
theorem lt_of_findBackward {k : Nat} (h : findBackward src sub k = .position i) : i < k := by
  induction k with
  | zero => cases h
  | succ k ih =>
      rw [findBackward] at h
      split at h
      · cases h
      · obtain rfl := Found.position.inj h
        exact Nat.lt_succ_self _
      · exact Nat.lt_succ_of_lt (ih h)

/-- So it finds the last one exactly where none stands from there on. -/
theorem isBest_findBackward {k : Nat} (hk : k + sub.length ≤ src.length + 1) :
    IsBest sub src (fun j i => i < j) (findBackward src sub k) ↔
      ∀ j, OccursAt sub src j → j < k := by
  constructor
  · intro h j hocc
    cases hfound : findBackward src sub k with
    | position i =>
        rw [hfound] at h
        by_contra hj
        have := lt_of_findBackward hfound
        exact h.2 j (by omega) hocc
    | null =>
        rw [hfound] at h
        exact absurd hocc (h j)
    | outside => rw [hfound] at h; exact h.elim
    | overflow => rw [hfound] at h; exact h.elim
  · intro h
    induction k with
    | zero => exact fun j hocc => Nat.not_lt_zero j (h j hocc)
    | succ k ih =>
        have hroom : k + sub.length ≤ src.length := by omega
        rcases equalAt_eq hroom with ⟨heq, hocc⟩ | ⟨heq, hocc⟩
        · simp only [findBackward, heq, IsBest]
          refine ⟨hocc, fun j hj hocc' => ?_⟩
          have := h j hocc'
          omega
        · simp only [findBackward, heq]
          refine ih (by omega) fun j hocc' => ?_
          have hlt := h j hocc'
          have hne : j ≠ k := fun heq => hocc (heq ▸ hocc')
          omega

theorem lt_toNat_toInt_iff (n j : Nat) : j < (toInt n + 1).toNat ↔ (j : Int) ≤ toInt n := by
  omega

theorem toInt_le (n : Nat) : toInt n ≤ n := by
  rw [toInt]
  split <;> omega

end Loops

/-! ## When the search is right -/

section Search

variable (src : Block) (sub : Sub)

/-- After its checks the function searches for the text, however it was passed. -/
theorem memFind_eq (flag : Bool) : memFind src sub.subStr sub.subLen flag =
    if src.bytes = [] ∨ (sub.counted = true ∧ src.bytes.length < sub.bytes.length) then .null
    else searchBlock src.bytes sub.bytes flag := by
  have hempty : src.bytes.length = 0 ↔ src.bytes = [] := List.length_eq_zero_iff
  by_cases hsrc : src.bytes = []
  · rw [memFind, if_pos (hempty.mpr hsrc), if_pos (Or.inl hsrc)]
  rw [memFind, if_neg (fun h => hsrc (hempty.mp h))]
  cases hcounted : sub.counted with
  | true =>
      have hlen : sub.bytes.length ≠ 0 := fun h => sub.nonempty (List.length_eq_zero_iff.mp h)
      simp [Sub.subStr, Sub.subLen, hcounted, hlen, hsrc]
  | false =>
      have hzero : (0 : UInt8) ∉ sub.bytes := sub.nulFree hcounted
      have hstrlen : strlen (sub.bytes ++ [0]) = some sub.bytes.length := by
        rw [strlen, if_pos (by simp), List.idxOf_append_of_notMem hzero]
        simp
      simp [Sub.subStr, Sub.subLen, hcounted, hstrlen, hsrc]

/-- Both directions in a block of the text's own length. -/
theorem isBest_of_length_eq {src sub : List UInt8} (h : src.length = sub.length)
    (better : Nat → Nat → Prop) (hbetter : ∀ i, ¬ better i i) (flag : Bool) :
    IsBest sub src better (searchBlock src sub flag) := by
  have honly : ∀ j, OccursAt sub src j → j = 0 := fun j hocc => by
    have := hocc.1
    omega
  rw [searchBlock, if_pos h]
  by_cases heq : src = sub
  · rw [if_pos heq]
    refine ⟨⟨by omega, by simp [heq]⟩, fun j hj hocc => ?_⟩
    exact hbetter 0 (honly j hocc ▸ hj)
  · rw [if_neg heq]
    intro j hocc
    obtain rfl := honly j hocc
    exact heq (by simpa [← h] using hocc.2)

theorem searchBlock_of_lt {src sub : List UInt8} (h : sub.length < src.length)
    (hsize : src.length < 18446744073709551616) (flag : Bool) :
    searchBlock src sub flag =
      if flag then findForward src sub (src.length - sub.length) 0
      else findBackward src sub (toInt (src.length - sub.length) + 1).toNat := by
  have hdistance : (src.length + 18446744073709551616 - sub.length) % 18446744073709551616 =
      src.length - sub.length := by omega
  rw [searchBlock, if_neg (by omega)]
  simp only [hdistance]

/-- In a block longer than the text each direction has its own condition. -/
theorem isBest_searchBlock_iff {src sub : List UInt8} (h : sub.length < src.length)
    (hsize : src.length < 18446744073709551616) :
    (IsBest sub src (fun j i => j < i) (searchBlock src sub true) ↔
      (∃ j, OccursAt sub src j ∧ j < src.length - sub.length ∧ j < 2147483648) ∨
        ((∀ j, ¬ OccursAt sub src j) ∧ src.length - sub.length < 2147483648)) ∧
    (IsBest sub src (fun j i => i < j) (searchBlock src sub false) ↔
      ∀ j, OccursAt sub src j → (j : Int) ≤ toInt (src.length - sub.length)) := by
  rw [searchBlock_of_lt h hsize, searchBlock_of_lt h hsize]
  constructor
  · have hdistance : 0 + (src.length - sub.length) + sub.length ≤ src.length := by omega
    have hforward := isBest_findForward hdistance (by omega)
      (fun j hj => absurd hj (Nat.not_lt_zero j))
    rw [Nat.zero_add] at hforward
    exact hforward
  · have hle := toInt_le (src.length - sub.length)
    have hk : (toInt (src.length - sub.length) + 1).toNat + sub.length ≤ src.length + 1 := by
      omega
    have hbackward := isBest_findBackward hk
    simp only [lt_toNat_toInt_iff] at hbackward
    exact hbackward

/-- Where the C string is longer than the block the first comparison leaves it. -/
theorem searchBlock_of_gt {src sub : List UInt8} (hsrc : src ≠ []) (h : src.length < sub.length)
    (hsize : sub.length < 18446744073709551616) : searchBlock src sub true = .outside := by
  have hpos : 0 < src.length := List.length_pos_iff.mpr hsrc
  obtain ⟨left, hleft⟩ : ∃ left,
      (src.length + 18446744073709551616 - sub.length) % 18446744073709551616 = left + 1 :=
    Nat.exists_eq_succ_of_ne_zero (by omega)
  have houtside : equalAt src sub 0 = none := if_neg (by omega)
  rw [searchBlock, if_neg (by omega)]
  simp only [hleft, if_true, findForward, houtside]

/-- In a block longer than the text, what the two directions need is what is searchable. -/
theorem searchable_iff_of_lt (hlt : sub.bytes.length < src.bytes.length) :
    Searchable src sub ↔
      ((∃ j, OccursAt sub.bytes src.bytes j ∧ j < src.bytes.length - sub.bytes.length ∧
          j < 2147483648) ∨
        ((∀ j, ¬ OccursAt sub.bytes src.bytes j) ∧
          src.bytes.length - sub.bytes.length < 2147483648)) ∧
      ∀ j, OccursAt sub.bytes src.bytes j →
        (j : Int) ≤ toInt (src.bytes.length - sub.bytes.length) := by
  constructor
  · rintro ⟨_, hmissing, hoccurring⟩
    refine ⟨?_, fun i hocc => (hoccurring hlt i hocc).2⟩
    by_cases hocc : ∃ i, OccursAt sub.bytes src.bytes i
    · obtain ⟨i, hocc⟩ := hocc
      exact Or.inl (hoccurring hlt i hocc).1
    · rw [not_exists] at hocc
      exact Or.inr ⟨hocc, hmissing hlt hocc⟩
  · rintro ⟨hfirst, hlast⟩
    refine ⟨fun _ => Or.inr hlt.le, fun _ hnone => ?_, fun _ i hocc => ⟨?_, hlast i hocc⟩⟩
    · rcases hfirst with ⟨j, hocc, _⟩ | ⟨_, hfits⟩
      · exact absurd hocc (hnone j)
      · exact hfits
    · rcases hfirst with hfound | ⟨hnone, _⟩
      · exact hfound
      · exact absurd hocc (hnone i)

/-- Both directions are right exactly on what is searchable. -/
theorem searches_iff : Searches src sub ↔ Searchable src sub := by
  rw [Searches, memFind_eq, memFind_eq]
  by_cases hnull : src.bytes = [] ∨
      (sub.counted = true ∧ src.bytes.length < sub.bytes.length)
  · -- the text is longer than the block, so it stands nowhere
    have hpos : 0 < sub.bytes.length := List.length_pos_iff.mpr sub.nonempty
    have hlt : src.bytes.length < sub.bytes.length := by
      rcases hnull with hempty | ⟨_, hlt⟩
      · rw [hempty]
        exact hpos
      · exact hlt
    have hnone := not_occursAt_of_lt hlt
    rw [if_pos hnull, if_pos hnull]
    refine ⟨fun _ => ⟨fun hcounted => ?_, fun h => by omega, fun h => by omega⟩,
      fun _ => ⟨hnone, hnone⟩⟩
    rcases hnull with hempty | ⟨hyes, _⟩
    · exact Or.inl hempty
    · exact absurd (hyes.symm.trans hcounted) (by decide)
  · rw [if_neg hnull, if_neg hnull]
    rw [not_or] at hnull
    rcases Nat.lt_trichotomy sub.bytes.length src.bytes.length with hlt | heq | hgt
    · obtain ⟨hforward, hbackward⟩ := isBest_searchBlock_iff hlt src.size
      rw [hforward, hbackward]
      exact (searchable_iff_of_lt src sub hlt).symm
    · refine iff_of_true ⟨?_, ?_⟩ ⟨fun _ => Or.inr heq.le, fun h => by omega, fun h => by omega⟩
      · exact isBest_of_length_eq heq.symm (fun j i => j < i) Nat.lt_irrefl true
      · exact isBest_of_length_eq heq.symm (fun j i => i < j) Nat.lt_irrefl false
    · rw [searchBlock_of_gt hnull.1 hgt sub.size]
      refine iff_of_false (fun h => h.1) fun h => ?_
      cases hcounted : sub.counted with
      | true => exact hnull.2 ⟨hcounted, hgt⟩
      | false =>
          rcases h.fits hcounted with hempty | hle
          · exact hnull.1 hempty
          · omega

end Search

/-- The last byte of `abc`. -/
def lastByte : Block × Sub :=
  (⟨[97, 98, 99], by decide⟩, ⟨⟨[99], by decide⟩, true, by decide, by decide⟩)

/-- The loop forward ends before it. -/
theorem not_searches_lastByte : ¬ Searches lastByte.1 lastByte.2 := by
  rintro ⟨hfirst, _⟩
  have hnull : memFind lastByte.1 lastByte.2.subStr lastByte.2.subLen true = .null := by decide
  rw [hnull] at hfirst
  exact hfirst 2 ⟨by decide, by decide⟩

end Base
end TcMuzi
