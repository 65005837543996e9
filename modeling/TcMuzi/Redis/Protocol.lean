import TcMuzi.Redis.Context

/-!
# Replies as a server sends them

`encode` is the form of a reply in the protocol of Redis, and `Sendable` says which replies
have one that the reader takes: at most eight arrays around an item, integers of 64 bits, no
line end in a status or an error.

* `string2ll_eq_some_iff`: the numbers of the protocol are the printed forms of integers.
* `settle_encode`: an item is read and nothing behind it.
* `getReplies_encode`: replies come out of a connection as they were sent.
-/

namespace TcMuzi
namespace Redis
namespace Read

open Base Lib Lib.Decimal

/-! ## Numbers -/

/-- The last digit behind the other ones. -/
theorem ofNat_div {n : Nat} (hn : 10 ≤ n) : ∃ c, ofNat n = ofNat (n / 10) ++ [c] := by
  have hdigits : ∀ d < 10, isDigit (UInt8.ofNat (48 + d)) = true ∧
      (UInt8.ofNat (48 + d) - 48).toNat = d := by decide
  obtain ⟨hdigit, hsub⟩ := hdigits (n % 10) (by omega)
  have happend := ofNat_append_digit (show 0 < n / 10 by omega) hdigit
  rw [hsub, show n / 10 * 10 + n % 10 = n by omega] at happend
  exact ⟨_, happend⟩

/-- A positive number starts with a digit that is not zero. -/
theorem ofNat_head {n : Nat} (hn : 0 < n) : ∃ c digits, ofNat n = c :: digits ∧ 49 ≤ c := by
  induction n using Nat.strongRecOn with
  | ind n ih =>
      by_cases hlt : n < 10
      · have hone : ∀ m < 10, 0 < m → ∃ c digits, ofNat m = c :: digits ∧ 49 ≤ c := by
          intro m hm hpos
          have hdigits : ∀ m < 10, 0 < m → ofNat m = [UInt8.ofNat (48 + m)] ∧
              49 ≤ UInt8.ofNat (48 + m) := by decide
          obtain ⟨heq, hle⟩ := hdigits m hm hpos
          exact ⟨_, [], heq, hle⟩
        exact hone n hlt hn
      · obtain ⟨c, digits, heq, hle⟩ := ih (n / 10) (by omega) (by omega)
        obtain ⟨last, hlast⟩ := ofNat_div (show 10 ≤ n by omega)
        rw [heq, List.cons_append] at hlast
        exact ⟨c, _, hlast, hle⟩

/-- The digits of a number that fits into 64 bits pass both tests. -/
theorem string2llDigits_extend {v : Nat} {digits : List UInt8}
    (hdigits : ∀ c ∈ digits, isDigit c = true) (hfits : extend v digits ≤ 18446744073709551615) :
    string2llDigits v digits = some (extend v digits) := by
  induction digits generalizing v with
  | nil => rfl
  | cons c digits ih =>
      have hc := hdigits c List.mem_cons_self
      rw [extend_cons hc] at hfits ⊢
      have hrange : 48 ≤ c ∧ c ≤ 57 := by
        rw [isDigit, Bool.and_eq_true, decide_eq_true_eq, decide_eq_true_eq] at hc
        exact hc
      have hle := (self_le_extend (v * 10 + (c - 48).toNat) digits).trans hfits
      -- a longer numeral is not smaller, so no part of it fails a test
      rw [string2llDigits, if_pos hrange, if_neg (by omega), if_neg (by omega)]
      exact ih (fun d hd => hdigits d (List.mem_cons_of_mem c hd)) hfits

/-- A positive number behind an optional sign. -/
theorem string2llDigits_ofNat {n : Nat} (hn : 0 < n) (hfits : n ≤ 18446744073709551615) :
    ∃ c p, ofNat n = c :: p ∧ 49 ≤ c ∧ c ≤ 57 ∧ string2llDigits (c - 48).toNat p = some n := by
  obtain ⟨c, p, heq, hle⟩ := ofNat_head hn
  have hdigits : ∀ d ∈ c :: p, isDigit d = true := fun d hd =>
    isDigit_of_mem_ofNat (heq ▸ hd)
  have hvalue : extend (c - 48).toNat p = n := by
    have hnat := natValue_ofNat n
    rw [heq, ← extend_zero, extend_cons (hdigits c List.mem_cons_self), Nat.zero_mul,
      Nat.zero_add] at hnat
    exact hnat
  have hhi : c ≤ 57 := by
    have hc := hdigits c List.mem_cons_self
    rw [isDigit, Bool.and_eq_true, decide_eq_true_eq, decide_eq_true_eq] at hc
    exact hc.2
  refine ⟨c, p, heq, hle, hhi, ?_⟩
  rw [string2llDigits_extend (fun d hd => hdigits d (List.mem_cons_of_mem c hd))
    (hvalue.symm ▸ hfits), hvalue]

theorem string2ll_ofNat {n : Nat} (hfits : n ≤ 9223372036854775807) :
    string2ll (ofNat n) = some (n : Int) := by
  obtain rfl | hn := Nat.eq_zero_or_pos n
  · decide
  obtain ⟨c, p, heq, hlo, hhi, hvalue⟩ := string2llDigits_ofNat hn (by omega)
  have hzero : ¬ c :: p = [48] := by
    intro h
    rw [(List.cons.inj h).1] at hlo
    exact absurd hlo (by decide)
  have hminus : ¬ (c :: p).head? = some 45 := by
    intro h
    rw [Option.some.inj h] at hlo
    exact absurd hlo (by decide)
  rw [string2ll, heq, if_neg (List.cons_ne_nil c p), if_neg hzero]
  simp only [hminus, decide_false, Bool.false_eq_true, if_false]
  rw [if_pos ⟨hlo, hhi⟩, hvalue]
  exact if_neg (by omega)

/-- **A number is read as it was printed.** -/
theorem string2ll_ofInt {n : Int} (hlo : -9223372036854775808 ≤ n)
    (hhi : n ≤ 9223372036854775807) : string2ll (ofInt n) = some n := by
  cases n with
  | ofNat n =>
      rw [Int.ofNat_eq_natCast] at hhi
      exact string2ll_ofNat (by omega)
  | negSucc n =>
      obtain ⟨c, p, heq, hlo', hhi', hvalue⟩ := string2llDigits_ofNat (Nat.succ_pos n) (by omega)
      rw [ofInt, heq, string2ll, if_neg (List.cons_ne_nil _ _),
        if_neg fun h => absurd (List.cons.inj h).1 (by decide)]
      simp only [List.head?_cons, minus, decide_true, if_true, List.tail_cons]
      rw [if_pos ⟨hlo', hhi'⟩, hvalue]
      simp only
      rw [if_neg (by omega)]
      rfl

/-- The digits that were read, when both tests were passed. -/
theorem string2llDigits_eq_some {v n : Nat} {p : List UInt8} (h : string2llDigits v p = some n) :
    (∀ c ∈ p, isDigit c = true) ∧ extend v p = n := by
  induction p generalizing v with
  | nil => exact ⟨fun c hc => absurd hc List.not_mem_nil, Option.some.inj h⟩
  | cons c p ih =>
      rw [string2llDigits] at h
      split_ifs at h with hrange hover hsum
      have hc : isDigit c = true := by
        rw [isDigit, Bool.and_eq_true, decide_eq_true_eq, decide_eq_true_eq]
        exact hrange
      obtain ⟨hdigits, hvalue⟩ := ih h
      refine ⟨fun d hd => ?_, (extend_cons hc v p).trans hvalue⟩
      obtain rfl | hd := List.mem_cons.mp hd
      · exact hc
      · exact hdigits d hd

/-- A positive number is printed as it was read. -/
theorem ofNat_of_string2llDigits {c : UInt8} (hlo : 49 ≤ c) (hhi : c ≤ 57) {p : List UInt8}
    {n : Nat} (h : string2llDigits (c - 48).toNat p = some n) : ofNat n = c :: p ∧ 0 < n := by
  obtain ⟨hdigits, hvalue⟩ := string2llDigits_eq_some h
  have hc : isDigit c = true := by
    rw [isDigit, Bool.and_eq_true, decide_eq_true_eq, decide_eq_true_eq]
    exact ⟨UInt8.le_trans (show (48 : UInt8) ≤ 49 by decide) hlo, hhi⟩
  have hpos : 0 < (c - 48).toNat := by
    have hnat : 49 ≤ c.toNat := UInt8.le_iff_toNat_le.mp hlo
    rw [toNat_sub_digit hc]
    omega
  have heq := ofNat_extend hpos hdigits
  rw [hvalue, ofNat_digit hc] at heq
  exact ⟨heq, hvalue ▸ lt_of_lt_of_le hpos (self_le_extend _ p)⟩

/-- **`string2ll` takes the printed forms of the integers of 64 bits and nothing else**: no sign
alone, no leading zero, no blank and no number that does not fit. -/
theorem string2ll_eq_some_iff {s : List UInt8} {n : Int} :
    string2ll s = some n ↔
      s = ofInt n ∧ -9223372036854775808 ≤ n ∧ n ≤ 9223372036854775807 := by
  refine ⟨fun h => ?_, ?_⟩
  · rw [string2ll] at h
    split_ifs at h with hnil hzero
    · cases h
      exact ⟨hzero, by decide, by decide⟩
    · by_cases hneg : s.head? = some 45
      · obtain ⟨t, rfl⟩ := List.head?_eq_some_iff.mp hneg
        simp only [List.head?_cons, decide_true, if_true, List.tail_cons] at h
        cases t with
        | nil => cases h
        | cons c p =>
            simp only at h
            split_ifs at h with hrange
            cases hvalue : string2llDigits (c - 48).toNat p with
            | none =>
                rw [hvalue] at h
                cases h
            | some v =>
                rw [hvalue] at h
                simp only at h
                split_ifs at h with hfits
                cases h
                obtain ⟨heq, hpos⟩ := ofNat_of_string2llDigits hrange.1 hrange.2 hvalue
                obtain ⟨m, rfl⟩ : ∃ m, v = m + 1 := ⟨v - 1, by omega⟩
                refine ⟨?_, by omega, by omega⟩
                rw [← heq]
                rfl
      · simp only [hneg, decide_false, Bool.false_eq_true, if_false] at h
        cases s with
        | nil => exact absurd rfl hnil
        | cons c p =>
            simp only at h
            split_ifs at h with hrange
            cases hvalue : string2llDigits (c - 48).toNat p with
            | none =>
                rw [hvalue] at h
                cases h
            | some v =>
                rw [hvalue] at h
                simp only at h
                split_ifs at h with hfits
                cases h
                obtain ⟨heq, -⟩ := ofNat_of_string2llDigits hrange.1 hrange.2 hvalue
                exact ⟨heq.symm, by omega, by omega⟩
  · rintro ⟨rfl, hlo, hhi⟩
    exact string2ll_ofInt hlo hhi

/-! ## Lines -/

def crlf : List UInt8 := [13, 10]

theorem seekNewline_line {line : List UInt8} (h : seekNewline line = none) (rest : List UInt8) :
    seekNewline (line ++ (crlf ++ rest)) = some line.length := by
  induction line with
  | nil => rfl
  | cons c line ih =>
      cases line with
      | nil =>
          rw [List.singleton_append, crlf, List.cons_append, seekNewline_cons_cons,
            if_neg fun hcrlf => absurd hcrlf.2 (by decide)]
          rfl
      | cons d line =>
          rw [seekNewline_cons_cons] at h
          rw [List.cons_append, List.cons_append, seekNewline_cons_cons]
          split_ifs at h with hcrlf
          rw [if_neg hcrlf, ← List.cons_append, ih (Option.map_eq_none_iff.mp h)]
          rfl

theorem seekNewline_of_notMem {line : List UInt8} (h : (13 : UInt8) ∉ line) :
    seekNewline line = none := by
  induction line with
  | nil => rfl
  | cons c line ih =>
      rw [List.mem_cons, not_or] at h
      cases line with
      | nil => rfl
      | cons d line =>
          rw [seekNewline_cons_cons, if_neg fun hcrlf => h.1 hcrlf.1.symm, ih h.2]
          rfl

theorem cr_notMem_ofNat (n : Nat) : (13 : UInt8) ∉ ofNat n := fun h =>
  absurd (isDigit_of_mem_ofNat h) (by decide)

theorem cr_notMem_ofInt (n : Int) : (13 : UInt8) ∉ ofInt n := by
  cases n with
  | ofNat n => exact cr_notMem_ofNat n
  | negSucc n =>
      rw [ofInt, List.mem_cons, not_or]
      exact ⟨by decide, cr_notMem_ofNat (n + 1)⟩

theorem typedStep_line {line : List UInt8} (h : seekNewline line = none) (type : ItemType)
    (cur : ReadTask) (rest : List ReadTask) (behind : List UInt8) :
    typedStep type cur rest (line ++ (crlf ++ behind)) = lineStep type cur rest line behind := by
  have hdrop : (line ++ (crlf ++ behind)).drop (line.length + 2) = behind := by
    rw [← List.drop_drop, List.drop_left]
    rfl
  rw [typedStep_of_seek (seekNewline_line h behind), List.take_left, hdrop]

/-! ## The form of a reply -/

mutual

/-- A reply in the protocol of Redis. -/
def encode : RedisReply → List UInt8
  | .string str => 36 :: (ofNat str.length ++ (crlf ++ (str ++ crlf)))
  | .array element => 42 :: (ofNat element.length ++ (crlf ++ encodeAll element))
  | .integer integer => 58 :: (ofInt integer ++ crlf)
  | .nil => 36 :: ([45, 49] ++ crlf)
  | .status str => 43 :: (str ++ crlf)
  | .error str => 45 :: (str ++ crlf)

def encodeAll : List RedisReply → List UInt8
  | [] => []
  | reply :: replies => encode reply ++ encodeAll replies

end

mutual

/-- A reply that the reader takes with `depth` arrays around it. -/
def Sendable : Nat → RedisReply → Prop
  | _, .string str => str.length ≤ 9223372036854775807
  | depth, .array element =>
      depth < 8 ∧ element.length ≤ 2147483647 ∧ SendableAll (depth + 1) element
  | _, .integer integer => -9223372036854775808 ≤ integer ∧ integer ≤ 9223372036854775807
  | _, .nil => True
  | _, .status str => seekNewline str = none
  | _, .error str => seekNewline str = none

def SendableAll : Nat → List RedisReply → Prop
  | _, [] => True
  | depth, reply :: replies => Sendable depth reply ∧ SendableAll depth replies

end

/-! ## What is read of it -/

/-- The reader at a task, in front of some bytes. -/
abbrev reads (cur : ReadTask) (rest : List ReadTask) (unread : List UInt8) :
    Reassembly.Settled State UInt8 Out :=
  Reassembly.settle itemStep (.reading cur rest) unread

/-- The reader behind a complete object. -/
abbrev readsBehind (obj : RedisReply) (cur : ReadTask) (rest : List ReadTask)
    (unread : List UInt8) : Reassembly.Settled State UInt8 Out :=
  (Reassembly.settle itemStep (outcome obj cur rest).1 unread).after
    (outcome obj cur rest).2.toList

section Item

variable {cur : ReadTask} {rest : List ReadTask}

theorem reads_byte {byte : UInt8} (type : ItemType) (hcur : cur.type = none)
    (hbyte : itemType byte = some type) (hdepth : type = .array → rest.length ≠ 8)
    (unread : List UInt8) :
    reads cur rest (byte :: unread) = reads { cur with type := some type } rest unread := by
  have hstep : itemStep (.reading cur rest) (byte :: unread) =
      some (.reading { cur with type := some type } rest, unread, none) := by
    have hdeep : ¬ (type = .array ∧ rest.length = 8) := fun h => hdepth h.1 h.2
    simp [itemStep, hcur, hbyte, hdeep]
  rw [reads, Reassembly.settle_step steady hstep]
  rfl

theorem reads_step {type : ItemType} (hcur : cur.type = some type) {s : State}
    {unread left : List UInt8} {out : Option Out}
    (hstep : typedStep type cur rest unread = some (s, left, out)) :
    reads cur rest unread = (Reassembly.settle itemStep s left).after out.toList := by
  have hitem : itemStep (.reading cur rest) unread = some (s, left, out) := by
    simp only [itemStep, hcur]
    exact hstep
  rw [reads, Reassembly.settle_step steady hitem]

theorem reads_line {type : ItemType} (hcur : cur.type = some type) {line : List UInt8}
    (hline : seekNewline line = none) {obj : RedisReply} {behind left : List UInt8}
    (hstep : lineStep type cur rest line behind = finished obj cur rest left) :
    reads cur rest (line ++ (crlf ++ behind)) = readsBehind obj cur rest left :=
  reads_step hcur ((typedStep_line hline type cur rest behind).trans hstep)

end Item

theorem readsBehind_next {obj : RedisReply} {cur prv : ReadTask} {rest : List ReadTask}
    (hidx : cur.idx ≠ prv.elements - 1) (unread : List UInt8) :
    readsBehind obj cur (prv :: rest) unread =
      reads { cur with type := none, elements := -1, idx := cur.idx + 1 }
        ({ prv with element := prv.element ++ [obj] } :: rest) unread := by
  simp [readsBehind, reads, outcome, moveToNextTask, hidx]

theorem readsBehind_last {obj : RedisReply} {cur prv : ReadTask} {rest : List ReadTask}
    (hidx : cur.idx = prv.elements - 1) (unread : List UInt8) :
    readsBehind obj cur (prv :: rest) unread =
      readsBehind (.array (prv.element ++ [obj])) { prv with element := prv.element ++ [obj] } rest
        unread := by
  have hmove : moveToNextTask obj cur (prv :: rest) =
      moveToNextTask (.array (prv.element ++ [obj])) { prv with element := prv.element ++ [obj] }
        rest := by
    rw [moveToNextTask]
    exact if_pos hidx
  rw [readsBehind, readsBehind, outcome, outcome, hmove]

mutual

/-- **An item is read and nothing behind it.** -/
theorem settle_encode : ∀ (x : RedisReply) {cur : ReadTask} {rest : List ReadTask},
    cur.type = none → Sendable rest.length x → ∀ more,
      ∃ cur' : ReadTask, cur'.idx = cur.idx ∧
        reads cur rest (encode x ++ more) = readsBehind x cur' rest more
  | .string str, cur, rest, hcur, hsend, more => by
      rw [Sendable] at hsend
      refine ⟨{ cur with type := some .string }, rfl, ?_⟩
      rw [encode, List.cons_append, reads_byte .string hcur rfl (fun h => by cases h), List.append_assoc,
        List.append_assoc, List.append_assoc]
      refine reads_line rfl (seekNewline_of_notMem (cr_notMem_ofNat _)) ?_
      have hdrop : (str ++ (crlf ++ more)).drop (str.length + 2) = more := by
        rw [← List.drop_drop, List.drop_left]
        rfl
      simp only [lineStep, string2ll_ofNat hsend]
      rw [if_neg (by omega), if_neg (by omega), Int.toNat_natCast, List.take_left, hdrop]
      exact if_pos (by simp [crlf])
  | .integer integer, cur, rest, hcur, hsend, more => by
      rw [Sendable] at hsend
      refine ⟨{ cur with type := some .integer }, rfl, ?_⟩
      rw [encode, List.cons_append, reads_byte .integer hcur rfl (fun h => by cases h), List.append_assoc]
      refine reads_line rfl (seekNewline_of_notMem (cr_notMem_ofInt _)) ?_
      simp only [lineStep, string2ll_ofInt hsend.1 hsend.2]
  | .nil, cur, rest, hcur, _, more => by
      refine ⟨{ cur with type := some .string }, rfl, ?_⟩
      rw [encode, List.cons_append, reads_byte .string hcur rfl (fun h => by cases h), List.append_assoc]
      exact reads_line rfl (seekNewline_of_notMem (by decide)) rfl
  | .status str, cur, rest, hcur, hsend, more => by
      rw [Sendable] at hsend
      refine ⟨{ cur with type := some .status }, rfl, ?_⟩
      rw [encode, List.cons_append, reads_byte .status hcur rfl (fun h => by cases h), List.append_assoc]
      exact reads_line rfl hsend rfl
  | .error str, cur, rest, hcur, hsend, more => by
      rw [Sendable] at hsend
      refine ⟨{ cur with type := some .error }, rfl, ?_⟩
      rw [encode, List.cons_append, reads_byte .error hcur rfl (fun h => by cases h), List.append_assoc]
      exact reads_line rfl hsend rfl
  | .array element, cur, rest, hcur, hsend, more => by
      rw [Sendable] at hsend
      obtain ⟨hdepth, hlength, hall⟩ := hsend
      rw [encode, List.cons_append, reads_byte .array hcur rfl (fun _ => by omega), List.append_assoc,
        List.append_assoc]
      have hnumber : string2ll (ofNat element.length) = some (element.length : Int) :=
        string2ll_ofNat (by omega)
      have hrange : ¬ ((element.length : Int) < -1 ∨ 2147483647 < (element.length : Int)) := by
        omega
      by_cases hnil : element = []
      · subst hnil
        refine ⟨{ cur with type := some .array }, rfl, ?_⟩
        refine reads_line rfl (seekNewline_of_notMem (cr_notMem_ofNat _)) ?_
        simp only [lineStep, hnumber]
        rfl
      -- the task of the array goes under a task for its first element
      · have hpos := List.length_pos_iff.mpr hnil
        have hstep : typedStep .array { cur with type := some .array } rest
            (ofNat element.length ++ (crlf ++ (encodeAll element ++ more))) =
              some (.reading (.fresh 0) ({ cur with
                type := some .array, elements := element.length, element := [] } :: rest),
                encodeAll element ++ more, none) := by
          rw [typedStep_line (seekNewline_of_notMem (cr_notMem_ofNat _))]
          simp only [lineStep, hnumber]
          rw [if_neg hrange, if_neg (by omega), if_pos (by omega)]
        rw [reads_step rfl hstep]
        refine ⟨{ cur with type := some .array, elements := element.length, element := element },
          rfl, ?_⟩
        exact @settle_encodeAll element hnil (.fresh 0) { cur with
          type := some .array, elements := element.length, element := [] } rest rfl rfl
          (by simp) hall more

theorem settle_encodeAll : ∀ (xs : List RedisReply), xs ≠ [] → ∀ {cur prv : ReadTask}
    {rest : List ReadTask}, cur.type = none → cur.idx = prv.element.length →
      prv.elements = prv.element.length + xs.length → SendableAll (rest.length + 1) xs → ∀ more,
        reads cur (prv :: rest) (encodeAll xs ++ more) =
          readsBehind (.array (prv.element ++ xs)) { prv with element := prv.element ++ xs } rest
            more
  | [], hne, _, _, _, _, _, _, _, _ => absurd rfl hne
  | x :: xs, _, cur, prv, rest, hcur, hidx, helements, hsend, more => by
      rw [SendableAll] at hsend
      rw [encodeAll, List.append_assoc]
      obtain ⟨cur', hidx', hreads⟩ := @settle_encode x cur (prv :: rest) hcur hsend.1
        (encodeAll xs ++ more)
      rw [hreads]
      -- the last element completes the array, every other one leads to the next
      by_cases hlast : xs = []
      · subst hlast
        rw [List.length_singleton] at helements
        rw [readsBehind_last (by omega)]
        rfl
      · have hpos := List.length_pos_iff.mpr hlast
        rw [List.length_cons] at helements
        rw [readsBehind_next (by omega)]
        have hrest := @settle_encodeAll xs hlast
          { cur' with type := none, elements := -1, idx := cur'.idx + 1 }
          { prv with element := prv.element ++ [x] } rest rfl
          (by simp only [List.length_append, List.length_singleton]; omega)
          (by simp only [List.length_append, List.length_singleton]; omega) hsend.2 more
        rw [hrest]
        simp only [List.append_assoc, List.singleton_append]

end

/-! ## Replies in a row -/

theorem settle_idle_nil : Reassembly.settle itemStep idle [] = ⟨idle, [], []⟩ :=
  Reassembly.settle_wait (itemStep_nil idle)

theorem settle_idle_encode {x : RedisReply} (hsend : Sendable 0 x) (more : List UInt8) :
    Reassembly.settle itemStep idle (encode x ++ more) =
      (Reassembly.settle itemStep idle more).after [.reply x] := by
  obtain ⟨cur, -, hreads⟩ := @settle_encode x (.fresh (-1)) [] rfl hsend more
  exact hreads

theorem settle_idle_encodeAll {xs : List RedisReply} (hsend : SendableAll 0 xs)
    (more : List UInt8) :
    Reassembly.settle itemStep idle (encodeAll xs ++ more) =
      (Reassembly.settle itemStep idle more).after (xs.map .reply) := by
  induction xs with
  | nil => rfl
  | cons x xs ih =>
      rw [SendableAll] at hsend
      rw [encodeAll, List.append_assoc, settle_idle_encode hsend.1, ih hsend.2]
      simp

theorem outs_encodeAll {xs : List RedisReply} (hsend : SendableAll 0 xs) :
    (Reassembly.settle itemStep idle (encodeAll xs)).outs = xs.map .reply := by
  have hsettle := settle_idle_encodeAll hsend []
  rw [List.append_nil, settle_idle_nil] at hsettle
  rw [hsettle]
  exact List.append_nil _

/-- The part of a reply is no longer than the reply. -/
theorem bounded_encodeAll {xs : List RedisReply} (hsend : SendableAll 0 xs)
    (hlength : ∀ x ∈ xs, (encode x).length ≤ 2147466240) {reads : List ReadResult}
    (hpieces : Pieces reads) (hdelivered : delivered reads = encodeAll xs) :
    Bounded idle [] reads := by
  have hparts : ∀ front, front <+: encodeAll xs →
      (Reassembly.settle itemStep idle front).rest.length ≤ 2147466240 := by
    clear hdelivered
    induction xs with
    | nil =>
        intro front hfront
        rw [List.prefix_nil.mp hfront, settle_idle_nil]
        exact Nat.zero_le _
    | cons x xs ih =>
        rw [SendableAll] at hsend
        intro front hfront
        rw [encodeAll] at hfront
        obtain hpart | ⟨behind, rfl⟩ :=
          List.prefix_or_prefix_of_prefix hfront (List.prefix_append (encode x) (encodeAll xs))
        · exact (Reassembly.length_rest_settle_le steady _ _).trans
            (hpart.length_le.trans (hlength x List.mem_cons_self))
        · rw [settle_idle_encode hsend.1, Reassembly.Settled.rest_after]
          exact ih hsend.2 (fun y hy => hlength y (List.mem_cons_of_mem x hy)) behind
            ((List.prefix_append_right_inj _).mp hfront)
  exact ⟨hpieces, fun front hfront => hparts front (hdelivered ▸ hfront)⟩

theorem expected_replies (last : RedisError) (xs : List RedisReply) (n : Nat) :
    expected last (xs.map .reply) (xs.length + n) =
      xs.map (fun x => (some x, none)) ++ List.replicate n (none, some last) := by
  induction xs with
  | nil => rw [List.map_nil, List.length_nil, Nat.zero_add, expected_nil]; rfl
  | cons x xs ih =>
      rw [List.map_cons, List.length_cons, Nat.add_right_comm, expected, ih]
      rfl

/-- **Replies come out of a connection as the server sent them**, in order and each once, in
whatever parts they arrive. -/
theorem getReplies_encode {xs : List RedisReply} {obuf : List UInt8} {reads : List ReadResult}
    {writes : List WriteResult} (hsend : SendableAll 0 xs)
    (hlength : ∀ x ∈ xs, (encode x).length ≤ 2147466240) (hpieces : Pieces reads)
    (hdelivered : delivered reads = encodeAll xs)
    (hwrites : ∀ errstr, WriteResult.failed errstr ∉ writes) (hobuf : obuf.length ≤ 2147483647)
    (n : Nat) :
    getReplies (xs.length + n) ⟨none, obuf, .create, reads, writes, []⟩ =
      xs.map (fun x => (some x, none)) ++ List.replicate n (none, some (ending reads)) := by
  rw [getReplies_live (@live_of_create ⟨none, obuf, .create, reads, writes, []⟩
    ⟨rfl, hwrites, hobuf⟩ rfl (bounded_encodeAll hsend hlength hpieces hdelivered))]
  show expected _ (Reassembly.settle itemStep idle (delivered reads)).outs _ = _
  rw [hdelivered, outs_encodeAll hsend, expected_replies]

/-- An array and a number, cut in the middle of the array. -/
theorem getReplies_encode_two :
    getReplies (2 + 1) ⟨none, [], .create,
        [.bytes ((encodeAll [.array [.string [97], .nil], .integer (-7)]).take 9), .interrupted,
          .bytes ((encodeAll [.array [.string [97], .nil], .integer (-7)]).drop 9)], [], []⟩ =
      [(some (.array [.string [97], .nil]), none), (some (.integer (-7)), none)] ++
        List.replicate 1 (none, some .eof) :=
  @getReplies_encode [.array [.string [97], .nil], .integer (-7)] [] _ []
    (by simp [SendableAll, Sendable]) (by decide) (by simp [Pieces, encodeAll]; decide) (by decide)
    (by simp) (by decide) 1

end Read
end Redis
end TcMuzi
