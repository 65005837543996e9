import TcMuzi.Http.ParserRuns

/-!
# The names of the header fields

A name is compared with five texts while it is read.  `Named` says how far the matcher is
behind the lower-case bytes of a name, so that a text is found exactly when it is the whole
name.
-/

namespace TcMuzi
namespace Http
namespace Machine

open Base Lib

/-! ## The matcher -/

/-- A text, the states while it is matched and behind it, and the length from which on it is
told from the other ones. -/
structure Matcher where
  state : HeaderState
  text : List UInt8
  done : HeaderState
  least : Nat
deriving DecidableEq

def matchers : List Matcher :=
  [⟨.matchingConnection, connectionName, .connection, 4⟩,
    ⟨.matchingProxyConnection, proxyConnectionName, .connection, 1⟩,
    ⟨.matchingContentLength, contentLengthName, .contentLength, 4⟩,
    ⟨.matchingTransferEncoding, transferEncodingName, .transferEncoding, 1⟩,
    ⟨.matchingUpgrade, upgradeName, .upgrade, 1⟩]

/-- The states in front of the place where `connection` and `content-length` part. -/
def starts : List (HeaderState × List UInt8) :=
  [(.c, (CString.lit "c").bytes), (.co, (CString.lit "co").bytes), (.con, (CString.lit "con").bytes)]

/-- The matcher behind the lower-case bytes of a name. -/
inductive Named (word : List UInt8) (s : Parser) : Prop
  | general (hstate : s.headerState = .general) (hno : ∀ m ∈ matchers, ¬ word <+: m.text)
  | start (hstart : (s.headerState, word) ∈ starts) (hindex : s.index + 1 = word.length)
  | partly (m : Matcher) (hm : m ∈ matchers) (hstate : s.headerState = m.state)
      (hle : m.least ≤ word.length) (hlt : word.length < m.text.length) (hword : word <+: m.text)
      (hindex : s.index + 1 = word.length)
  | found (m : Matcher) (hm : m ∈ matchers) (hstate : s.headerState = m.done) (hword : word = m.text)

theorem matchers_apart : ∀ m ∈ matchers, ∀ m' ∈ matchers,
    m.text.take m.least <+: m'.text → m'.text = m.text := by decide

theorem matchers_short : ∀ m ∈ matchers, m.text.length < 256 ∧ 1 ≤ m.least ∧
    m.least < m.text.length := by decide

/-- A byte that does not go on with the text that is matched. -/
theorem not_prefix_of_mismatch {m : Matcher} (hm : m ∈ matchers) {word : List UInt8}
    (hle : m.least ≤ word.length) (hword : word <+: m.text) {c : UInt8}
    (hc : ¬ word ++ [c] <+: m.text) : ∀ m' ∈ matchers, ¬ word ++ [c] <+: m'.text := by
  intro m' hm' hprefix
  have hfront : m.text.take m.least <+: word := by
    rw [List.prefix_iff_eq_take.mp hword]
    exact List.take_prefix_take_left hle
  have heq := matchers_apart m hm m' hm' (hfront.trans ((List.prefix_append word [c]).trans hprefix))
  exact hc (heq ▸ hprefix)

theorem prefix_getD {word text : List UInt8} (hword : word <+: text) (hlt : word.length < text.length)
    (c : UInt8) : word ++ [c] <+: text ↔ c = text.getD word.length 0 := by
  obtain ⟨rest, rfl⟩ := hword
  rw [List.prefix_append_right_inj]
  cases rest with
  | nil => simp at hlt
  | cons b rest => simp [List.cons_prefix_cons]

/-- One more byte of a text that is matched. -/
theorem Named.matching {word : List UInt8} {s : Parser} {m : Matcher} (hm : m ∈ matchers)
    (hstate : s.headerState = m.state) (hle : m.least ≤ word.length)
    (hlt : word.length < m.text.length) (hword : word <+: m.text) (hindex : s.index + 1 = word.length)
    (c : UInt8) : Named (word ++ [c]) (matching m.text m.done s c) := by
  obtain ⟨hshort, -, -⟩ := matchers_short m hm
  have hbump : bump s.index = word.length := by
    rw [bump, hindex]
    omega
  have hnext := prefix_getD hword hlt c
  unfold Machine.matching
  rw [hbump]
  dsimp only
  by_cases hc : c = m.text.getD word.length 0
  · rw [if_neg (by simp [hc]; omega)]
    have hlonger := hnext.mpr hc
    split_ifs with hend
    · refine .found m hm rfl (hlonger.eq_of_length ?_)
      rw [List.length_append, List.length_singleton, hend]
    · refine .partly m hm hstate ?_ ?_ hlonger ?_
      · rw [List.length_append]
        omega
      · rw [List.length_append, List.length_singleton]
        omega
      · rw [List.length_append, List.length_singleton]
  · rw [if_pos (.inr hc)]
    exact .general rfl (not_prefix_of_mismatch hm hle hword (mt hnext.mp hc))

/-- A byte that goes on with no text. -/
theorem not_prefix_of_start {word : List UInt8} (nexts : List UInt8)
    (h : ∀ m ∈ matchers, word <+: m.text → m.text.getD word.length 0 ∈ nexts) {c : UInt8}
    (hc : c ∉ nexts) : ∀ m ∈ matchers, ¬ word ++ [c] <+: m.text := by
  intro m hm hprefix
  have hword := (List.prefix_append word [c]).trans hprefix
  have hlt := hprefix.length_le
  rw [List.length_append, List.length_singleton] at hlt
  exact hc ((prefix_getD hword hlt c).mp hprefix ▸ h m hm hword)

theorem Named.start_next {word : List UInt8} {s : Parser} (hstart : (s.headerState, word) ∈ starts)
    (hindex : s.index + 1 = word.length) (ch c : UInt8) :
    ∃ s', headerNameByte s ch c = some s' ∧ Named (word ++ [c]) s' := by
  simp only [starts, List.mem_cons, List.not_mem_nil, or_false, Prod.mk.injEq] at hstart
  obtain ⟨hstate, rfl⟩ | ⟨hstate, rfl⟩ | ⟨hstate, rfl⟩ := hstart
  · have hzero : s.index = 0 := Nat.succ.inj hindex
    refine ⟨matchingStart 111 .co s c, by rw [headerNameByte, hstate], ?_⟩
    unfold matchingStart
    by_cases hc : c = 111
    · rw [if_pos hc, hzero]
      exact .start (hc ▸ (by decide : (HeaderState.co, (CString.lit "c").bytes ++ [111]) ∈ starts)) rfl
    · rw [if_neg hc]
      exact .general rfl (not_prefix_of_start [111] (by decide) (by simpa using hc))
  · have hone : s.index = 1 := Nat.succ.inj hindex
    refine ⟨matchingStart 110 .con s c, by rw [headerNameByte, hstate], ?_⟩
    unfold matchingStart
    by_cases hc : c = 110
    · rw [if_pos hc, hone]
      exact .start (hc ▸ (by decide : (HeaderState.con, (CString.lit "co").bytes ++ [110]) ∈ starts)) rfl
    · rw [if_neg hc]
      exact .general rfl (not_prefix_of_start [110] (by decide) (by simpa using hc))
  · have htwo : s.index = 2 := Nat.succ.inj hindex
    refine ⟨_, by rw [headerNameByte, hstate], ?_⟩
    rw [htwo]
    by_cases hn : c = 110
    · rw [if_pos hn, hn]
      exact .partly ⟨.matchingConnection, connectionName, .connection, 4⟩ (by decide) rfl
        (by decide) (by decide) (by decide) rfl
    · rw [if_neg hn]
      by_cases ht : c = 116
      · rw [if_pos ht, ht]
        exact .partly ⟨.matchingContentLength, contentLengthName, .contentLength, 4⟩ (by decide) rfl
          (by decide) (by decide) (by decide) rfl
      · rw [if_neg ht]
        exact .general rfl (not_prefix_of_start [110, 116] (by decide) (by simp [hn, ht]))

/-- One more byte of a name. -/
theorem Named.next {word : List UInt8} {s : Parser} (h : Named word s) {ch c : UInt8}
    (hblank : ch ≠ 32) : ∃ s', headerNameByte s ch c = some s' ∧ Named (word ++ [c]) s' := by
  cases h with
  | general hstate hno =>
      refine ⟨s, by rw [headerNameByte, hstate], .general hstate fun m hm hprefix => ?_⟩
      exact hno m hm ((List.prefix_append word [c]).trans hprefix)
  | start hstart hindex => exact Named.start_next hstart hindex ch c
  | partly m hm hstate hle hlt hword hindex =>
      refine ⟨Machine.matching m.text m.done s c, ?_, .matching hm hstate hle hlt hword hindex c⟩
      simp only [matchers, List.mem_cons, List.not_mem_nil, or_false] at hm
      obtain rfl | rfl | rfl | rfl | rfl := hm <;> rw [headerNameByte, hstate]
  | found m hm hstate hword =>
      refine ⟨{ s with headerState := .general }, ?_, .general rfl fun m' hm' hprefix => ?_⟩
      · simp only [matchers, List.mem_cons, List.not_mem_nil, or_false] at hm
        obtain rfl | rfl | rfl | rfl | rfl := hm <;> rw [headerNameByte, hstate] <;>
          exact congrArg some (if_pos hblank)
      · subst hword
        have hfront : m.text.take m.least <+: m'.text :=
          (List.take_prefix ..).trans ((List.prefix_append m.text [c]).trans hprefix)
        have hlength := hprefix.length_le
        rw [matchers_apart m hm m' hm' hfront, List.length_append, List.length_singleton] at hlength
        omega

/-- The first byte of a name. -/
theorem named_first (s : Parser) (c : UInt8) :
    Named [c] { s with index := 0, state := .headerField, headerState := firstHeaderState c } := by
  by_cases hc : c = 99
  · subst hc
    exact .start (show (HeaderState.c, [99]) ∈ starts by decide) rfl
  by_cases hp : c = 112
  · subst hp
    exact .partly ⟨.matchingProxyConnection, proxyConnectionName, .connection, 1⟩ (by decide) rfl
      le_rfl (by decide) (by decide) rfl
  by_cases ht : c = 116
  · subst ht
    exact .partly ⟨.matchingTransferEncoding, transferEncodingName, .transferEncoding, 1⟩
      (by decide) rfl le_rfl (by decide) (by decide) rfl
  by_cases hu : c = 117
  · subst hu
    exact .partly ⟨.matchingUpgrade, upgradeName, .upgrade, 1⟩ (by decide) rfl le_rfl (by decide)
      (by decide) rfl
  · refine .general (by simp [firstHeaderState, hc, hp, ht, hu]) ?_
    exact @not_prefix_of_start [] [99, 112, 116, 117] (by decide) _ (by simp [hc, hp, ht, hu])

theorem Named.congr {word : List UInt8} {s s' : Parser} (h : Named word s)
    (hstate : s'.headerState = s.headerState) (hindex : s'.index = s.index) : Named word s' := by
  cases h with
  | general hgeneral hno => exact .general (hstate.trans hgeneral) hno
  | start hstart hi => exact .start (hstate ▸ hstart) (hindex ▸ hi)
  | partly m hm hpartly hle hlt hword hi =>
      exact .partly m hm (hstate.trans hpartly) hle hlt hword (hindex ▸ hi)
  | found m hm hfound hword => exact .found m hm (hstate.trans hfound) hword

/-- A text is found exactly when it is the whole name. -/
theorem Named.found_iff {word : List UInt8} {s : Parser} (h : Named word s) {done : HeaderState}
    (hdone : done ∈ matchers.map Matcher.done) :
    s.headerState = done ↔ ∃ m ∈ matchers, m.done = done ∧ word = m.text := by
  have hapart : ∀ done ∈ matchers.map Matcher.done, done ≠ .general ∧
      (∀ m ∈ matchers, m.state ≠ done) ∧ ∀ p ∈ starts, p.1 ≠ done := by decide
  have hends : ∀ m ∈ matchers, ∀ p ∈ starts, p.2 ≠ m.text := by decide
  obtain ⟨hgeneral, hpartly, hstarts⟩ := hapart done hdone
  cases h with
  | general hstate hno =>
      rw [hstate]
      refine ⟨fun h => absurd h.symm hgeneral, ?_⟩
      rintro ⟨m, hm, -, rfl⟩
      exact absurd List.prefix_rfl (hno m hm)
  | start hstart =>
      refine ⟨fun h => absurd h (hstarts _ hstart), ?_⟩
      rintro ⟨m, hm, -, hword⟩
      exact absurd hword (hends m hm _ hstart)
  | partly m hm hstate hle hlt hword =>
      rw [hstate]
      refine ⟨fun h => absurd h (hpartly m hm), ?_⟩
      rintro ⟨m', hm', -, rfl⟩
      have heq := matchers_apart m hm m' hm' ((List.prefix_iff_eq_take.mp hword) ▸
        List.take_prefix_take_left hle)
      rw [heq] at hlt
      exact absurd hlt (Nat.lt_irrefl _)
  | found m hm hstate hword =>
      subst hword
      rw [hstate]
      refine ⟨fun h => ⟨m, hm, h, rfl⟩, ?_⟩
      rintro ⟨m', hm', hdone', heq⟩
      have hsame : ∀ m ∈ matchers, ∀ m' ∈ matchers, m.text = m'.text → m.done = m'.done := by decide
      exact (hsame m hm m' hm' heq).trans hdone'

end Machine
end Http
end TcMuzi
