import TcMuzi.Http.ParserRuns

/-!
# Methods

The `case` of `s_req_method` compares the bytes of a method with one string of
`method_strings` and changes to another string where they part.  `methodRun` is that
comparison without the rest of the parser.
-/

namespace TcMuzi
namespace Http
namespace Machine

open Base Lib

/-! ## Turns -/

/-- A turn that goes on, with what it gives out. -/
theorem unlimited_go {s s' : Parser} {ch : UInt8} {a : List Act} {out : List Event}
    (h : s.count.turn ch 1 = s'.brk.after a)
    (hout : ((datum s.state s'.state).map fun d => Event.data d ch).toList ++ a.flatMap Act.notes =
      out) : unlimited s ch = .go s' out := by
  have hacts : (s'.brk.after a).acts = a := List.append_nil a
  have hturn : (s'.brk.after a).out s.state ch = out := by
    rw [Turn.out, hacts]
    exact hout
  rw [unlimited, h]
  show Reaction.go s' ((s'.brk.after a).out s.state ch) = _
  rw [hturn]

/-- A turn between two states without a mark. -/
theorem unlimited_brk {s s' : Parser} {ch : UInt8} (h : s.count.turn ch 1 = s'.brk)
    (hbody : s.state ≠ .bodyIdentity) (hchunk : s.state ≠ .chunkData)
    (hmarked : s'.state.marked = none) : unlimited s ch = .go s' [] := by
  refine unlimited_go (a := []) h ?_
  rw [datum_eq_marked hbody hchunk, hmarked]
  rfl

/-! ## The comparison -/

/-- One byte of a method, behind the first one; `none` where the method ends or is none. -/
def methodNext (method : Method) (index : Nat) (ch : UInt8) : Option (Method × Nat) :=
  let expected := (methodString method).getD index 0
  if ch = 0 ∨ (methodString method).length < index ∨ ch = 32 ∧ expected = 0 then none
  else if ch = expected then some (method, bump index)
  else (nextMethod method index ch).map fun method => (method, bump index)

def methodRun (method : Method) (index : Nat) : List UInt8 → Option (Method × Nat)
  | [] => some (method, index)
  | ch :: word => do
      let (method, index) ← methodNext method index ch
      methodRun method index word

theorem caseReqMethod_eq {s : Parser} {m : Method} {i : Nat} {ch : UInt8}
    (hnext : methodNext s.method s.index ch = some (m, i)) :
    caseReqMethod s ch = ({ s with method := m, index := i } : Parser).brk := by
  unfold methodNext at hnext
  dsimp only at hnext
  unfold caseReqMethod
  dsimp only
  split_ifs at hnext with hnone hsame
  · obtain ⟨rfl, rfl⟩ := Prod.mk.inj (Option.some.inj hnext)
    obtain ⟨hzero, hrest⟩ := not_or.mp hnone
    obtain ⟨hlength, hend⟩ := not_or.mp hrest
    rw [if_neg hzero, if_neg hlength, if_neg hend, if_pos hsame]
  · obtain ⟨hzero, hrest⟩ := not_or.mp hnone
    obtain ⟨hlength, hend⟩ := not_or.mp hrest
    rw [if_neg hzero, if_neg hlength, if_neg hend, if_neg hsame]
    obtain ⟨m', hm', heq⟩ := Option.map_eq_some_iff.mp hnext
    obtain ⟨rfl, rfl⟩ := Prod.mk.inj heq
    rw [hm']

theorem unlimited_method {s : Parser} {m : Method} {i : Nat} {ch : UInt8} (h : s.state = .reqMethod)
    (hnext : methodNext s.method s.index ch = some (m, i)) :
    unlimited s ch = .go { s.count with method := m, index := i } [] := by
  refine unlimited_brk ?_ (by rw [h]; nofun) (by rw [h]; nofun)
    (by rw [show _ = s.count.state from rfl, count_state, h]; rfl)
  unfold Parser.turn
  rw [count_state, h]
  refine caseReqMethod_eq ?_
  unfold Parser.count
  split_ifs <;> exact hnext

theorem count_of_header {s : Parser} (h : s.state.parsingHeader = true) :
    s.count = { s with nread := s.nread + 1 } := if_pos h

theorem takes_methodRun (word : List UInt8) : ∀ {s : Parser} {m : Method} {i : Nat},
    s.state = .reqMethod → methodRun s.method s.index word = some (m, i) →
      Takes unlimited s word
        { s with method := m, index := i, nread := s.nread + word.length } [] := by
  induction word with
  | nil =>
      intro s m i _ hrun
      obtain ⟨rfl, rfl⟩ := Prod.mk.inj (Option.some.inj hrun)
      exact Takes.nil s
  | cons ch word ih =>
      intro s m i h hrun
      rw [methodRun] at hrun
      obtain ⟨⟨m', i'⟩, hnext, hrun'⟩ := Option.bind_eq_some_iff.mp hrun
      have hfirst := unlimited_method h hnext
      rw [count_of_header (by rw [h]; rfl)] at hfirst
      have hrest := ih (s := { s with method := m', index := i', nread := s.nread + 1 }) h hrun'
      have hsum : s.nread + 1 + word.length = s.nread + (ch :: word).length := by
        rw [List.length_cons]
        omega
      rw [hsum] at hrest
      exact Takes.cons hfirst hrest

/-- The blank behind a method. -/
theorem unlimited_methodEnd {s : Parser} (h : s.state = .reqMethod)
    (hindex : s.index = (methodString s.method).length) :
    unlimited s 32 = .go { s with
      state := .reqSpacesBeforeUrl, index := bump s.index, nread := s.nread + 1 } [] := by
  refine unlimited_brk ?_ (by rw [h]; nofun) (by rw [h]; nofun) rfl
  have hend : (methodString s.method).getD s.index 0 = 0 := by
    rw [hindex, List.getD_eq_getElem?_getD, List.getElem?_eq_none le_rfl]
    rfl
  rw [count_of_header (by rw [h]; rfl)]
  unfold Parser.turn
  simp only [h]
  unfold caseReqMethod
  dsimp only
  rw [if_neg (by decide), if_neg (by omega), if_pos ⟨rfl, hend⟩]

/-- The first byte of a method. -/
theorem unlimited_methodStart {s : Parser} (h : s.state = .startReq) {ch : UInt8} {m : Method}
    (hfirst : firstMethod ch = some m) :
    unlimited s ch = .go { s with
      flags := .none, contentLength := ullongMax, method := m, index := 1, state := .reqMethod
      nread := s.nread + 1 } [] := by
  have hletters : ∀ n < 256, (firstMethod (UInt8.ofNat n)).isSome →
      ¬ (UInt8.ofNat n = cr ∨ UInt8.ofNat n = lf) ∧ isAlpha (UInt8.ofNat n) = true := by
    decide +kernel
  have hone := hletters ch.toNat ch.toNat_lt
  rw [UInt8.ofNat_toNat, hfirst] at hone
  obtain ⟨hline, halpha⟩ := hone rfl
  refine unlimited_brk ?_ (by rw [h]; nofun) (by rw [h]; nofun) rfl
  rw [count_of_header (by rw [h]; rfl)]
  unfold Parser.turn
  simp only [h]
  unfold caseStartReq
  dsimp only
  rw [if_neg hline, if_neg (by simp [halpha])]
  simp only [hfirst]

/-- A method whose first byte leads to `start`. -/
theorem takes_method_of_run {s : Parser} (h : s.state = .startReq) {ch : UInt8} {word : List UInt8}
    {start m : Method} (hfirst : firstMethod ch = some start)
    (hrun : methodRun start 1 word = some (m, (methodString m).length)) :
    Takes unlimited s (ch :: word ++ [32]) { s with
      flags := .none, contentLength := ullongMax, method := m
      index := bump (methodString m).length, state := .reqSpacesBeforeUrl
      nread := s.nread + 1 + word.length + 1 } [] := by
  have hstart := Takes.single (unlimited_methodStart h hfirst)
  have hword := takes_methodRun word (s := { s with
    flags := .none, contentLength := ullongMax, method := start, index := 1, state := .reqMethod
    nread := s.nread + 1 }) rfl hrun
  have hend := Takes.single (unlimited_methodEnd (s := { s with
    flags := .none, contentLength := ullongMax, method := m, index := (methodString m).length
    state := .reqMethod, nread := s.nread + 1 + word.length }) rfl rfl)
  exact (hstart.append hword).append hend

end Machine
end Http
end TcMuzi
