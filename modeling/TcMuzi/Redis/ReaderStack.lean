import TcMuzi.Redis.ReaderRuns

/-!
# The stack of the reader

`rstack` has nine places, and `moveToNextTask` asserts that every task below the top is an array
whose element is the one above.  `processItems_fits` says that both hold behind every item of every
call, whatever bytes the reader was fed.
-/

namespace TcMuzi
namespace Redis
namespace Read

open Lib

/-- The assertions of `moveToNextTask`. -/
def Asserts : ReadTask → List ReadTask → Prop
  | _, [] => True
  | cur, prv :: rest =>
      prv.type = some .array ∧
        if cur.idx = prv.elements - 1 then Asserts prv rest else cur.idx < prv.elements

/-- The tasks around the current one are arrays that wait for it. -/
def Nested : ReadTask → List ReadTask → Prop
  | _, [] => True
  | cur, prv :: rest =>
      prv.type = some .array ∧ cur.idx = prv.element.length ∧ cur.idx < prv.elements ∧
        Nested prv rest

/-- A task fits on the stack with the arrays around it. -/
structure Fits (cur : ReadTask) (rest : List ReadTask) : Prop where
  depth : rest.length ≤ 8
  nested : Nested cur rest
  shallow : Shallow cur rest

def State.Fits : State → Prop
  | .reading cur rest => Read.Fits cur rest
  | .failed => True

theorem Nested.asserts {cur : ReadTask} {rest : List ReadTask} (h : Nested cur rest) :
    Asserts cur rest := by
  induction rest generalizing cur with
  | nil => trivial
  | cons prv rest ih =>
      obtain ⟨htype, -, hlt, hrest⟩ := h
      refine ⟨htype, ?_⟩
      split_ifs
      · exact ih hrest
      · exact hlt

/-- Only the index of the current task matters. -/
theorem Nested.congr {cur cur' : ReadTask} {rest : List ReadTask} (h : Nested cur rest)
    (hidx : cur'.idx = cur.idx) : Nested cur' rest := by
  cases rest with
  | nil => trivial
  | cons prv rest =>
      obtain ⟨htype, hlength, hlt, hrest⟩ := h
      exact ⟨htype, hidx.trans hlength, hidx ▸ hlt, hrest⟩

theorem Nested.moveToNextTask {obj : RedisReply} {cur cur' : ReadTask}
    {rest rest' : List ReadTask} (h : Nested cur rest)
    (hmove : moveToNextTask obj cur rest = (none, cur' :: rest')) :
    Nested cur' rest' ∧ rest'.length ≤ rest.length := by
  induction rest generalizing obj cur with
  | nil => cases hmove
  | cons prv rest ih =>
      obtain ⟨htype, hlength, hlt, hrest⟩ := h
      rw [Read.moveToNextTask] at hmove
      split_ifs at hmove with hlast
      -- the array is complete, and its own task is the one that moves
      · have hprv : Nested { prv with element := prv.element ++ [obj] } rest := hrest.congr rfl
        obtain ⟨hnested, hle⟩ := ih hprv hmove
        exact ⟨hnested, hle.trans (Nat.le_succ _)⟩
      · cases hmove
        have hne : cur.idx ≠ prv.elements - 1 := hlast
        refine ⟨⟨htype, ?_, ?_, hrest.congr rfl⟩, le_rfl⟩
        · simp only [List.length_append, List.length_singleton]
          omega
        · show cur.idx + 1 < prv.elements
          omega

section Step

variable {cur : ReadTask} {rest : List ReadTask} {unread left : List UInt8} {s : State}
  {out : Option Out}

theorem fits_finished {obj : RedisReply} (h : Fits cur rest)
    (hstep : finished obj cur rest unread = some (s, left, out)) : s.Fits := by
  obtain ⟨root, hmove⟩ | ⟨cur', rest', hmove, hnone⟩ := moveToNextTask_cases obj cur rest
  · rw [finished, outcome, hmove] at hstep
    cases hstep
    exact ⟨Nat.zero_le _, trivial, fun harray => by cases harray⟩
  · rw [finished, outcome, hmove] at hstep
    cases hstep
    obtain ⟨hnested, hle⟩ := h.nested.moveToNextTask hmove
    exact ⟨hle.trans h.depth, hnested, fun harray => by rw [hnone] at harray; cases harray⟩

theorem fits_fails {errstr : List UInt8} (hstep : fails errstr unread = some (s, left, out)) :
    s.Fits := by
  cases hstep
  trivial

theorem fits_lineStep {type : ItemType} {line : List UInt8} (h : Fits cur rest)
    (htype : cur.type = some type)
    (hstep : lineStep type cur rest line unread = some (s, left, out)) : s.Fits := by
  cases type with
  | error => exact fits_finished h hstep
  | status => exact fits_finished h hstep
  | integer =>
      rw [lineStep] at hstep
      cases hv : string2ll line with
      | none =>
          simp only [hv] at hstep
          exact fits_fails hstep
      | some v =>
          simp only [hv] at hstep
          exact fits_finished h hstep
  | string =>
      rw [lineStep] at hstep
      cases hv : string2ll line with
      | none =>
          simp only [hv] at hstep
          exact fits_fails hstep
      | some len =>
          simp only [hv] at hstep
          split_ifs at hstep
          · exact fits_fails hstep
          · exact fits_finished h hstep
          · exact fits_finished h hstep
  | array =>
      rw [lineStep] at hstep
      cases hv : string2ll line with
      | none =>
          simp only [hv] at hstep
          exact fits_fails hstep
      | some elements =>
          simp only [hv] at hstep
          split_ifs at hstep with hrange hnil hpos
          · exact fits_fails hstep
          · exact fits_finished h hstep
          · cases hstep
            have hlt := h.shallow htype
            have hle := h.depth
            refine ⟨?_, ⟨htype, rfl, hpos, h.nested.congr rfl⟩, fun harray => by cases harray⟩
            rw [List.length_cons]
            omega
          · exact fits_finished h hstep

theorem fits_typedStep {type : ItemType} (h : Fits cur rest) (htype : cur.type = some type)
    (hstep : typedStep type cur rest unread = some (s, left, out)) : s.Fits := by
  rw [typedStep] at hstep
  cases hseek : seekNewline unread with
  | none =>
      rw [hseek] at hstep
      cases hstep
  | some n =>
      rw [hseek] at hstep
      exact fits_lineStep h htype hstep

/-- A task whose type byte was read. -/
theorem Fits.typed {type : ItemType} (h : Fits cur rest)
    (hdeep : ¬ (type = .array ∧ rest.length = 8)) :
    Fits { cur with type := some type } rest :=
  ⟨h.depth, h.nested.congr rfl, fun harray hlen => hdeep ⟨Option.some.inj harray, hlen⟩⟩

theorem fits_itemStep (h : s.Fits) {s' : State}
    (hstep : itemStep s unread = some (s', left, out)) : s'.Fits := by
  cases s with
  | failed => cases hstep
  | reading cur rest =>
      cases htype : cur.type with
      | some type =>
          simp only [itemStep, htype] at hstep
          exact fits_typedStep h htype hstep
      | none =>
          cases unread with
          | nil => simp [itemStep, htype] at hstep
          | cons byte unread =>
              simp only [itemStep, htype] at hstep
              cases hbyte : itemType byte with
              | none =>
                  simp only [hbyte] at hstep
                  exact fits_fails hstep
              | some type =>
                  simp only [hbyte] at hstep
                  split_ifs at hstep with hdeep
                  · exact fits_fails hstep
                  · cases hstep
                    exact Fits.typed h hdeep

end Step

/-- A task that can be read keeps a reader that fits. -/
def Stacked (r : RedisReader) : Prop :=
  r.rstack = [] ∨ ∃ cur rest, At r cur rest ∧ Fits cur rest

theorem stacked_processTyped {type : ItemType} {r : RedisReader} {cur : ReadTask}
    {rest : List ReadTask} (h : At r cur rest) (hfits : Fits cur rest)
    (htype : cur.type = some type) : Stacked (processTyped type r).2 := by
  have hdepth : type = .array → rest.length ≠ 8 := fun harray => h.shallow (by rw [htype, harray])
  rw [processTyped_eq h hdepth]
  cases htyped : typedStep type cur rest r.unread with
  | none => exact .inr ⟨cur, rest, h, hfits⟩
  | some result =>
      obtain ⟨s, left, out⟩ := result
      have hs := fits_typedStep hfits htype htyped
      cases (typedStep_behind htyped).2 with
      | item hnone =>
          exact .inr ⟨_, _, ⟨h.err, rfl, Nat.sub_le _ _, rfl, fun harray => by
            rw [hnone] at harray
            cases harray⟩, hs⟩
      | reply reply => exact .inl rfl
      | error errstr => exact .inl rfl

theorem stacked_processItem {r : RedisReader} {cur : ReadTask} {rest : List ReadTask}
    (h : At r cur rest) (hfits : Fits cur rest) : Stacked (processItem r).2 := by
  cases htype : cur.type with
  | some type =>
      have hitem : processItem r = processTyped type r := by
        simp only [processItem, h.rstack, htype]
      rw [hitem]
      exact stacked_processTyped h hfits htype
  | none =>
      cases hunread : r.unread with
      | nil =>
          have hitem : processItem r = (false, r) := by
            simp only [processItem, h.rstack, htype, hunread]
          rw [hitem]
          exact .inr ⟨cur, rest, h, hfits⟩
      | cons byte unread =>
          have hpos : r.pos + 1 ≤ r.buf.length := by
            have hlen := length_unread r
            rw [hunread, List.length_cons] at hlen
            omega
          cases hbyte : itemType byte with
          | none =>
              have hitem : processItem r = (false,
                  { r with pos := r.pos + 1 }.setError (protocolByte byte)) := by
                simp only [processItem, h.rstack, htype, hunread, hbyte]
              rw [hitem]
              exact .inl rfl
          | some type =>
              have hitem : processItem r = processTyped type { r with
                  pos := r.pos + 1, rstack := { cur with type := some type } :: rest } := by
                simp only [processItem, h.rstack, htype, hunread, hbyte]
              rw [hitem]
              by_cases hdeep : type = .array ∧ rest.length = 8
              · obtain ⟨rfl, hlen⟩ := hdeep
                rw [processTyped, processMultiBulkItem, if_pos (by simp [hlen])]
                exact .inl rfl
              · exact stacked_processTyped
                  ⟨h.err, h.reply, hpos, rfl, fun harray hlen =>
                    hdeep ⟨Option.some.inj harray, hlen⟩⟩
                  (hfits.typed hdeep) rfl

theorem stacked_processItems {fuel : Nat} {r : RedisReader} (h : Stacked r) :
    Stacked (processItems fuel r) := by
  induction fuel generalizing r with
  | zero => exact h
  | succ fuel ih =>
      obtain hnil | ⟨cur, rest, hat, hfits⟩ := h
      · rw [processItems_done _ hnil]
        exact .inl hnil
      · have hne : r.rstack ≠ [] := by
          rw [hat.rstack]
          exact List.cons_ne_nil _ _
        rw [processItems_succ fuel hne, proceed]
        split
        · exact ih (stacked_processItem hat hfits)
        · exact stacked_processItem hat hfits

/-! ## Calls of a reader -/

inductive ReaderCall
  | feed (buf : List UInt8)
  | getReply

def RedisReader.call (r : RedisReader) : ReaderCall → RedisReader
  | .feed buf => (redisReaderFeed r buf).2
  | .getReply => (redisReaderGetReply r).2.2

/-- A reader with an error, or one between two calls whose tasks fit. -/
def Between (r : RedisReader) : Prop :=
  (∃ errstr, r.err = some errstr) ∨ ∃ s unread, Stands r s unread ∧ s.Fits

theorem fits_pullFor (n : Nat) {s : State} (h : s.Fits) (unread : List UInt8) :
    (Reassembly.pullFor itemStep n s unread).1.Fits := by
  induction n generalizing s unread with
  | zero => exact h
  | succ n ih =>
      cases hstep : itemStep s unread with
      | none =>
          simp only [Reassembly.pullFor, hstep]
          exact h
      | some result =>
          obtain ⟨s', left, out⟩ := result
          have hs := fits_itemStep h hstep
          cases out with
          | none =>
              simp only [Reassembly.pullFor, hstep]
              exact ih hs left
          | some out =>
              simp only [Reassembly.pullFor, hstep]
              exact hs

theorem between_call {r : RedisReader} (h : Between r) (call : ReaderCall) :
    Between (r.call call) := by
  obtain ⟨errstr, herr⟩ | ⟨s, unread, hstands, hfits⟩ := h
  · have hsome : r.err.isSome = true := by simp [herr]
    cases call with
    | feed buf =>
        rw [RedisReader.call, redisReaderFeed, if_pos hsome]
        exact .inl ⟨errstr, herr⟩
    | getReply =>
        rw [RedisReader.call, redisReaderGetReply, if_pos hsome]
        exact .inl ⟨errstr, herr⟩
  · cases call with
    | feed buf => exact .inr ⟨s, _, (redisReaderFeed_stands hstands buf).2, hfits⟩
    | getReply =>
        obtain ⟨left, hgets, -⟩ := redisReaderGetReply_gets hstands
        have hpull : (Reassembly.pull itemStep s unread).1.Fits := fits_pullFor _ hfits unread
        rw [RedisReader.call]
        generalize redisReaderGetReply r = get at hgets ⊢
        generalize Reassembly.pull itemStep s unread = pulled at hgets hpull
        generalize hresult : (pulled.1, left, pulled.2.2) = result at hgets
        have hstate : result.1.Fits := by
          rw [← hresult]
          exact hpull
        cases hgets with
        | nothing hafter => exact .inr ⟨_, _, hafter, hstate⟩
        | reply hafter => exact .inr ⟨_, _, hafter, hstate⟩
        | error herr => exact .inl ⟨_, herr⟩

theorem between_calls (calls : List ReaderCall) {r : RedisReader} (h : Between r) :
    Between (calls.foldl RedisReader.call r) := by
  induction calls generalizing r with
  | nil => exact h
  | cons call calls ih => exact ih (between_call h call)

/-- What `processItem` needs of the stack. -/
def StackSafe (rstack : List ReadTask) : Prop :=
  rstack.length ≤ 9 ∧ ∀ cur rest, rstack = cur :: rest → Asserts cur rest

theorem Stacked.safe {r : RedisReader} (h : Stacked r) : StackSafe r.rstack := by
  obtain hnil | ⟨cur, rest, hat, hfits⟩ := h
  · rw [hnil]
    exact ⟨Nat.zero_le _, fun cur rest hcons => by cases hcons⟩
  · rw [hat.rstack]
    refine ⟨Nat.succ_le_succ hfits.depth, fun cur' rest' hcons => ?_⟩
    cases hcons
    exact hfits.nested.asserts

/-- The loop of a call starts with a task. -/
def RedisReader.start (r : RedisReader) : RedisReader :=
  if r.rstack = [] then { r with rstack := [.fresh (-1)] } else r

/-- **The stack of the reader is deep enough and its assertions hold**, behind any number of items
of any call, whatever the reader was fed before. -/
theorem processItems_fits (calls : List ReaderCall) (fuel : Nat) :
    (calls.foldl RedisReader.call .create).err = none →
      StackSafe (processItems fuel (calls.foldl RedisReader.call .create).start).rstack := by
  intro herr
  have hstart : Between .create :=
    .inr ⟨idle, [], @Stands.idle .create rfl rfl le_rfl rfl,
      ⟨Nat.zero_le _, trivial, fun harray => by cases harray⟩⟩
  have hbetween := between_calls calls hstart
  generalize calls.foldl RedisReader.call .create = r at herr hbetween ⊢
  obtain ⟨errstr, hsome⟩ | ⟨s, unread, hstands, hfits⟩ := hbetween
  · rw [herr] at hsome
    cases hsome
  refine (stacked_processItems ?_).safe
  cases hstands with
  | idle _ hreply hpos hnil =>
      rw [RedisReader.start, if_pos hnil]
      exact .inr ⟨_, _, at_fresh herr hreply hpos, hfits⟩
  | reading hat =>
      rw [RedisReader.start, if_neg (by rw [hat.rstack]; exact List.cons_ne_nil _ _)]
      exact .inr ⟨_, _, hat, hfits⟩

theorem processItems_fits_nested :
    StackSafe (processItems 3 ([ReaderCall.feed [42, 50, 13, 10], .getReply,
      .feed [42, 49, 13, 10, 58]].foldl RedisReader.call .create).start).rstack :=
  processItems_fits _ 3 (by decide)

end Read
end Redis
end TcMuzi
