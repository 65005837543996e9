import TcMuzi.Redis.ReadSteps

/-!
# The reader takes the steps

`processTyped_eq` says that the functions for the items do what `typedStep` does, `Stops` where
the loop over the items ends, and `redisReaderGetReply_pull` that a call of
`redisReaderGetReply` is a `pull` of `itemStep`.
-/

namespace TcMuzi
namespace Redis
namespace Read

open Base Lib

/-- An array whose length is read has a place on the stack for its first element. -/
def Shallow (cur : ReadTask) (rest : List ReadTask) : Prop :=
  cur.type = some .array → rest.length ≠ 8

/-- The reader without an error, at the task of `s` and in front of `unread`. -/
structure At (r : RedisReader) (cur : ReadTask) (rest : List ReadTask) : Prop where
  err : r.err = none
  reply : r.reply = none
  pos : r.pos ≤ r.buf.length
  rstack : r.rstack = cur :: rest
  shallow : Shallow cur rest

/-- The reader between two calls; it has no task when a reply was taken. -/
inductive Stands : RedisReader → State → List UInt8 → Prop
  | idle {r : RedisReader} (err : r.err = none) (reply : r.reply = none)
      (pos : r.pos ≤ r.buf.length) (rstack : r.rstack = []) : Stands r idle r.unread
  | reading {r : RedisReader} {cur : ReadTask} {rest : List ReadTask} (h : At r cur rest) :
      Stands r (.reading cur rest) r.unread

/-- What `typedStep` is for the reader. -/
def RedisReader.advance (r : RedisReader) :
    Option (State × List UInt8 × Option Out) → Bool × RedisReader
  | none => (false, r)
  | some (_, _, some (.error errstr)) => (false, r.setError errstr)
  | some (_, left, some (.reply reply)) =>
      (true, { r with pos := r.buf.length - left.length, rstack := [], reply := some reply })
  | some (.reading cur rest, left, none) =>
      (true, { r with pos := r.buf.length - left.length, rstack := cur :: rest, reply := none })
  | some (.failed, _, none) => (false, r)

theorem moveToNextTask_cases (obj : RedisReply) (cur : ReadTask) (rest : List ReadTask) :
    (∃ root, moveToNextTask obj cur rest = (some root, [])) ∨
      ∃ cur' rest', moveToNextTask obj cur rest = (none, cur' :: rest') ∧ cur'.type = none := by
  induction rest generalizing obj cur with
  | nil => exact .inl ⟨obj, rfl⟩
  | cons prv rest ih =>
      rw [moveToNextTask]
      split
      · exact ih _ _
      · exact .inr ⟨_, _, rfl, rfl⟩

theorem length_unread (r : RedisReader) : r.unread.length = r.buf.length - r.pos :=
  List.length_drop

section Items

variable {r : RedisReader} {cur : ReadTask} {rest : List ReadTask}

theorem complete_eq (hstack : r.rstack = cur :: rest) (obj : RedisReply) {pos : Nat}
    {left : List UInt8} (hpos : pos = r.buf.length - left.length) :
    (true, { r with pos := pos }.complete obj) = r.advance (finished obj cur rest left) := by
  subst hpos
  obtain ⟨root, hmove⟩ | ⟨cur', rest', hmove, -⟩ := moveToNextTask_cases obj cur rest
  · simp [RedisReader.complete, RedisReader.advance, finished, outcome, hstack, hmove]
  · simp [RedisReader.complete, RedisReader.advance, finished, outcome, hstack, hmove]

theorem push_eq (hstack : r.rstack = cur :: rest) (hreply : r.reply = none) (elements : Int)
    {pos : Nat} {left : List UInt8} (hpos : pos = r.buf.length - left.length) :
    (true, { r with pos := pos }.push elements) =
      r.advance (some (.reading (.fresh 0)
        ({ cur with elements := elements, element := [] } :: rest), left, none)) := by
  subst hpos
  simp [RedisReader.push, RedisReader.advance, hstack, hreply]

theorem typedStep_of_seek {type : ItemType} {unread : List UInt8} {n : Nat}
    (hseek : seekNewline unread = some n) :
    typedStep type cur rest unread =
      lineStep type cur rest (unread.take n) (unread.drop (n + 2)) := by
  rw [typedStep, hseek]

/-- The position behind a line. -/
theorem pos_line (hpos : r.pos ≤ r.buf.length) {n : Nat} (hseek : seekNewline r.unread = some n) :
    r.pos + n + 2 = r.buf.length - (r.unread.drop (n + 2)).length := by
  have hle := (seekNewline_append hseek []).2
  rw [List.length_drop]
  rw [length_unread] at hle ⊢
  omega

theorem processLineItem_eq {type : ItemType} (h : At r cur rest) (hstring : type ≠ .string)
    (harray : type ≠ .array) :
    processLineItem type r = r.advance (typedStep type cur rest r.unread) := by
  rw [processLineItem, readLine]
  cases hseek : seekNewline r.unread with
  | none =>
      rw [typedStep, hseek]
      rfl
  | some n =>
      have hline := pos_line h.pos hseek
      rw [typedStep_of_seek hseek]
      cases type with
      | error => exact complete_eq h.rstack _ hline
      | status => exact complete_eq h.rstack _ hline
      | integer =>
          simp only [Option.map_some, if_true, lineStep]
          cases hv : string2ll (r.unread.take n) with
          | none => rfl
          | some v => exact complete_eq h.rstack _ hline
      | string => exact absurd rfl hstring
      | array => exact absurd rfl harray

theorem processBulkItem_eq (h : At r cur rest) :
    processBulkItem r = r.advance (typedStep .string cur rest r.unread) := by
  rw [processBulkItem]
  cases hseek : seekNewline r.unread with
  | none =>
      rw [typedStep, hseek]
      rfl
  | some n =>
      have hline := pos_line h.pos hseek
      have hle := (seekNewline_append hseek []).2
      have hpos := h.pos
      rw [typedStep_of_seek hseek]
      simp only [lineStep]
      cases hv : string2ll (r.unread.take n) with
      | none => rfl
      | some len =>
          simp only
          by_cases hrange : len < -1
          · rw [if_pos hrange, if_pos hrange]
            rfl
          rw [if_neg hrange, if_neg hrange]
          by_cases hnil : len = -1
          · rw [if_pos hnil, if_pos hnil]
            exact complete_eq h.rstack _ hline
          rw [if_neg hnil, if_neg hnil]
          -- the bytes up to the string's own line end, counted from the position and from the line
          rw [List.length_drop, length_unread]
          rw [length_unread] at hle
          by_cases hlen : r.pos + (n + 2 + (len.toNat + 2)) ≤ r.buf.length
          · rw [if_pos hlen, if_pos (by omega)]
            refine complete_eq h.rstack _ ?_
            rw [List.length_drop, List.length_drop, length_unread]
            omega
          · rw [if_neg hlen, if_neg (by omega)]
            rfl

theorem processMultiBulkItem_eq (h : At r cur rest) (hdepth : rest.length ≠ 8) :
    processMultiBulkItem r = r.advance (typedStep .array cur rest r.unread) := by
  have hstack : ¬r.rstack.length = 9 := by
    rw [h.rstack, List.length_cons]
    omega
  rw [processMultiBulkItem, if_neg hstack, readLine]
  cases hseek : seekNewline r.unread with
  | none =>
      rw [typedStep, hseek]
      rfl
  | some n =>
      have hline := pos_line h.pos hseek
      rw [typedStep_of_seek hseek]
      simp only [Option.map_some, lineStep]
      cases hv : string2ll (r.unread.take n) with
      | none => rfl
      | some elements =>
          simp only
          by_cases hrange : elements < -1 ∨ 2147483647 < elements
          · rw [if_pos hrange, if_pos hrange]
            rfl
          rw [if_neg hrange, if_neg hrange]
          by_cases hnil : elements = -1
          · rw [if_pos hnil, if_pos hnil]
            exact complete_eq h.rstack _ hline
          rw [if_neg hnil, if_neg hnil]
          by_cases hpos : 0 < elements
          · rw [if_pos hpos, if_pos hpos]
            exact push_eq h.rstack h.reply _ hline
          · rw [if_neg hpos, if_neg hpos]
            exact complete_eq h.rstack _ hline

/-- The functions for the items do the step. -/
theorem processTyped_eq {type : ItemType} (h : At r cur rest)
    (hdepth : type = .array → rest.length ≠ 8) :
    processTyped type r = r.advance (typedStep type cur rest r.unread) := by
  cases type with
  | error => exact processLineItem_eq h nofun nofun
  | status => exact processLineItem_eq h nofun nofun
  | integer => exact processLineItem_eq h nofun nofun
  | string => exact processBulkItem_eq h
  | array => exact processMultiBulkItem_eq h (hdepth rfl)

end Items

/-- Where the loop over the items stops. -/
inductive Stops : RedisReader → State × List UInt8 × Option Out → Prop
  | waits {r : RedisReader} {cur : ReadTask} {rest : List ReadTask} (h : At r cur rest) :
      Stops r (.reading cur rest, r.unread, none)
  | replies {r : RedisReader} {reply : RedisReply} (err : r.err = none)
      (pos : r.pos ≤ r.buf.length) (rstack : r.rstack = []) (root : r.reply = some reply) :
      Stops r (idle, r.unread, some (.reply reply))
  | fails {r : RedisReader} {errstr left : List UInt8} (err : r.err = some errstr) :
      Stops r (.failed, left, some (.error errstr))

/-- The loop behind an item. -/
def proceed (fuel : Nat) (p : Bool × RedisReader) : RedisReader :=
  if p.1 then processItems fuel p.2 else p.2

theorem processItems_succ (fuel : Nat) {r : RedisReader} (hstack : r.rstack ≠ []) :
    processItems (fuel + 1) r = proceed fuel (processItem r) := by
  rw [processItems, if_neg hstack, proceed]
  obtain ⟨ok, r'⟩ := processItem r
  cases ok <;> rfl

theorem processItems_done (fuel : Nat) {r : RedisReader} (hstack : r.rstack = []) :
    processItems fuel r = r := by
  cases fuel with
  | zero => rfl
  | succ fuel => rw [processItems, if_pos hstack]

/-- The loop goes on from every task with fewer bytes. -/
def Continues (fuel n : Nat) : Prop :=
  ∀ {r : RedisReader} {cur : ReadTask} {rest : List ReadTask}, At r cur rest →
    r.unread.length < n →
      Stops (processItems fuel r) (Reassembly.pull itemStep (.reading cur rest) r.unread)

/-- Bytes that are left are the bytes from a position on. -/
theorem unread_of_suffix {r : RedisReader} {left : List UInt8} (hsuffix : left <:+ r.unread) :
    r.buf.drop (r.buf.length - left.length) = left := by
  have hbuf : left <:+ r.buf := hsuffix.trans (List.drop_suffix _ _)
  exact (List.suffix_iff_eq_drop.mp hbuf).symm

/-- A state behind a step, by the output of the step. -/
inductive Behind : State → Option Out → Prop
  | item {cur : ReadTask} {rest : List ReadTask} (type : cur.type = none) :
      Behind (.reading cur rest) none
  | reply (reply : RedisReply) : Behind idle (some (.reply reply))
  | error (errstr : List UInt8) : Behind .failed (some (.error errstr))

theorem finished_behind {obj : RedisReply} {cur : ReadTask} {rest : List ReadTask}
    {unread left : List UInt8} {s : State} {out : Option Out}
    (h : finished obj cur rest unread = some (s, left, out)) : left <:+ unread ∧ Behind s out := by
  obtain ⟨root, hmove⟩ | ⟨cur', rest', hmove, htype⟩ := moveToNextTask_cases obj cur rest
  · rw [finished, outcome, hmove] at h
    cases h
    exact ⟨List.suffix_refl _, .reply root⟩
  · rw [finished, outcome, hmove] at h
    cases h
    exact ⟨List.suffix_refl _, .item htype⟩

theorem fails_behind {errstr unread left : List UInt8} {s : State} {out : Option Out}
    (h : fails errstr unread = some (s, left, out)) : left <:+ unread ∧ Behind s out := by
  cases h
  exact ⟨List.suffix_refl _, .error errstr⟩

theorem lineStep_behind {type : ItemType} {cur : ReadTask} {rest : List ReadTask}
    {line behind left : List UInt8} {s : State} {out : Option Out}
    (h : lineStep type cur rest line behind = some (s, left, out)) :
    left <:+ behind ∧ Behind s out := by
  cases type with
  | error => exact finished_behind h
  | status => exact finished_behind h
  | integer =>
      rw [lineStep] at h
      cases hv : string2ll line with
      | none =>
          simp only [hv] at h
          exact fails_behind h
      | some v =>
          simp only [hv] at h
          exact finished_behind h
  | string =>
      rw [lineStep] at h
      cases hv : string2ll line with
      | none =>
          simp only [hv] at h
          exact fails_behind h
      | some len =>
          simp only [hv] at h
          split_ifs at h
          · exact fails_behind h
          · exact finished_behind h
          · obtain ⟨hsuffix, hbehind⟩ := finished_behind h
            exact ⟨hsuffix.trans (List.drop_suffix _ _), hbehind⟩
  | array =>
      rw [lineStep] at h
      cases hv : string2ll line with
      | none =>
          simp only [hv] at h
          exact fails_behind h
      | some elements =>
          simp only [hv] at h
          split_ifs at h
          · exact fails_behind h
          · exact finished_behind h
          · cases h
            exact ⟨List.suffix_refl _, .item rfl⟩
          · exact finished_behind h

theorem typedStep_behind {type : ItemType} {cur : ReadTask} {rest : List ReadTask}
    {unread left : List UInt8} {s : State} {out : Option Out}
    (h : typedStep type cur rest unread = some (s, left, out)) :
    left <:+ unread ∧ Behind s out := by
  rw [typedStep] at h
  cases hseek : seekNewline unread with
  | none =>
      rw [hseek] at h
      cases h
  | some n =>
      rw [hseek] at h
      obtain ⟨hsuffix, hbehind⟩ := lineStep_behind h
      exact ⟨hsuffix.trans (List.drop_suffix _ _), hbehind⟩

/-- The loop from an item whose type byte was read. -/
theorem proceed_typed {type : ItemType} {r : RedisReader} {cur : ReadTask} {rest : List ReadTask}
    (h : At r cur rest) (htype : cur.type = some type) {fuel : Nat}
    (hloop : Continues fuel r.unread.length) :
    Stops (proceed fuel (processTyped type r))
      (Reassembly.pull itemStep (.reading cur rest) r.unread) := by
  have hstep : itemStep (.reading cur rest) r.unread = typedStep type cur rest r.unread := by
    simp only [itemStep, htype]
  rw [processTyped_eq h fun harray => h.shallow (by rw [htype, harray])]
  cases htyped : typedStep type cur rest r.unread with
  | none =>
      rw [Reassembly.pull_wait (hstep.trans htyped)]
      exact .waits h
  | some result =>
      obtain ⟨s, left, out⟩ := result
      obtain ⟨hsuffix, hbehind⟩ := typedStep_behind htyped
      have hunread := unread_of_suffix hsuffix
      have hlt := (typedStep_append htyped []).2
      cases hbehind with
      | item hnone =>
          rename_i cur' rest'
          rw [Reassembly.pull_next steady (hstep.trans htyped)]
          have hat : At { r with
              pos := r.buf.length - left.length, rstack := cur' :: rest', reply := none } cur'
              rest' :=
            ⟨h.err, rfl, Nat.sub_le _ _, rfl, fun harray => by rw [hnone] at harray; cases harray⟩
          have hstops := hloop hat (by rw [RedisReader.unread, hunread]; exact hlt)
          rw [RedisReader.unread, hunread] at hstops
          exact hstops
      | reply reply =>
          rw [Reassembly.pull_out steady (hstep.trans htyped)]
          have hdone : proceed fuel (r.advance (some (idle, left, some (.reply reply)))) =
              { r with
                pos := r.buf.length - left.length, rstack := [], reply := some reply } :=
            processItems_done fuel rfl
          rw [hdone]
          have hstops := @Stops.replies { r with
            pos := r.buf.length - left.length, rstack := [], reply := some reply } reply
            h.err (Nat.sub_le _ _) rfl rfl
          rw [RedisReader.unread, hunread] at hstops
          exact hstops
      | error errstr =>
          rw [Reassembly.pull_out steady (hstep.trans htyped)]
          exact .fails rfl

/-- **The loop over the items stops where the steps stop.** -/
theorem processItems_pull {fuel : Nat} {r : RedisReader} {cur : ReadTask} {rest : List ReadTask}
    (h : At r cur rest) (hfuel : r.unread.length < fuel) :
    Stops (processItems fuel r) (Reassembly.pull itemStep (.reading cur rest) r.unread) := by
  induction fuel generalizing r cur rest with
  | zero => exact absurd hfuel (Nat.not_lt_zero _)
  | succ fuel ih =>
      have hne : r.rstack ≠ [] := by
        rw [h.rstack]
        exact List.cons_ne_nil _ _
      rw [processItems_succ fuel hne]
      cases htype : cur.type with
      | some type =>
          have hitem : processItem r = processTyped type r := by
            simp only [processItem, h.rstack, htype]
          rw [hitem]
          exact proceed_typed h htype fun hat hlt => ih hat (by omega)
      | none =>
          cases hunread : r.unread with
          | nil =>
              have hstep : itemStep (.reading cur rest) r.unread = none := by
                simp only [itemStep, htype, hunread]
              have hitem : processItem r = (false, r) := by
                simp only [processItem, h.rstack, htype, hunread]
              rw [← hunread, Reassembly.pull_wait hstep, hitem]
              exact .waits h
          | cons byte unread =>
              have hpos : r.pos + 1 ≤ r.buf.length := by
                have hlen := length_unread r
                rw [hunread, List.length_cons] at hlen
                omega
              have htail : r.buf.drop (r.pos + 1) = unread := by
                rw [← List.drop_drop, show r.buf.drop r.pos = byte :: unread from hunread]
                rfl
              cases hbyte : itemType byte with
              | none =>
                  have hitem : processItem r = (false,
                      { r with pos := r.pos + 1 }.setError (protocolByte byte)) := by
                    simp only [processItem, h.rstack, htype, hunread, hbyte]
                  have hstep : itemStep (.reading cur rest) (byte :: unread) =
                      some (.failed, unread, some (.error (protocolByte byte))) := by
                    simp [itemStep, htype, hbyte, Read.fails]
                  rw [Reassembly.pull_out steady hstep, hitem]
                  exact .fails rfl
              | some type =>
                  have hitem : processItem r = processTyped type { r with
                      pos := r.pos + 1, rstack := { cur with type := some type } :: rest } := by
                    simp only [processItem, h.rstack, htype, hunread, hbyte]
                  rw [hitem]
                  by_cases hdeep : type = .array ∧ rest.length = 8
                  · have hstep : itemStep (.reading cur rest) (byte :: unread) =
                        some (.failed, unread, some (.error tooDeep)) := by
                      simp [itemStep, htype, hbyte, hdeep, Read.fails]
                    rw [Reassembly.pull_out steady hstep]
                    obtain ⟨rfl, hlen⟩ := hdeep
                    rw [processTyped, processMultiBulkItem, if_pos (by simp [hlen])]
                    exact .fails rfl
                  -- the source goes on with the item at once, the steps take it as two
                  · have hstep : itemStep (.reading cur rest) (byte :: unread) =
                        some (.reading { cur with type := some type } rest, unread, none) := by
                      simp [itemStep, htype, hbyte, hdeep]
                    rw [Reassembly.pull_next steady hstep]
                    have hat : At { r with
                        pos := r.pos + 1, rstack := { cur with type := some type } :: rest }
                        { cur with type := some type } rest :=
                      ⟨h.err, h.reply, hpos, rfl, fun harray hlen =>
                        hdeep ⟨Option.some.inj harray, hlen⟩⟩
                    have hrest : { r with
                        pos := r.pos + 1,
                        rstack := { cur with type := some type } :: rest }.unread = unread :=
                      htail
                    rw [hunread, List.length_cons] at hfuel
                    have hloop := proceed_typed hat rfl fun hat' hlt => ih hat' (by
                      rw [hrest] at hlt
                      omega)
                    rw [hrest] at hloop
                    exact hloop

/-- A call of `redisReaderGetReply`, by the steps it takes. -/
inductive Gets : Bool × Option RedisReply × RedisReader → State × List UInt8 × Option Out → Prop
  | nothing {r : RedisReader} {s : State} {left : List UInt8} (h : Stands r s left) :
      Gets (true, none, r) (s, left, none)
  | reply {r : RedisReader} {s : State} {left : List UInt8} {reply : RedisReply}
      (h : Stands r s left) : Gets (true, some reply, r) (s, left, some (.reply reply))
  | error {r : RedisReader} {left errstr : List UInt8} (err : r.err = some errstr) :
      Gets (false, none, r) (.failed, left, some (.error errstr))

/-! ## The buffer -/

theorem length_sdsrange_le (s : List UInt8) (start last : Int) :
    (sdsrange s start last).length ≤ s.length := by
  have hpart : ∀ n m : Nat, ((s.drop n).take m).length ≤ s.length := by
    intro n m
    refine (List.length_take_le' _ _).trans ?_
    rw [List.length_drop]
    exact Nat.sub_le _ _
  unfold sdsrange
  dsimp only
  split_ifs <;> first | exact le_rfl | exact Nat.zero_le _ | exact hpart _ _

/-- The bytes from a position on. -/
theorem sdsrange_eq_drop {s : List UInt8} (hs : s.length ≤ 2147483647) (n : Nat) :
    sdsrange s n (-1) = s.drop n := by
  by_cases hnil : s = []
  · rw [sdsrange, if_pos hnil, hnil, List.drop_nil]
  · have hpos := List.length_pos_iff.mpr hnil
    have hlen : wrapInt32 (s.length : Int) = s.length := wrapInt32_eq ⟨by omega, by omega⟩
    have hlast : max 0 (wrapInt32 ((s.length : Int) + -1)) = s.length - 1 := by
      rw [wrapInt32_eq ⟨by omega, by omega⟩]
      omega
    rw [sdsrange, if_neg hnil]
    simp only [if_neg (Int.not_lt.mpr (Int.natCast_nonneg n)), if_pos (by decide : (-1 : Int) < 0),
      hlen, hlast]
    by_cases hn : s.length ≤ n
    · rw [if_pos (.inr (by omega)), List.drop_eq_nil_of_le hn]
    · rw [if_neg (by omega), if_neg (by omega), if_neg (by omega), Int.toNat_natCast]
      exact List.take_of_length_le (by rw [List.length_drop]; omega)

theorem buf_complete (r : RedisReader) (obj : RedisReply) : (r.complete obj).buf = r.buf := by
  unfold RedisReader.complete
  split <;> rfl

theorem buf_push (r : RedisReader) (elements : Int) : (r.push elements).buf = r.buf := by
  unfold RedisReader.push
  split <;> rfl

/-- An item leaves the buffer as it is, an error frees it. -/
def KeepsBuf (r r' : RedisReader) : Prop := r'.buf = r.buf ∨ r'.buf = []

theorem processLineItem_keepsBuf (type : ItemType) (r : RedisReader) :
    KeepsBuf r (processLineItem type r).2 := by
  unfold processLineItem readLine
  cases seekNewline r.unread with
  | none => exact .inl rfl
  | some n =>
      simp only [Option.map_some]
      split
      · split
        · exact .inr rfl
        · exact .inl (buf_complete _ _)
      · split
        · exact .inl (buf_complete _ _)
        · exact .inl (buf_complete _ _)

theorem processBulkItem_keepsBuf (r : RedisReader) : KeepsBuf r (processBulkItem r).2 := by
  unfold processBulkItem
  cases seekNewline r.unread with
  | none => exact .inl rfl
  | some n =>
      dsimp only
      cases string2ll (r.unread.take n) with
      | none => exact .inr rfl
      | some len =>
          dsimp only
          split_ifs
          · exact .inr rfl
          · exact .inl (buf_complete _ _)
          · exact .inl (buf_complete _ _)
          · exact .inl rfl

theorem processMultiBulkItem_keepsBuf (r : RedisReader) :
    KeepsBuf r (processMultiBulkItem r).2 := by
  unfold processMultiBulkItem readLine
  split
  · exact .inr rfl
  · cases seekNewline r.unread with
    | none => exact .inl rfl
    | some n =>
        simp only [Option.map_some]
        cases string2ll (r.unread.take n) with
        | none => exact .inr rfl
        | some elements =>
            dsimp only
            split_ifs
            · exact .inr rfl
            · exact .inl (buf_complete _ _)
            · exact .inl (buf_push _ _)
            · exact .inl (buf_complete _ _)

theorem processTyped_keepsBuf (type : ItemType) (r : RedisReader) :
    KeepsBuf r (processTyped type r).2 := by
  cases type with
  | error => exact processLineItem_keepsBuf _ r
  | status => exact processLineItem_keepsBuf _ r
  | integer => exact processLineItem_keepsBuf _ r
  | string => exact processBulkItem_keepsBuf r
  | array => exact processMultiBulkItem_keepsBuf r

theorem processItem_keepsBuf (r : RedisReader) : KeepsBuf r (processItem r).2 := by
  unfold processItem
  split
  · exact .inl rfl
  · split
    · exact processTyped_keepsBuf _ r
    · split
      · exact .inl rfl
      · split
        · exact .inr rfl
        · exact processTyped_keepsBuf _ _

theorem length_processItems_le (fuel : Nat) (r : RedisReader) :
    (processItems fuel r).buf.length ≤ r.buf.length := by
  induction fuel generalizing r with
  | zero => exact le_rfl
  | succ fuel ih =>
      by_cases hstack : r.rstack = []
      · rw [processItems_done _ hstack]
      · have hitem : (processItem r).2.buf.length ≤ r.buf.length := by
          obtain hbuf | hbuf := processItem_keepsBuf r
          · rw [hbuf]
          · rw [hbuf]
            exact Nat.zero_le _
        rw [processItems_succ fuel hstack, proceed]
        split
        · exact (ih _).trans hitem
        · exact hitem

/-- A reader whose positions are `int`s, as every call leaves it. -/
structure Small (r : RedisReader) : Prop where
  fits : r.buf.length ≤ 2147483647
  pos : r.pos < 1024

/-- "Discard part of the buffer when we've consumed at least 1k". -/
def discard (r : RedisReader) : RedisReader :=
  if 1024 ≤ r.pos then { r with buf := sdsrange r.buf (wrapInt32 r.pos) (-1), pos := 0 } else r

/-- Nothing is lost as long as the positions are `int`s. -/
theorem unread_discard {r : RedisReader} (hpos : r.pos ≤ r.buf.length)
    (hfits : r.buf.length ≤ 2147483647) : (discard r).unread = r.unread := by
  have hint : wrapInt32 r.pos = r.pos := wrapInt32_eq ⟨by omega, by omega⟩
  rw [discard]
  split
  · show (sdsrange r.buf (wrapInt32 r.pos) (-1)).drop 0 = _
    rw [List.drop_zero, hint, sdsrange_eq_drop hfits]
    rfl
  · rfl

theorem pos_discard {r : RedisReader} (hpos : r.pos ≤ r.buf.length) :
    (discard r).pos ≤ (discard r).buf.length := by
  rw [discard]
  split
  · exact Nat.zero_le _
  · exact hpos

theorem small_discard {r : RedisReader} (hfits : r.buf.length ≤ 2147483647) :
    Small (discard r) := by
  rw [discard]
  split
  · exact ⟨(length_sdsrange_le _ _ _).trans hfits, Nat.zero_lt_succ _⟩
  · exact ⟨hfits, by omega⟩

theorem discard_fields (r : RedisReader) :
    (discard r).err = r.err ∧ (discard r).reply = r.reply ∧ (discard r).rstack = r.rstack := by
  rw [discard]
  split <;> exact ⟨rfl, rfl, rfl⟩

theorem At.discard {r : RedisReader} {cur : ReadTask} {rest : List ReadTask} (h : At r cur rest) :
    At (discard r) cur rest := by
  obtain ⟨herr, hreply, hstack⟩ := discard_fields r
  exact ⟨herr.trans h.err, hreply.trans h.reply, pos_discard h.pos, hstack.trans h.rstack,
    h.shallow⟩

/-- What a call does behind the loop. -/
theorem gets_of_stops {r : RedisReader} {result : State × List UInt8 × Option Out}
    (h : Stops r result) :
    ∃ left, Gets (if r.err.isSome then (false, none, r)
      else if (discard r).rstack = [] then
        (true, (discard r).reply, { discard r with reply := none })
      else (true, none, discard r)) (result.1, left, result.2.2) ∧
        (r.buf.length ≤ 2147483647 → left = result.2.1) := by
  obtain ⟨herr, hreply, hstack⟩ := discard_fields r
  cases h with
  | waits h =>
      rename_i cur rest
      rw [if_neg (by simp [h.err]), if_neg (by simp [hstack, h.rstack])]
      exact ⟨_, .nothing (.reading h.discard), unread_discard h.pos⟩
  | replies hnone hpos hnil hroot =>
      rw [if_neg (by simp [hnone]), if_pos (hstack.trans hnil), hreply, hroot]
      exact ⟨_, .reply (@Stands.idle { Read.discard r with reply := none } (herr.trans hnone) rfl
        (pos_discard hpos) (hstack.trans hnil)), unread_discard hpos⟩
  | fails hsome =>
      rw [if_pos (by simp [hsome])]
      exact ⟨_, .error hsome, fun _ => rfl⟩

/-- A task for the item of a new reply. -/
theorem at_fresh {r : RedisReader} (err : r.err = none) (reply : r.reply = none)
    (pos : r.pos ≤ r.buf.length) : At { r with rstack := [.fresh (-1)] } (.fresh (-1)) [] :=
  ⟨err, reply, pos, rfl, nofun⟩

theorem itemStep_nil (s : State) : itemStep s [] = none := by
  cases hstep : itemStep s [] with
  | none => rfl
  | some result => exact absurd (steady.shrinks hstep) (Nat.not_lt_zero _)

/-- The part of a call in front of the loop. -/
theorem redisReaderGetReply_eq {r : RedisReader} (err : r.err = none)
    (hbuf : r.buf.length ≠ 0) (r' : RedisReader)
    (hr : r' = processItems (r.unread.length + 1)
      (if r.rstack = [] then { r with rstack := [.fresh (-1)] } else r)) :
    redisReaderGetReply r = if r'.err.isSome then (false, none, r')
      else if (discard r').rstack = [] then
        (true, (discard r').reply, { discard r' with reply := none })
      else (true, none, discard r') := by
  have hunread : (if r.rstack = [] then { r with rstack := [.fresh (-1)] } else r).unread =
      r.unread := by
    split <;> rfl
  rw [redisReaderGetReply, if_neg (by simp [err]), if_neg hbuf]
  simp only [hunread, ← hr]
  rfl

theorem redisReaderGetReply_small {r : RedisReader} (h : Small r)
    (hok : (redisReaderGetReply r).1 = true) : Small (redisReaderGetReply r).2.2 := by
  by_cases herr : r.err = none
  · by_cases hbuf : r.buf.length = 0
    · have hget : redisReaderGetReply r = (true, none, r) := by
        rw [redisReaderGetReply, if_neg (by simp [herr]), if_pos hbuf]
      rwa [hget]
    · have hsame : (if r.rstack = [] then { r with rstack := [.fresh (-1)] } else r).buf =
          r.buf := by
        split <;> rfl
      have hfits := (length_processItems_le (r.unread.length + 1)
        (if r.rstack = [] then { r with rstack := [.fresh (-1)] } else r)).trans
          (hsame.symm ▸ h.fits)
      rw [redisReaderGetReply_eq herr hbuf _ rfl] at hok ⊢
      generalize processItems (r.unread.length + 1) _ = r' at hok hfits ⊢
      have hsmall := small_discard hfits
      by_cases hnone : r'.err.isSome = true
      · rw [if_pos hnone] at hok
        cases hok
      · rw [if_neg hnone]
        split
        · exact ⟨hsmall.fits, hsmall.pos⟩
        · exact hsmall
  · rw [redisReaderGetReply, if_pos (Option.isSome_iff_ne_none.mpr herr)] at hok
    cases hok

/-- A call of the reader takes the steps up to the first reply or error, and leaves the bytes
behind it when their positions are `int`s. -/
theorem redisReaderGetReply_gets {r : RedisReader} {s : State} {unread : List UInt8}
    (h : Stands r s unread) :
    ∃ left, Gets (redisReaderGetReply r)
        ((Reassembly.pull itemStep s unread).1, left, (Reassembly.pull itemStep s unread).2.2) ∧
      (r.buf.length ≤ 2147483647 → left = (Reassembly.pull itemStep s unread).2.1) := by
  -- "When the buffer is empty, there will never be a reply"
  by_cases hbuf : r.buf.length = 0
  · have hnil : unread = [] := by
      have hlen := length_unread r
      cases h with
      | idle => exact List.eq_nil_of_length_eq_zero (by omega)
      | reading => exact List.eq_nil_of_length_eq_zero (by omega)
    have hpull : Reassembly.pull itemStep s unread = (s, unread, none) := by
      rw [hnil]
      exact Reassembly.pull_wait (itemStep_nil s)
    have hget : redisReaderGetReply r = (true, none, r) := by
      rw [redisReaderGetReply, if_pos hbuf]
      cases h with
      | idle err => rw [if_neg (by simp [err])]
      | reading hat => rw [if_neg (by simp [hat.err])]
    rw [hpull, hget]
    exact ⟨unread, .nothing h, fun _ => rfl⟩
  · cases h with
    | idle err reply pos rstack =>
        rw [redisReaderGetReply_eq err hbuf _ rfl, if_pos rstack]
        obtain ⟨left, hgets, hleft⟩ :=
          gets_of_stops (processItems_pull (at_fresh err reply pos) (Nat.lt_succ_self _))
        exact ⟨left, hgets, fun hfits => hleft ((length_processItems_le _ _).trans hfits)⟩
    | reading hat =>
        have hne : r.rstack ≠ [] := by
          rw [hat.rstack]
          exact List.cons_ne_nil _ _
        rw [redisReaderGetReply_eq hat.err hbuf _ rfl, if_neg hne]
        obtain ⟨left, hgets, hleft⟩ := gets_of_stops (processItems_pull hat (Nat.lt_succ_self _))
        exact ⟨left, hgets, fun hfits => hleft ((length_processItems_le _ _).trans hfits)⟩

/-- **A call of the reader takes the steps up to the first reply or error.** -/
theorem redisReaderGetReply_pull {r : RedisReader} {s : State} {unread : List UInt8}
    (h : Stands r s unread) (hfits : r.buf.length ≤ 2147483647) :
    Gets (redisReaderGetReply r) (Reassembly.pull itemStep s unread) := by
  obtain ⟨left, hgets, hleft⟩ := redisReaderGetReply_gets h
  rwa [hleft hfits] at hgets

/-- `redisReaderFeed` puts bytes behind the others. -/
theorem redisReaderFeed_stands {r : RedisReader} {s : State} {unread : List UInt8}
    (h : Stands r s unread) (buf : List UInt8) :
    (redisReaderFeed r buf).1 = true ∧ Stands (redisReaderFeed r buf).2 s (unread ++ buf) := by
  have happend : ∀ {r : RedisReader}, r.pos ≤ r.buf.length →
      { r with buf := r.buf ++ buf }.unread = r.unread ++ buf :=
    fun hpos => List.drop_append_of_le_length hpos
  have hle : ∀ {r : RedisReader}, r.pos ≤ r.buf.length → r.pos ≤ (r.buf ++ buf).length :=
    fun hpos => hpos.trans (by simp)
  cases h with
  | idle err reply pos rstack =>
      rw [redisReaderFeed, if_neg (by simp [err]), ← happend pos]
      exact ⟨rfl, @Stands.idle { r with buf := r.buf ++ buf } err reply (hle pos) rstack⟩
  | reading hat =>
      rw [redisReaderFeed, if_neg (by simp [hat.err]), ← happend hat.pos]
      exact ⟨rfl, @Stands.reading { r with buf := r.buf ++ buf } _ _
        ⟨hat.err, hat.reply, hle hat.pos, hat.rstack, hat.shallow⟩⟩

end Read
end Redis
end TcMuzi
