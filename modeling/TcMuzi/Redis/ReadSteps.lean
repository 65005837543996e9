import TcMuzi.Lib.Numerals
import TcMuzi.Lib.Reassembly
import TcMuzi.Redis.Read

/-!
# What the reply reader does with the bytes it has

`itemStep` is the reader without its buffer: a step uses a type byte, or the line or the string
of an item, and waits as long as one of these is not complete.  `steady` says that no step looks
at the bytes behind, and `redisReaderGetReply_pull` that the reader with its buffer, its position
and the bytes it discards takes these steps up to the first reply or error.
-/

namespace TcMuzi
namespace Redis
namespace Read

open Lib

/-- The current task above the tasks of the arrays around it, or an error before. -/
inductive State
  | reading (cur : ReadTask) (rest : List ReadTask)
  | failed

inductive Out
  | reply (reply : RedisReply)
  | error (errstr : List UInt8)

/-- Between two replies. -/
def idle : State := .reading (.fresh (-1)) []

/-- The object of the current task is complete. -/
def outcome (obj : RedisReply) (cur : ReadTask) (rest : List ReadTask) : State × Option Out :=
  match moveToNextTask obj cur rest with
  | (some root, _) => (idle, some (.reply root))
  | (none, cur :: rest) => (.reading cur rest, none)
  | (none, []) => (idle, none)

def finished (obj : RedisReply) (cur : ReadTask) (rest : List ReadTask) (unread : List UInt8) :
    Option (State × List UInt8 × Option Out) :=
  some ((outcome obj cur rest).1, unread, (outcome obj cur rest).2)

def fails (errstr unread : List UInt8) : Option (State × List UInt8 × Option Out) :=
  some (.failed, unread, some (.error errstr))

/-- The item behind its type byte, whose line is `line`. -/
def lineStep (type : ItemType) (cur : ReadTask) (rest : List ReadTask) (line behind : List UInt8) :
    Option (State × List UInt8 × Option Out) :=
  match type with
  | .error => finished (.error line) cur rest behind
  | .status => finished (.status line) cur rest behind
  | .integer =>
      match string2ll line with
      | none => fails badInteger behind
      | some v => finished (.integer v) cur rest behind
  | .string =>
      match string2ll line with
      | none => fails badBulkLength behind
      | some len =>
          if len < -1 then fails bulkOutOfRange behind
          else if len = -1 then finished .nil cur rest behind
          else if len.toNat + 2 ≤ behind.length then
            finished (.string (behind.take len.toNat)) cur rest (behind.drop (len.toNat + 2))
          else none
  | .array =>
      match string2ll line with
      | none => fails badMultiBulkLength behind
      | some elements =>
          if elements < -1 ∨ 2147483647 < elements then fails multiBulkOutOfRange behind
          else if elements = -1 then finished .nil cur rest behind
          else if 0 < elements then
            some (.reading (.fresh 0) ({ cur with elements := elements, element := [] } :: rest),
              behind, none)
          else finished (.array []) cur rest behind

/-- The item behind its type byte. -/
def typedStep (type : ItemType) (cur : ReadTask) (rest : List ReadTask) (unread : List UInt8) :
    Option (State × List UInt8 × Option Out) :=
  match seekNewline unread with
  | none => none
  | some s => lineStep type cur rest (unread.take s) (unread.drop (s + 2))

/-- The step of the reader on the bytes that are there. -/
def itemStep : Reassembly.Step State UInt8 Out
  | .failed, _ => none
  | .reading cur rest, unread =>
      match cur.type with
      | some type => typedStep type cur rest unread
      | none =>
          match unread with
          | [] => none
          | byte :: unread =>
              match itemType byte with
              | none => fails (protocolByte byte) unread
              | some type =>
                  if type = .array ∧ rest.length = 8 then fails tooDeep unread
                  else some (.reading { cur with type := some type } rest, unread, none)

/-! ## No step looks behind -/

theorem seekNewline_cons_cons (c d : UInt8) (rest : List UInt8) :
    seekNewline (c :: d :: rest) =
      if c = 13 ∧ d = 10 then some 0 else (seekNewline (d :: rest)).map (· + 1) := by
  rw [seekNewline]

theorem seekNewline_append {unread : List UInt8} {s : Nat} (h : seekNewline unread = some s)
    (more : List UInt8) : seekNewline (unread ++ more) = some s ∧ s + 2 ≤ unread.length := by
  induction unread generalizing s with
  | nil => cases h
  | cons c unread ih =>
      cases unread with
      | nil => cases h
      | cons d rest =>
          rw [seekNewline_cons_cons] at h
          rw [List.cons_append, List.cons_append, seekNewline_cons_cons]
          split_ifs at h ⊢ with hcrlf
          · cases h
            exact ⟨rfl, by simp⟩
          · obtain ⟨s', hs', rfl⟩ := Option.map_eq_some_iff.mp h
            obtain ⟨happend, hle⟩ := ih hs'
            rw [List.cons_append] at happend
            refine ⟨by rw [happend]; rfl, ?_⟩
            simp only [List.length_cons] at hle ⊢
            omega

theorem finished_eq_some {obj : RedisReply} {cur : ReadTask} {rest : List ReadTask}
    {unread left : List UInt8} {s : State} {out : Option Out}
    (h : finished obj cur rest unread = some (s, left, out)) :
    left = unread ∧ ∀ unread', finished obj cur rest unread' = some (s, unread', out) := by
  cases h
  exact ⟨rfl, fun _ => rfl⟩

theorem fails_eq_some {errstr unread left : List UInt8} {s : State} {out : Option Out}
    (h : fails errstr unread = some (s, left, out)) :
    left = unread ∧ ∀ unread', fails errstr unread' = some (s, unread', out) := by
  cases h
  exact ⟨rfl, fun _ => rfl⟩

theorem lineStep_append {type : ItemType} {cur : ReadTask} {rest : List ReadTask}
    {line behind left : List UInt8} {s : State} {out : Option Out}
    (h : lineStep type cur rest line behind = some (s, left, out)) (more : List UInt8) :
    lineStep type cur rest line (behind ++ more) = some (s, left ++ more, out) ∧
      left.length ≤ behind.length := by
  have hfinished : ∀ {obj : RedisReply}, finished obj cur rest behind = some (s, left, out) →
      finished obj cur rest (behind ++ more) = some (s, left ++ more, out) ∧
        left.length ≤ behind.length := by
    intro obj h
    obtain ⟨hleft, hall⟩ := finished_eq_some h
    subst hleft
    exact ⟨hall _, le_rfl⟩
  have hfails : ∀ {errstr : List UInt8}, fails errstr behind = some (s, left, out) →
      fails errstr (behind ++ more) = some (s, left ++ more, out) ∧
        left.length ≤ behind.length := by
    intro errstr h
    obtain ⟨hleft, hall⟩ := fails_eq_some h
    subst hleft
    exact ⟨hall _, le_rfl⟩
  cases type with
  | error => exact hfinished h
  | status => exact hfinished h
  | integer =>
      rw [lineStep] at h ⊢
      cases hv : string2ll line with
      | none =>
          simp only [hv] at h ⊢
          exact hfails h
      | some v =>
          simp only [hv] at h ⊢
          exact hfinished h
  | string =>
      rw [lineStep] at h ⊢
      cases hv : string2ll line with
      | none =>
          simp only [hv] at h ⊢
          exact hfails h
      | some len =>
          simp only [hv] at h ⊢
          by_cases hrange : len < -1
          · rw [if_pos hrange] at h ⊢
            exact hfails h
          rw [if_neg hrange] at h ⊢
          by_cases hnil : len = -1
          · rw [if_pos hnil] at h ⊢
            exact hfinished h
          rw [if_neg hnil] at h ⊢
          by_cases hlen : len.toNat + 2 ≤ behind.length
          · rw [if_pos hlen] at h
            obtain ⟨hleft, hall⟩ := finished_eq_some h
            subst hleft
            rw [if_pos (by rw [List.length_append]; omega),
              List.take_append_of_le_length (by omega), List.drop_append_of_le_length hlen, hall]
            refine ⟨rfl, ?_⟩
            rw [List.length_drop]
            omega
          · rw [if_neg hlen] at h
            cases h
  | array =>
      rw [lineStep] at h ⊢
      cases hv : string2ll line with
      | none =>
          simp only [hv] at h ⊢
          exact hfails h
      | some elements =>
          simp only [hv] at h ⊢
          by_cases hrange : elements < -1 ∨ 2147483647 < elements
          · rw [if_pos hrange] at h ⊢
            exact hfails h
          rw [if_neg hrange] at h ⊢
          by_cases hnil : elements = -1
          · rw [if_pos hnil] at h ⊢
            exact hfinished h
          rw [if_neg hnil] at h ⊢
          by_cases hpos : 0 < elements
          · rw [if_pos hpos] at h ⊢
            cases h
            exact ⟨rfl, le_rfl⟩
          · rw [if_neg hpos] at h ⊢
            exact hfinished h

theorem typedStep_append {type : ItemType} {cur : ReadTask} {rest : List ReadTask}
    {unread left : List UInt8} {s : State} {out : Option Out}
    (h : typedStep type cur rest unread = some (s, left, out)) (more : List UInt8) :
    typedStep type cur rest (unread ++ more) = some (s, left ++ more, out) ∧
      left.length < unread.length := by
  rw [typedStep] at h ⊢
  cases hseek : seekNewline unread with
  | none =>
      rw [hseek] at h
      cases h
  | some n =>
      obtain ⟨happend, hle⟩ := seekNewline_append hseek more
      rw [hseek] at h
      rw [happend]
      simp only at h ⊢
      rw [List.take_append_of_le_length (by omega), List.drop_append_of_le_length hle]
      obtain ⟨hline, hleft⟩ := lineStep_append h more
      refine ⟨hline, ?_⟩
      rw [List.length_drop] at hleft
      omega

/-- **A step uses a byte and does not look at what comes behind.** -/
theorem steady : Reassembly.Steady itemStep := by
  have hstep : ∀ {s s' : State} {unread left : List UInt8} {out : Option Out},
      itemStep s unread = some (s', left, out) → left.length < unread.length ∧
        ∀ more, itemStep s (unread ++ more) = some (s', left ++ more, out) := by
    intro s s' unread left out h
    cases s with
    -- a reader with an error waits for ever
    | failed => cases h
    | reading cur rest =>
        cases htype : cur.type with
        | some type =>
            simp only [itemStep, htype] at h ⊢
            exact ⟨(typedStep_append h []).2, fun more => (typedStep_append h more).1⟩
        | none =>
            cases unread with
            | nil => simp [itemStep, htype] at h
            | cons byte unread =>
                simp only [itemStep, htype, List.cons_append] at h ⊢
                cases hbyte : itemType byte with
                | none =>
                    simp only [hbyte] at h ⊢
                    obtain ⟨hleft, hall⟩ := fails_eq_some h
                    subst hleft
                    exact ⟨Nat.lt_succ_self _, fun more => hall _⟩
                | some type =>
                    simp only [hbyte] at h ⊢
                    split_ifs at h ⊢
                    · obtain ⟨hleft, hall⟩ := fails_eq_some h
                      subst hleft
                      exact ⟨Nat.lt_succ_self _, fun more => hall _⟩
                    · cases h
                      exact ⟨Nat.lt_succ_self _, fun more => rfl⟩
  exact ⟨fun h => (hstep h).1, fun h => (hstep h).2⟩

end Read
end Redis
end TcMuzi
