import TcMuzi.Redis.Protocol

/-!
# Commands on the wire

`redisFormatSdsCommandArgv`, which `redisAppendCommandArgv` calls, and `redisFormatCommandArgv`
and the end of `redisvFormatCommand`, which write the same bytes: a command is as long as it was
computed (`length_formatCommandArgv`), and a reader at the other end finds the arguments in it
(`written_calls`).  `getReplies_pipeline` puts both directions of a connection together.
-/

namespace TcMuzi
namespace Redis
namespace Read

open Base Lib Lib.Decimal

/-- `countDigits`. -/
def countDigits (v : Nat) : Nat :=
  if v < 10 then 1
  else if v < 100 then 2
  else if v < 1000 then 3
  else if v < 10000 then 4
  else countDigits (v / 10000) + 4
termination_by v
decreasing_by omega

/-- `bulklen`. -/
def bulklen (len : Nat) : Nat := 1 + countDigits len + 2 + len + 2

/-- `totlen`, the number of bytes that is allocated. -/
def totlen (argv : List (List UInt8)) : Nat :=
  1 + countDigits argv.length + 2 + (argv.map fun arg => bulklen arg.length).sum

/-- What is printed into them. -/
def formatCommandArgv (argv : List (List UInt8)) : List UInt8 :=
  42 :: (ofNat argv.length ++ crlf) ++
    argv.flatMap fun arg => 36 :: (ofNat arg.length ++ crlf) ++ (arg ++ crlf)

theorem length_ofNat_div {n : Nat} (hn : 10 ≤ n) :
    (ofNat n).length = (ofNat (n / 10)).length + 1 := by
  obtain ⟨c, heq⟩ := ofNat_div hn
  rw [heq, List.length_append]
  rfl

theorem length_ofNat_small {n : Nat} (hn : n < 10) : (ofNat n).length = 1 := by
  have hdigits : ∀ m < 10, (ofNat m).length = 1 := by decide
  exact hdigits n hn

/-- Four digits at a time are counted as one at a time. -/
theorem length_ofNat (n : Nat) : (ofNat n).length = countDigits n := by
  induction n using Nat.strongRecOn with
  | ind n ih =>
      rw [countDigits]
      split_ifs with h1 h2 h3 h4
      · exact length_ofNat_small h1
      · rw [length_ofNat_div (by omega), length_ofNat_small (by omega)]
      · rw [length_ofNat_div (by omega), length_ofNat_div (by omega),
          length_ofNat_small (by omega)]
      · rw [length_ofNat_div (by omega), length_ofNat_div (by omega),
          length_ofNat_div (by omega), length_ofNat_small (by omega)]
      -- `v /= 10000U` is four divisions by ten
      · rw [length_ofNat_div (by omega), length_ofNat_div (by omega),
          length_ofNat_div (by omega), length_ofNat_div (by omega), Nat.div_div_eq_div_mul,
          Nat.div_div_eq_div_mul, Nat.div_div_eq_div_mul, ih (n / 10000) (by omega)]

/-- `assert(pos == totlen)` holds. -/
theorem length_formatCommandArgv (argv : List (List UInt8)) :
    (formatCommandArgv argv).length = totlen argv := by
  have harg : ∀ arg : List UInt8,
      (36 :: (ofNat arg.length ++ crlf) ++ (arg ++ crlf)).length = bulklen arg.length := by
    intro arg
    simp only [List.cons_append, List.length_cons, List.length_append, length_ofNat, crlf,
      List.length_nil, bulklen]
    omega
  have hargs : ∀ argv : List (List UInt8),
      (argv.flatMap fun arg => 36 :: (ofNat arg.length ++ crlf) ++ (arg ++ crlf)).length =
        (argv.map fun arg => bulklen arg.length).sum := by
    intro argv
    induction argv with
    | nil => rfl
    | cons arg argv ih =>
        rw [List.flatMap_cons, List.length_append, harg, ih, List.map_cons, List.sum_cons]
  rw [formatCommandArgv, List.length_append, hargs, totlen]
  simp only [List.length_cons, List.length_append, length_ofNat, crlf, List.length_nil]
  omega

/-- A command is an array of strings. -/
theorem formatCommandArgv_eq (argv : List (List UInt8)) :
    formatCommandArgv argv = encode (.array (argv.map .string)) := by
  have hargs : ∀ argv : List (List UInt8),
      (argv.flatMap fun arg => 36 :: (ofNat arg.length ++ crlf) ++ (arg ++ crlf)) =
        encodeAll (argv.map .string) := by
    intro argv
    induction argv with
    | nil => rfl
    | cons arg argv ih =>
        rw [List.flatMap_cons, ih, List.map_cons, encodeAll, encode]
        simp
  rw [formatCommandArgv, hargs, encode, List.length_map]
  simp

/-- The length of the command is an `int`. -/
def IsInt (argv : List (List UInt8)) : Prop := totlen argv ≤ 2147483647

instance : DecidablePred IsInt := fun argv =>
  decidable_of_iff ((formatCommandArgv argv).length ≤ 2147483647) (by
    rw [length_formatCommandArgv, IsInt])

theorem sendable_strings {argv : List (List UInt8)}
    (h : ∀ arg ∈ argv, arg.length ≤ 9223372036854775807) (depth : Nat) :
    SendableAll depth (argv.map .string) := by
  induction argv with
  | nil => trivial
  | cons arg argv ih =>
      rw [List.map_cons, SendableAll, Sendable]
      exact ⟨h arg List.mem_cons_self, ih fun a ha => h a (List.mem_cons_of_mem arg ha)⟩

theorem sendable_command {argv : List (List UInt8)} (h : IsInt argv) :
    Sendable 0 (.array (argv.map .string)) := by
  have hbulk : ∀ argv : List (List UInt8), argv.length ≤
      (argv.map fun arg => bulklen arg.length).sum ∧
        ∀ arg ∈ argv, arg.length ≤ (argv.map fun arg => bulklen arg.length).sum := by
    intro argv
    induction argv with
    | nil => exact ⟨le_rfl, fun arg harg => absurd harg List.not_mem_nil⟩
    | cons arg argv ih =>
        have hlen : bulklen arg.length = 1 + countDigits arg.length + 2 + arg.length + 2 := rfl
        rw [List.map_cons, List.sum_cons, List.length_cons]
        refine ⟨by have := ih.1; omega, fun a ha => ?_⟩
        obtain rfl | ha := List.mem_cons.mp ha
        · omega
        · have := ih.2 a ha
          omega
  obtain ⟨hlength, hall⟩ := hbulk argv
  rw [IsInt, totlen] at h
  rw [Sendable, List.length_map]
  refine ⟨by decide, by omega, sendable_strings (fun arg harg => ?_) 1⟩
  have := hall arg harg
  omega

/-- The commands, as the replies that a reader finds in them. -/
def commands (argvs : List (List (List UInt8))) : List RedisReply :=
  argvs.map fun argv => .array (argv.map .string)

theorem flatMap_formatCommandArgv (argvs : List (List (List UInt8))) :
    argvs.flatMap formatCommandArgv = encodeAll (commands argvs) := by
  induction argvs with
  | nil => rfl
  | cons argv argvs ih =>
      rw [List.flatMap_cons, formatCommandArgv_eq, ih]
      rfl

theorem sendable_commands {argvs : List (List (List UInt8))} (h : ∀ argv ∈ argvs, IsInt argv) :
    SendableAll 0 (commands argvs) := by
  induction argvs with
  | nil => trivial
  | cons argv argvs ih =>
      exact ⟨sendable_command (h argv List.mem_cons_self),
        ih fun a ha => h a (List.mem_cons_of_mem argv ha)⟩

/-! ## Calls of a connection -/

/-- `redisAppendCommandArgv` and `redisGetReply`; `redisCommandArgv` is one behind the other. -/
inductive ContextCall
  | append (argv : List (List UInt8))
  | getReply

def RedisContext.call (c : RedisContext) : ContextCall → RedisContext
  | .append argv => { c with obuf := c.obuf ++ formatCommandArgv argv }
  | .getReply => (redisGetReply c).2.2

/-- The commands of some calls. -/
def appended : List ContextCall → List (List (List UInt8))
  | [] => []
  | .append argv :: calls => argv :: appended calls
  | .getReply :: calls => appended calls

/-- The output buffer has at most `INT_MAX` bytes in front of every call. -/
def Roomy : RedisContext → List ContextCall → Prop
  | _, [] => True
  | c, call :: calls => c.obuf.length ≤ 2147483647 ∧ Roomy (c.call call) calls

theorem sent_calls {calls : List ContextCall} {c : RedisContext} (hroomy : Roomy c calls) :
    (calls.foldl RedisContext.call c).sent =
      c.sent ++ (appended calls).flatMap formatCommandArgv := by
  induction calls generalizing c with
  | nil => exact (List.append_nil _).symm
  | cons call calls ih =>
      rw [List.foldl_cons, ih hroomy.2]
      cases call with
      | append argv =>
          rw [appended, List.flatMap_cons, ← List.append_assoc]
          congr 1
          exact (List.append_assoc _ _ _).symm
      | getReply =>
          rw [appended]
          congr 1
          exact sent_redisGetReply hroomy.1

/-- **What the server reads**: at any time a part of the commands that were appended, from the
first one on and in their order, and all of them when nothing is left to be written. -/
theorem written_calls {calls : List ContextCall} {reads : List ReadResult}
    {writes : List WriteResult} (hint : ∀ argv ∈ appended calls, IsInt argv)
    (hroomy : Roomy (.connected reads writes) calls) :
    (Reassembly.settle itemStep idle
        (calls.foldl RedisContext.call (.connected reads writes)).written).outs <+:
        (commands (appended calls)).map .reply ∧
      ((calls.foldl RedisContext.call (.connected reads writes)).obuf = [] →
        Reassembly.settle itemStep idle
            (calls.foldl RedisContext.call (.connected reads writes)).written =
          ⟨idle, [], (commands (appended calls)).map .reply⟩) := by
  have hsent := sent_calls hroomy
  rw [flatMap_formatCommandArgv, show (RedisContext.connected reads writes).sent = [] from rfl,
    List.nil_append] at hsent
  have hall := settle_idle_encodeAll (sendable_commands hint) []
  rw [List.append_nil, settle_idle_nil, ← hsent, RedisContext.sent] at hall
  generalize calls.foldl RedisContext.call (.connected reads writes) = c at hall
  refine ⟨?_, fun hobuf => ?_⟩
  -- what is read of the rest comes behind what is read of the written part
  · rw [Reassembly.settle_append steady] at hall
    have houts := congrArg Reassembly.Settled.outs hall
    simp only [Reassembly.Settled.outs_after, List.append_nil] at houts
    exact ⟨_, houts⟩
  · rw [hobuf, List.append_nil] at hall
    rw [hall, Reassembly.Settled.after]
    simp

/-- Two commands, the first of which is answered while the second waits. -/
theorem written_calls_get :
    (Reassembly.settle itemStep idle
        ([.append [[71, 69, 84], [97]], .getReply, .append [[80, 73, 78, 71]]].foldl
          RedisContext.call (.connected [.bytes [43, 13, 10]] [.wrote 7])).written).outs <+:
        (commands [[[71, 69, 84], [97]], [[80, 73, 78, 71]]]).map .reply ∧
      (([.append [[71, 69, 84], [97]], .getReply, .append [[80, 73, 78, 71]]].foldl
          RedisContext.call (.connected [.bytes [43, 13, 10]] [.wrote 7])).obuf = [] →
        Reassembly.settle itemStep idle
            ([.append [[71, 69, 84], [97]], .getReply, .append [[80, 73, 78, 71]]].foldl
              RedisContext.call (.connected [.bytes [43, 13, 10]] [.wrote 7])).written =
          ⟨idle, [], (commands [[[71, 69, 84], [97]], [[80, 73, 78, 71]]]).map .reply⟩) :=
  @written_calls [.append [[71, 69, 84], [97]], .getReply, .append [[80, 73, 78, 71]]] _ _
    (by decide) ⟨by decide, by decide, by decide, trivial⟩

/-! ## Both directions -/

theorem obuf_writeUntilDone {fuel : Nat} {c : RedisContext} (h : (writeUntilDone fuel c).1 = true) :
    (writeUntilDone fuel c).2.obuf = [] := by
  have hdone : ∀ {c : RedisContext}, (redisBufferWrite c).2.1 = true →
      (redisBufferWrite c).2.2.obuf = [] := by
    intro c hdone
    rw [redisBufferWrite] at hdone ⊢
    split_ifs at hdone ⊢ with herr hobuf
    · exact hobuf
    · cases hwrites : c.writes with
      | nil =>
          rw [hwrites] at hdone
          exact of_decide_eq_true hdone
      | cons write writes =>
          rw [hwrites] at hdone
          cases write with
          | wrote nwritten => exact of_decide_eq_true hdone
          | interrupted => cases hdone
          | failed errstr => cases hdone
  induction fuel generalizing c with
  | zero => cases h
  | succ fuel ih =>
      rw [writeUntilDone] at h ⊢
      split_ifs at h ⊢ with hok hlast
      · exact hdone hlast
      · exact ih h

section Server

variable {σ : Type} (react : σ → List (List UInt8) → σ × RedisReply)

/-- The strings of an array. -/
def stringsOf : List RedisReply → Option (List (List UInt8))
  | [] => some []
  | .string str :: element => (stringsOf element).map (str :: ·)
  | _ :: _ => none

/-- The command that was read. -/
def argvOf : Out → Option (List (List UInt8))
  | .reply (.array element) => stringsOf element
  | _ => none

/-- What a server sends that answers one command after the other. -/
def serve : σ → List Out → List UInt8
  | _, [] => []
  | s, out :: outs =>
      match argvOf out with
      | some argv => encode (react s argv).2 ++ serve (react s argv).1 outs
      | none => []

/-- The replies of the server. -/
def repliesOf : σ → List (List (List UInt8)) → List RedisReply
  | _, [] => []
  | s, argv :: argvs => (react s argv).2 :: repliesOf (react s argv).1 argvs

theorem stringsOf_map (argv : List (List UInt8)) : stringsOf (argv.map .string) = some argv := by
  induction argv with
  | nil => rfl
  | cons arg argv ih => rw [List.map_cons, stringsOf, ih]; rfl

theorem length_repliesOf (s : σ) (argvs : List (List (List UInt8))) :
    (repliesOf react s argvs).length = argvs.length := by
  induction argvs generalizing s with
  | nil => rfl
  | cons argv argvs ih => rw [repliesOf, List.length_cons, ih, List.length_cons]

theorem serve_commands (s : σ) (argvs : List (List (List UInt8))) :
    serve react s ((commands argvs).map .reply) = encodeAll (repliesOf react s argvs) := by
  induction argvs generalizing s with
  | nil => rfl
  | cons argv argvs ih =>
      have hargv : argvOf (.reply (.array (argv.map .string))) = some argv := stringsOf_map argv
      rw [repliesOf, encodeAll, ← ih]
      show serve react s (.reply (.array (argv.map .string)) :: _) = _
      rw [serve, hargv]
      rfl

variable {react}

theorem sendable_repliesOf (hreact : ∀ s argv, Sendable 0 (react s argv).2) (s : σ)
    (argvs : List (List (List UInt8))) : SendableAll 0 (repliesOf react s argvs) := by
  induction argvs generalizing s with
  | nil => trivial
  | cons argv argvs ih => exact ⟨hreact s argv, ih _⟩

/-- **Commands and replies**: a server that reads what was written and answers one command after
the other gives the calls the replies to the commands, in order, whatever parts the commands and
the replies are sent in. -/
theorem getReplies_pipeline {argvs : List (List (List UInt8))} {reads : List ReadResult}
    {writes : List WriteResult} (s : σ) (hint : ∀ argv ∈ argvs, IsInt argv)
    (hobuf : (argvs.flatMap formatCommandArgv).length ≤ 2147483647)
    (hreact : ∀ s argv, Sendable 0 (react s argv).2)
    (hlength : ∀ reply ∈ repliesOf react s argvs, (encode reply).length ≤ 2147466240)
    (hpieces : Pieces reads) (hwrites : ∀ errstr, WriteResult.failed errstr ∉ writes)
    (hreads : delivered reads = serve react s (Reassembly.settle itemStep idle
      (writeUntilDone (writes.length + 1)
        ⟨none, argvs.flatMap formatCommandArgv, .create, reads, writes, []⟩).2.written).outs) :
    getReplies argvs.length ⟨none, argvs.flatMap formatCommandArgv, .create, reads, writes, []⟩ =
      (repliesOf react s argvs).map fun x => (some x, none) := by
  have hwritable : Writable ⟨none, argvs.flatMap formatCommandArgv, .create, reads, writes, []⟩ :=
    ⟨rfl, hwrites, hobuf⟩
  obtain ⟨hok, -, -⟩ := writeUntilDone_writable hwritable (Nat.lt_succ_self _)
  have hwritten : (writeUntilDone (writes.length + 1)
      ⟨none, argvs.flatMap formatCommandArgv, .create, reads, writes, []⟩).2.written =
        encodeAll (commands argvs) := by
    have hsent := sent_writeUntilDone (writes.length + 1) hwritable.obuf
    rw [RedisContext.sent, obuf_writeUntilDone hok, List.append_nil] at hsent
    rw [hsent, ← flatMap_formatCommandArgv]
    rfl
  rw [hwritten, outs_encodeAll (sendable_commands hint), serve_commands] at hreads
  rw [getReplies_live (live_of_create hwritable rfl
    (bounded_encodeAll (sendable_repliesOf hreact s argvs) hlength hpieces hreads))]
  show expected _ (Reassembly.settle itemStep idle (delivered reads)).outs _ = _
  rw [hreads, outs_encodeAll (sendable_repliesOf hreact s argvs)]
  have hall := expected_replies (ending reads) (repliesOf react s argvs) 0
  rw [Nat.add_zero, length_repliesOf, List.replicate_zero, List.append_nil] at hall
  exact hall

end Server

/-- Two commands to a server that counts them. -/
theorem getReplies_pipeline_two :
    getReplies 2 ⟨none, [[[71, 69, 84]], [[71, 69, 84]]].flatMap formatCommandArgv, .create,
        [.bytes [58, 49], .bytes [13, 10, 58, 50, 13, 10]], [.wrote 4, .interrupted], []⟩ =
      [(some (.integer 1), none), (some (.integer 2), none)] :=
  @getReplies_pipeline Nat (fun n _ => (min (n + 1) 9, .integer (min (n + 1) 9 : Nat)))
    [[[71, 69, 84]], [[71, 69, 84]]] _ _ 0
    (by decide) (by decide)
    (fun s _ => by
      rw [Sendable]
      omega)
    (by decide) (by simp [Pieces]) (by simp) (by decide)

end Read
end Redis
end TcMuzi
