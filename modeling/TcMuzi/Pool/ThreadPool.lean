import TcMuzi.Lib.Interleaving

/-!
# The thread pool

`ThreadPool`, with worker threads that are in `Run` and threads that call `Exec` and
`WaitForAllDone`, on a pool that nobody stops.  The parts of the functions that run with
`mutex_` held are single steps, and so are the operations on `atomic_`.

* A wait may look at its predicate at any time, so nothing depends on the notifications.
* A task that calls the pool does what one more calling thread does.
* `Place` follows every submitted task through the pool; no function reads it.
-/

namespace TcMuzi
namespace Pool

open Lib

/-! ## The pool -/

/-- A task; `id` is the number of tasks that were submitted before it. -/
structure TaskFunc where
  id : Nat
  expireTime : Int

/-- In `tasks_`, in the variable `task` of the `Run` of a thread, or executed or dropped. -/
inductive Place (ι : Type)
  | queued
  | taken (i : ι)
  | ended
deriving DecidableEq

structure ThreadPool (ι : Type) where
  tasks : List TaskFunc
  terminate : Bool
  atomic : Int
  submitted : Nat
  place : Nat → Place ι

namespace ThreadPool

variable {ι : Type}

/-- The tasks of the queue. -/
def ids (pool : ThreadPool ι) : List Nat := pool.tasks.map TaskFunc.id

/-- The constructor. -/
def new : ThreadPool ι := ⟨[], false, 0, 0, fun _ => .queued⟩

/-- `Exec` with the mutex held. -/
def push (expireTime : Int) (pool : ThreadPool ι) : ThreadPool ι :=
  { pool with
    tasks := pool.tasks ++ [⟨pool.submitted, expireTime⟩]
    submitted := pool.submitted + 1
    place := Function.update pool.place pool.submitted .queued }

/-- `Get`; it has no result as long as it waits. -/
def get (i : ι) (pool : ThreadPool ι) : Option (Option TaskFunc × ThreadPool ι) :=
  match pool.tasks with
  | [] =>
      -- the predicate of the wait is `terminate_ || !tasks_.empty()`
      if pool.terminate then some (none, pool) else none
  | task :: rest =>
      if pool.terminate then some (none, pool)
      else some (some task,
        { pool with tasks := rest, place := Function.update pool.place task.id (.taken i) })

/-- A task that has been executed, or dropped. -/
def finish (task : TaskFunc) (pool : ThreadPool ι) : ThreadPool ι :=
  { pool with place := Function.update pool.place task.id .ended }

/-- The test at the end of a round of `Run`. -/
def idle (pool : ThreadPool ι) : Bool := pool.atomic == 0 && pool.tasks.isEmpty

/-- `WaitForAllDone`; it has no result as long as it waits. -/
def waitForAllDone (millsecond : Int) (timedOut : Bool) (pool : ThreadPool ι) : Option Bool :=
  if pool.tasks.isEmpty then some true
  else if 0 ≤ millsecond ∧ timedOut then some false
  else none

end ThreadPool

/-- A `WaitForAllDone` that returned true: how many tasks were submitted before it was called,
and the pool when it returned. -/
structure Answer (ι : Type) where
  before : Nat
  pool : ThreadPool ι

structure PoolRun (ι : Type) where
  pool : ThreadPool ι
  answers : List (Answer ι)

/-! ## The threads -/

/-- The steps of the threads.  `submitted` and `answer` stand at the begin and at the end of a
`WaitForAllDone`. -/
inductive PoolCmd
  | isTerminate
  | get
  | increment
  | now
  | func (task : TaskFunc)
  | drop (task : TaskFunc)
  | decrement
  | notify
  | push (expireTime : Int)
  | submitted
  | wait (millsecond : Int)
  | answer (before : Nat)

@[reducible] def PoolCmd.Reply : PoolCmd → Type
  | .isTerminate => Bool
  | .get => Option TaskFunc
  | .now => Int
  | .notify => Bool
  | .submitted => Nat
  | .wait _ => Bool
  | _ => Unit

@[reducible] def PoolProg : Type → Type := Prog PoolCmd PoolCmd.Reply

def act (c : PoolCmd) : PoolProg c.Reply := Prog.issue c

/-- `_expireTime` is over. -/
def isExpired (task : TaskFunc) : PoolProg Bool :=
  if task.expireTime = 0 then .ret false
  else do
    let now ← act .now
    return decide (task.expireTime < now)

/-- The task runs, unless it is too late. -/
def execute (task : TaskFunc) (expired : Bool) : PoolProg Unit :=
  -- an exception of the task ends it as well
  if expired then act (.drop task) else act (.func task)

/-- A round of `Run` with a task. -/
def process (task : TaskFunc) : PoolProg Unit := do
  act .increment
  let expired ← isExpired task
  execute task expired
  act .decrement
  let _ ← act .notify
  return ()

/-- The first rounds of `Run`. -/
def run : Nat → PoolProg Unit
  | 0 => .ret ()
  | rounds + 1 => do
      let terminate ← act .isTerminate
      if terminate then .ret ()
      else do
        let task ← act .get
        match task with
        | some task => do
            process task
            run rounds
        | none => run rounds

/-- The `expireTime` of `Exec`. -/
def deadline (timeoutMs : Int) : PoolProg Int :=
  if timeoutMs = 0 then .ret 0
  else do
    let now ← act .now
    return now + timeoutMs

def exec (timeoutMs : Int) : PoolProg Unit := do
  let expireTime ← deadline timeoutMs
  act (.push expireTime)

def waitForAllDone (millsecond : Int) : PoolProg Bool := do
  let before ← act .submitted
  let done ← act (.wait millsecond)
  if done then do
    act (.answer before)
    return true
  else return false

/-- The calls from outside. -/
inductive PoolCall
  | exec (timeoutMs : Int)
  | waitForAllDone (millsecond : Int)

def PoolCall.prog : PoolCall → PoolProg Unit
  | .exec timeoutMs => Pool.exec timeoutMs
  | .waitForAllDone millsecond => do
      let _ ← Pool.waitForAllDone millsecond
      return ()

/-- What a thread does. -/
inductive Role
  | worker (rounds : Nat)
  | caller (calls : List PoolCall)

def Role.prog : Role → PoolProg Unit
  | .worker rounds => run rounds
  | .caller calls => calls.foldr (fun call rest => call.prog >>= fun _ => rest) (.ret ())

/-- A step of thread `i`, at a time, where a timed wait may be over. -/
def PoolRun.step {ι : Type} (time : Int) (timedOut : Bool) (i : ι) :
    (c : PoolCmd) → PoolRun ι → Option (c.Reply × PoolRun ι)
  | .isTerminate, s => some (s.pool.terminate, s)
  | .get, s => (s.pool.get i).map fun out => (out.1, { s with pool := out.2 })
  | .increment, s => some ((), { s with pool := { s.pool with atomic := s.pool.atomic + 1 } })
  | .now, s => some (time, s)
  | .func task, s => some ((), { s with pool := s.pool.finish task })
  | .drop task, s => some ((), { s with pool := s.pool.finish task })
  | .decrement, s => some ((), { s with pool := { s.pool with atomic := s.pool.atomic - 1 } })
  | .notify, s => some (s.pool.idle, s)
  | .push expireTime, s => some ((), { s with pool := s.pool.push expireTime })
  | .submitted, s => some (s.pool.submitted, s)
  | .wait millsecond, s => (s.pool.waitForAllDone millsecond timedOut).map fun done => (done, s)
  | .answer before, s => some ((), { s with answers := s.answers ++ [⟨before, s.pool⟩] })

/-- The threads around one pool. -/
def poolSystem (ι : Type) : System ι PoolCmd PoolCmd.Reply (PoolRun ι) where
  step i c s r s' := ∃ time timedOut, PoolRun.step time timedOut i c s = some (r, s')
  pause _ _ _ _ := False
  fault _ _ := False
  env _ _ := False

theorem poolSystem_quiet {ι : Type} : (poolSystem ι).Quiet :=
  ⟨fun _ _ _ _ => id, fun _ _ => id, fun _ _ => id⟩

abbrev PoolConfig (ι : Type) := Config ι PoolCmd PoolCmd.Reply Unit (PoolRun ι)

/-- A new pool. -/
def startPool {ι : Type} (roles : ι → Role) : PoolConfig ι :=
  ⟨⟨.new, []⟩, fun i => (roles i).prog⟩

/-! ## Where a thread is -/

/-- Between taking a task and the end of it, waiting in a `WaitForAllDone`, and behind a wait
that found no task in the queue. -/
inductive Phase
  | idle
  | holding (id : Nat)
  | waiting (before : Nat)
  | cleared (before : Nat)

/-- The phases that the steps go through. -/
def phases : Sem PoolCmd PoolCmd.Reply Phase where
  step
    | .get, _, some task, q' => q' = .holding task.id
    | .get, _, none, q' => q' = .idle
    | .func _, _, _, q' => q' = .idle
    | .drop _, _, _, q' => q' = .idle
    | .submitted, _, before, q' => q' = .waiting before
    | .wait _, .waiting before, true, q' => q' = .cleared before
    | .wait _, _, _, q' => q' = .idle
    | .answer _, _, _, q' => q' = .idle
    | _, q, _, q' => q' = q
  safe
    | q, .get => q = .idle
    | q, .func task => q = .holding task.id
    | q, .drop task => q = .holding task.id
    | q, .submitted => q = .idle
    | q, .wait _ => ∃ before, q = .waiting before
    | q, .answer before => q = .cleared before
    | _, _ => True

section Phases

theorem wp_act {c : PoolCmd} {Q : c.Reply → Phase → Prop} {q : Phase} :
    wp phases (act c) Q q ↔ phases.safe q c ∧ ∀ r q', phases.step c q r q' → Q r q' := Iff.rfl

/-- Steps that say nothing about the phase. -/
theorem wp_isExpired {task : TaskFunc} {Q : Bool → Phase → Prop} {q : Phase}
    (h : ∀ expired, Q expired q) : wp phases (isExpired task) Q q := by
  unfold isExpired
  split
  · exact h false
  · rw [wp_bind, wp_act]
    refine ⟨trivial, ?_⟩
    rintro now _ rfl
    exact h _

theorem wp_deadline {timeoutMs : Int} {Q : Int → Phase → Prop} {q : Phase}
    (h : ∀ expireTime, Q expireTime q) : wp phases (deadline timeoutMs) Q q := by
  unfold deadline
  split
  · exact h 0
  · rw [wp_bind, wp_act]
    refine ⟨trivial, ?_⟩
    rintro now _ rfl
    exact h _

theorem wp_execute (task : TaskFunc) (expired : Bool) :
    wp phases (execute task expired) (fun _ q => q = .idle) (.holding task.id) := by
  cases expired with
  | true =>
      refine ⟨rfl, ?_⟩
      rintro _ _ rfl
      rfl
  | false =>
      refine ⟨rfl, ?_⟩
      rintro _ _ rfl
      rfl

/-- A round with a task ends it. -/
theorem wp_process (task : TaskFunc) :
    wp phases (process task) (fun _ q => q = .idle) (.holding task.id) := by
  rw [process, wp_bind, wp_act]
  refine ⟨trivial, ?_⟩
  rintro _ _ rfl
  rw [wp_bind]
  refine wp_isExpired fun expired => ?_
  rw [wp_bind]
  refine wp_mono (wp_execute task expired) ?_
  rintro _ _ rfl
  rw [wp_bind, wp_act]
  refine ⟨trivial, ?_⟩
  rintro _ _ rfl
  rw [wp_bind, wp_act]
  refine ⟨trivial, ?_⟩
  rintro _ _ rfl
  rfl

theorem wp_run (rounds : Nat) : wp phases (run rounds) (fun _ q => q = .idle) .idle := by
  induction rounds with
  | zero => rfl
  | succ rounds ih =>
      rw [run, wp_bind, wp_act]
      refine ⟨trivial, ?_⟩
      rintro terminate _ rfl
      cases terminate with
      | true => rfl
      | false =>
          show wp phases (act .get >>= _) _ _
          rw [wp_bind, wp_act]
          refine ⟨rfl, ?_⟩
          rintro (_ | task) _ rfl
          · exact ih
          · show wp phases (process task >>= fun _ => run rounds) _ _
            rw [wp_bind]
            refine wp_mono (wp_process task) ?_
            rintro _ _ rfl
            exact ih

theorem wp_call (call : PoolCall) : wp phases call.prog (fun _ q => q = .idle) .idle := by
  cases call with
  | exec timeoutMs =>
      rw [PoolCall.prog, exec, wp_bind]
      refine wp_deadline fun expireTime => ⟨trivial, ?_⟩
      rintro _ _ rfl
      rfl
  | waitForAllDone millsecond =>
      rw [PoolCall.prog, wp_bind, waitForAllDone, wp_bind, wp_act]
      refine ⟨rfl, ?_⟩
      rintro before _ rfl
      rw [wp_bind, wp_act]
      refine ⟨⟨before, rfl⟩, ?_⟩
      rintro (_ | _) _ rfl
      · rfl
      · refine ⟨rfl, ?_⟩
        rintro _ _ rfl
        rfl

theorem wp_role (role : Role) : wp phases role.prog (fun _ q => q = .idle) .idle := by
  cases role with
  | worker rounds => exact wp_run rounds
  | caller calls =>
      rw [Role.prog]
      induction calls with
      | nil => rfl
      | cons call calls ih =>
          rw [List.foldr_cons, wp_bind]
          refine wp_mono (wp_call call) ?_
          rintro _ _ rfl
          exact ih

end Phases

/-! ## Where a task is -/

/-- The queue and the phases of the threads say where every submitted task is. -/
structure Accounts {ι : Type} (pool : ThreadPool ι) (q : ι → Phase) : Prop where
  nodup : pool.ids.Nodup
  queued : ∀ id, id ∈ pool.ids ↔ id < pool.submitted ∧ pool.place id = .queued
  taken : ∀ i id, q i = .holding id ↔ id < pool.submitted ∧ pool.place id = .taken i
  waiting : ∀ i before, q i = .waiting before → before ≤ pool.submitted
  cleared : ∀ i before, q i = .cleared before →
    before ≤ pool.submitted ∧ ∀ id < before, pool.place id ≠ .queued

namespace Accounts

variable {ι : Type} {pool : ThreadPool ι} {q : ι → Phase} {i : ι}

theorem new : Accounts (.new : ThreadPool ι) fun _ => .idle := by
  constructor <;> simp [ThreadPool.new, ThreadPool.ids]

/-- `atomic_` moves no task. -/
theorem atomic (h : Accounts pool q) (n : Int) : Accounts { pool with atomic := n } q :=
  ⟨h.nodup, h.queued, h.taken, h.waiting, h.cleared⟩

/-- A submitted task is the last one of the queue. -/
theorem push (h : Accounts pool q) (expireTime : Int) : Accounts (pool.push expireTime) q := by
  have hids : (pool.push expireTime).ids = pool.ids ++ [pool.submitted] := by
    simp [ThreadPool.push, ThreadPool.ids]
  have hplace : ∀ id < pool.submitted, (pool.push expireTime).place id = pool.place id :=
    fun id hid => Function.update_of_ne (Nat.ne_of_lt hid) ..
  have hnew : (pool.push expireTime).place pool.submitted = .queued := Function.update_self ..
  have hsubmitted : (pool.push expireTime).submitted = pool.submitted + 1 := rfl
  constructor
  · rw [hids, List.nodup_append]
    refine ⟨h.nodup, List.nodup_singleton _, ?_⟩
    rintro id hid _ hlast rfl
    rw [List.mem_singleton.mp hlast] at hid
    exact Nat.lt_irrefl _ ((h.queued _).mp hid).1
  · intro id
    rw [hids, hsubmitted, List.mem_append, List.mem_singleton, h.queued]
    obtain hlt | rfl | hgt := Nat.lt_trichotomy id pool.submitted
    · rw [hplace id hlt]
      constructor
      · exact fun hid => ⟨Nat.lt_succ_of_lt hlt, (hid.resolve_right (Nat.ne_of_lt hlt)).2⟩
      · exact fun hid => Or.inl ⟨hlt, hid.2⟩
    · simp [hnew]
    · refine iff_of_false ?_ (by omega)
      rintro (hid | rfl)
      · exact absurd hid.1 (by omega)
      · exact Nat.lt_irrefl _ hgt
  · intro j id
    rw [h.taken, hsubmitted]
    obtain hlt | rfl | hgt := Nat.lt_trichotomy id pool.submitted
    · rw [hplace id hlt]
      exact and_congr_left fun _ => by omega
    · simp [hnew]
    · exact iff_of_false (by omega) (by omega)
  · intro j before hj
    exact Nat.le_succ_of_le (h.waiting j before hj)
  · intro j before hj
    obtain ⟨hle, hclear⟩ := h.cleared j before hj
    refine ⟨Nat.le_succ_of_le hle, fun id hid => ?_⟩
    rw [hplace id (by omega)]
    exact hclear id hid

variable [DecidableEq ι]

/-- A thread that has no task enters or leaves a `WaitForAllDone`. -/
theorem phase (h : Accounts pool q) {p : Phase} (hq : ∀ id, q i ≠ .holding id)
    (hp : ∀ id, p ≠ .holding id) (hwaiting : ∀ before, p = .waiting before →
      before ≤ pool.submitted)
    (hcleared : ∀ before, p = .cleared before →
      before ≤ pool.submitted ∧ ∀ id < before, pool.place id ≠ .queued) :
    Accounts pool (Function.update q i p) := by
  refine ⟨h.nodup, h.queued, ?_, ?_, ?_⟩
  · intro j id
    rw [← h.taken]
    exact update_eq_iff (iff_of_false (hp id) (hq id)) j
  · exact (Function.forall_update_iff q fun _ phase => ∀ before, phase = .waiting before →
      before ≤ pool.submitted).mpr ⟨hwaiting, fun j _ => h.waiting j⟩
  · exact (Function.forall_update_iff q fun _ phase => ∀ before, phase = .cleared before →
      before ≤ pool.submitted ∧ ∀ id < before, pool.place id ≠ .queued).mpr
        ⟨hcleared, fun j _ => h.cleared j⟩

/-- One task leaves the queue, or the thread that had it; only thread `i` can have it then. -/
theorem move (h : Accounts pool q) {id₀ : Nat} {tasks : List TaskFunc} {dest : Place ι}
    {p : Phase} (hid : id₀ < pool.submitted) (hnodup : (tasks.map TaskFunc.id).Nodup)
    (hids : ∀ id, id ∈ tasks.map TaskFunc.id ↔ id ∈ pool.ids ∧ id ≠ id₀)
    (hfrom : ∀ j, pool.place id₀ = .taken j → j = i) (hheld : ∀ id, q i = .holding id → id = id₀)
    (hqueued : dest ≠ .queued) (hdest : ∀ j, dest = .taken j → j = i)
    (hp : ∀ id, p = .holding id ↔ id = id₀ ∧ dest = .taken i)
    (hwaiting : ∀ before, p ≠ .waiting before) (hcleared : ∀ before, p ≠ .cleared before) :
    Accounts { pool with tasks := tasks, place := Function.update pool.place id₀ dest }
      (Function.update q i p) := by
  have hplace : ∀ id, id ≠ id₀ → Function.update pool.place id₀ dest id = pool.place id :=
    fun id hne => Function.update_of_ne hne ..
  -- both accounts are about `id₀` and about all the other tasks, which stay where they are
  constructor
  · exact hnodup
  · intro id
    show id ∈ tasks.map TaskFunc.id ↔ _ ∧ Function.update pool.place id₀ dest id = _
    rw [hids, h.queued]
    by_cases hne : id = id₀
    · subst hne
      rw [Function.update_self]
      exact iff_of_false (fun hmem => hmem.2 rfl) fun hmem => hqueued hmem.2
    · rw [hplace id hne]
      exact and_iff_left hne
  · intro j id
    show _ ↔ _ ∧ Function.update pool.place id₀ dest id = _
    by_cases hj : j = i
    · subst hj
      rw [Function.update_self, hp]
      by_cases hne : id = id₀
      · subst hne
        rw [Function.update_self]
        exact and_congr_left fun _ => iff_of_true rfl hid
      · rw [hplace id hne, ← h.taken]
        exact iff_of_false (fun heq => hne heq.1) fun hhold => hne (hheld id hhold)
    · rw [Function.update_of_ne hj, h.taken]
      by_cases hne : id = id₀
      · subst hne
        rw [Function.update_self]
        exact iff_of_false (fun hin => hj (hfrom j hin.2)) fun hin => hj (hdest j hin.2)
      · rw [hplace id hne]
  · exact (Function.forall_update_iff q fun _ phase => ∀ before, phase = .waiting before →
      before ≤ pool.submitted).mpr
        ⟨fun before heq => absurd heq (hwaiting before), fun j _ => h.waiting j⟩
  · refine (Function.forall_update_iff q fun _ phase => ∀ before, phase = .cleared before →
      before ≤ pool.submitted ∧ ∀ id < before,
        Function.update pool.place id₀ dest id ≠ .queued).mpr ⟨fun before heq =>
          absurd heq (hcleared before), fun j _ before hj => ?_⟩
    obtain ⟨hle, hclear⟩ := h.cleared j before hj
    refine ⟨hle, fun id hlt => ?_⟩
    -- no task enters the queue again
    by_cases hne : id = id₀
    · rw [hne, Function.update_self]
      exact hqueued
    · rw [hplace id hne]
      exact hclear id hlt

/-- `Get` moves the first task from the queue to its thread. -/
theorem get (h : Accounts pool q) {task : TaskFunc} {rest : List TaskFunc}
    (htasks : pool.tasks = task :: rest) (hq : q i = .idle) :
    Accounts { pool with
        tasks := rest
        place := Function.update pool.place task.id (.taken i) }
      (Function.update q i (.holding task.id)) := by
  have hids : pool.ids = task.id :: rest.map TaskFunc.id := by
    rw [ThreadPool.ids, htasks, List.map_cons]
  have hnodup := h.nodup
  rw [hids, List.nodup_cons] at hnodup
  have hfirst : task.id < pool.submitted ∧ pool.place task.id = .queued := by
    rw [← h.queued, hids]
    exact List.mem_cons_self
  refine h.move hfirst.1 hnodup.2 ?_ ?_ ?_ nofun ?_ ?_ nofun nofun
  · intro id
    rw [hids, List.mem_cons]
    constructor
    · intro hmem
      refine ⟨Or.inr hmem, ?_⟩
      rintro rfl
      exact hnodup.1 hmem
    · rintro ⟨rfl | hmem, hne⟩
      · exact absurd rfl hne
      · exact hmem
  · intro j hj
    rw [hfirst.2] at hj
    cases hj
  · intro id hid
    rw [hq] at hid
    cases hid
  · exact fun j hj => (Place.taken.inj hj).symm
  · intro id
    rw [Phase.holding.injEq, eq_comm]
    exact (and_iff_left rfl).symm

/-- At the end of a task its thread has none. -/
theorem finish (h : Accounts pool q) {task : TaskFunc} (hq : q i = .holding task.id) :
    Accounts (pool.finish task) (Function.update q i .idle) := by
  obtain ⟨hid, hplace⟩ := (h.taken i task.id).mp hq
  refine h.move hid h.nodup ?_ ?_ ?_ nofun nofun ?_ nofun nofun
  · intro id
    refine (and_iff_left_of_imp fun hmem => ?_).symm
    rintro rfl
    have hqueued := ((h.queued _).mp hmem).2
    rw [hplace] at hqueued
    cases hqueued
  · intro j hj
    rw [hplace] at hj
    exact (Place.taken.inj hj).symm
  · intro id hheld
    rw [hq] at hheld
    exact (Phase.holding.inj hheld).symm
  · exact fun id => iff_of_false nofun fun hdest => nomatch hdest.2

end Accounts

/-! ## All steps -/

variable {ι : Type} [DecidableEq ι]

/-- The pool is accounted for, and at the answers no earlier task was in the queue. -/
structure PoolRun.Sound (s : PoolRun ι) (q : ι → Phase) : Prop where
  accounts : Accounts s.pool q
  answers : ∀ a ∈ s.answers, ∀ id < a.before, a.pool.place id ≠ .queued

namespace PoolRun.Sound

variable {s s' : PoolRun ι} {q : ι → Phase} {i : ι} {time : Int} {timedOut : Bool}

/-- The thread keeps its phase. -/
theorem stay (h : s.Sound q) {p : Phase} (hp : p = q i) : s.Sound (Function.update q i p) := by
  rwa [hp, Function.update_eq_self]

/-- Another state of the pool, with every thread in its phase. -/
theorem setPool (h : s.Sound q) {pool : ThreadPool ι} (hpool : Accounts pool q) :
    PoolRun.Sound { s with pool := pool } (Function.update q i (q i)) := by
  rw [Function.update_eq_self]
  exact ⟨hpool, h.answers⟩

theorem get (h : s.Sound q) {r : Option TaskFunc} (hq : q i = .idle)
    (hstep : PoolRun.step time timedOut i .get s = some (r, s')) :
    ∃ q', phases.step .get (q i) r q' ∧ s'.Sound (Function.update q i q') := by
  obtain ⟨⟨task?, pool⟩, hget, hout⟩ := Option.map_eq_some_iff.mp hstep
  cases hout
  rw [ThreadPool.get] at hget
  cases htasks : s.pool.tasks with
  | nil =>
      simp only [htasks] at hget
      split at hget
      · cases hget
        exact ⟨_, rfl, h.stay hq.symm⟩
      · cases hget
  | cons task rest =>
      simp only [htasks] at hget
      split at hget
      · cases hget
        exact ⟨_, rfl, h.stay hq.symm⟩
      · cases hget
        exact ⟨_, rfl, h.accounts.get htasks hq, h.answers⟩

/-- A wait that is over found no task in the queue. -/
theorem wait (h : s.Sound q) {millsecond : Int} {done : Bool} {before : Nat}
    (hq : q i = .waiting before)
    (hstep : PoolRun.step time timedOut i (.wait millsecond) s = some (done, s')) :
    ∃ q', phases.step (.wait millsecond) (q i) done q' ∧ s'.Sound (Function.update q i q') := by
  obtain ⟨done', hwait, hout⟩ := Option.map_eq_some_iff.mp hstep
  cases hout
  have hnone : ∀ id, q i ≠ .holding id := by
    intro id
    rw [hq]
    exact nofun
  rw [hq]
  cases done with
  | false => exact ⟨.idle, rfl, h.accounts.phase hnone nofun nofun nofun, h.answers⟩
  | true =>
      have hempty : s.pool.tasks = [] := by
        rw [ThreadPool.waitForAllDone] at hwait
        by_cases hnil : s.pool.tasks.isEmpty
        · exact List.isEmpty_iff.mp hnil
        · rw [if_neg hnil] at hwait
          split at hwait <;> cases hwait
      refine ⟨.cleared before, rfl, h.accounts.phase hnone nofun nofun ?_, h.answers⟩
      intro before' heq
      cases heq
      -- a task that is queued is in `tasks_`, and that is empty
      have hle := h.accounts.waiting i before hq
      refine ⟨hle, fun id hid hqueued => ?_⟩
      have hmem := (h.accounts.queued id).mpr ⟨by omega, hqueued⟩
      rw [ThreadPool.ids, hempty] at hmem
      cases hmem

end PoolRun.Sound

/-- Every step of every thread keeps the account. -/
theorem poolSystem_keeps (i : ι) (c : PoolCmd) (s : PoolRun ι) (r : c.Reply) (s' : PoolRun ι)
    (q : ι → Phase) (h : s.Sound q) (hsafe : phases.safe (q i) c)
    (hstep : (poolSystem ι).step i c s r s') :
    ∃ q', phases.step c (q i) r q' ∧ s'.Sound (Function.update q i q') := by
  obtain ⟨time, timedOut, hstep⟩ := hstep
  cases c with
  | get => exact h.get hsafe hstep
  | wait millsecond =>
      obtain ⟨before, hq⟩ := hsafe
      exact h.wait hq hstep
  | func task =>
      cases hstep
      exact ⟨_, rfl, h.accounts.finish hsafe, h.answers⟩
  | drop task =>
      cases hstep
      exact ⟨_, rfl, h.accounts.finish hsafe, h.answers⟩
  | push expireTime =>
      cases hstep
      exact ⟨_, rfl, h.setPool (h.accounts.push expireTime)⟩
  | increment =>
      cases hstep
      exact ⟨_, rfl, h.setPool (h.accounts.atomic _)⟩
  | decrement =>
      cases hstep
      exact ⟨_, rfl, h.setPool (h.accounts.atomic _)⟩
  | isTerminate =>
      cases hstep
      exact ⟨_, rfl, h.stay rfl⟩
  | now =>
      cases hstep
      exact ⟨_, rfl, h.stay rfl⟩
  | notify =>
      cases hstep
      exact ⟨_, rfl, h.stay rfl⟩
  | submitted =>
      cases hstep
      have hnone : ∀ id, q i ≠ .holding id := by
        intro id
        rw [show q i = .idle from hsafe]
        exact nofun
      refine ⟨_, rfl, h.accounts.phase hnone nofun ?_ nofun, h.answers⟩
      intro before heq
      cases heq
      exact Nat.le_refl _
  | answer before =>
      cases hstep
      have hq : q i = .cleared before := hsafe
      have hnone : ∀ id, q i ≠ .holding id := by
        intro id
        rw [hq]
        exact nofun
      refine ⟨_, rfl, h.accounts.phase hnone nofun nofun nofun, ?_⟩
      intro a ha
      obtain hmem | hlast := List.mem_append.mp ha
      · exact h.answers a hmem
      · obtain rfl := List.mem_singleton.mp hlast
        exact (h.accounts.cleared i before hq).2

/-- So it is kept in every run. -/
theorem reachable_sound {roles : ι → Role} {cfg : PoolConfig ι}
    (h : Reachable (poolSystem ι) (startPool roles) cfg) : ∃ q, cfg.shared.Sound q := by
  have hinit : Simulates (fun _ => phases) PoolRun.Sound (fun _ _ q => q = Phase.idle)
      (startPool roles) fun _ => .idle :=
    ⟨⟨.new, fun _ ha => nomatch ha⟩, fun i => wp_role (roles i)⟩
  obtain ⟨q, hsound, _⟩ := quiet_simulates poolSystem_quiet poolSystem_keeps hinit h
  exact ⟨q, hsound⟩

/-! ## The answers -/

/-- Every task that was submitted before the call has been executed or dropped. -/
def Answer.AllDone {ι : Type} (a : Answer ι) : Prop := ∀ id < a.before, a.pool.place id = .ended

/-- No thread has such a task in hands, between `Get` and the end of the task. -/
def Answer.NoneTaken {ι : Type} (a : Answer ι) : Prop :=
  ∀ id < a.before, ∀ i, a.pool.place id ≠ .taken i

/-- `WaitForAllDone` tells the truth in the runs in which it never returns while a worker is at
an earlier task. -/
theorem allDone_iff {roles : ι → Role} {cfg : PoolConfig ι}
    (h : Reachable (poolSystem ι) (startPool roles) cfg) :
    (∀ a ∈ cfg.shared.answers, a.AllDone) ↔ ∀ a ∈ cfg.shared.answers, a.NoneTaken := by
  obtain ⟨q, hsound⟩ := reachable_sound h
  refine forall₂_congr fun a ha => ?_
  constructor
  · intro hdone id hid i htaken
    rw [hdone id hid] at htaken
    cases htaken
  · intro hnone id hid
    -- a task is in one of three places, and the invariant excludes the queue
    cases hplace : a.pool.place id with
    | queued => exact absurd hplace (hsound.answers a ha id hid)
    | taken i => exact absurd hplace (hnone id hid i)
    | ended => rfl

/-- One worker, and a thread that submits a task and waits for it. -/
def twoRoles : Bool → Role
  | true => .worker 1
  | false => .caller [.exec 0, .waitForAllDone (-1)]

/-- The steps of a run in which no time passes and no wait times out. -/
theorem step_of_untimed {i : Bool} {c : PoolCmd} {s s' : PoolRun Bool} {r : c.Reply}
    (h : PoolRun.step 0 false i c s = some (r, s')) : (poolSystem Bool).step i c s r s' :=
  ⟨0, false, h⟩

/-- The worker is done before the call. -/
theorem allDone_iff_finished :
    ∃ cfg, schedule (PoolRun.step 0 false) [false, true, true, true, true, false, false, false]
        (startPool twoRoles) = some cfg ∧ cfg.shared.answers ≠ [] ∧
      ((∀ a ∈ cfg.shared.answers, a.AllDone) ↔ ∀ a ∈ cfg.shared.answers, a.NoneTaken) := by
  have hrun : (schedule (PoolRun.step 0 false) [false, true, true, true, true, false, false, false]
      (startPool twoRoles)).map (fun cfg => cfg.shared.answers.length) = some 1 := by
    decide +kernel
  obtain ⟨cfg, hcfg, hanswers⟩ := Option.map_eq_some_iff.mp hrun
  refine ⟨cfg, hcfg, ?_, allDone_iff (reachable_of_schedule (fun _ _ _ _ _ => step_of_untimed)
    .refl hcfg)⟩
  exact List.ne_nil_of_length_eq_add_one hanswers

/-- A worker has taken the only task and has not counted it yet: the call returns true. -/
theorem not_allDone_taken :
    ∃ cfg, Reachable (poolSystem Bool) (startPool twoRoles) cfg ∧
      ∃ a ∈ cfg.shared.answers, ¬ a.AllDone ∧ a.pool.place 0 = .taken true ∧
        a.pool.idle = true := by
  have hrun : (schedule (PoolRun.step 0 false) [false, true, true, false, false, false]
      (startPool twoRoles)).map (fun cfg => cfg.shared.answers.map fun a =>
        (a.before, a.pool.place 0, a.pool.idle)) = some [(1, .taken true, true)] := by
    decide +kernel
  obtain ⟨cfg, hcfg, hanswers⟩ := Option.map_eq_some_iff.mp hrun
  refine ⟨cfg, reachable_of_schedule (fun _ _ _ _ _ => step_of_untimed) .refl hcfg, ?_⟩
  obtain ⟨a, ha, hout⟩ := List.mem_map.mp (hanswers ▸ List.mem_cons_self)
  obtain ⟨hbefore, hplace, hidle⟩ : a.before = 1 ∧ a.pool.place 0 = .taken true ∧
      a.pool.idle = true := by
    simpa using hout
  refine ⟨a, ha, fun hdone => ?_, hplace, hidle⟩
  have hended := hdone 0 (by omega)
  rw [hplace] at hended
  cases hended

end Pool
end TcMuzi
