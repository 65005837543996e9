import TcMuzi.Files.ShareMirror
import TcMuzi.Server.Interleaved

/-!
# Concurrent shares of the same files

Any number of `handleShareFile` calls interleave their commands, all of which succeed.  Each
asks Redis and then MySQL whether the file is shared, and stores it some commands later.

* `SharePhase` is what a call has found out or done.
* `Shares` is the invariant: a file is shared when it was at the start or when exactly one
  call has stored it.
* `Uncontested` is the condition under which a command keeps it.
-/

namespace TcMuzi
namespace Files

open Base Server Redis Api Mysql Lib

/-! ## One call -/

structure ShareCall where
  user : CString
  md5 : CString
  fileName : CString

def ShareCall.key (call : ShareCall) : CString × CString := (call.md5, call.fileName)

def ShareCall.prog (call : ShareCall) : Handler Int :=
  handleShareFile call.user call.md5 call.fileName

inductive SharePhase
  -- nothing has said that the file is shared
  | asking
  -- Redis or MySQL has
  | had
  -- the call has stored its row
  | stored

def shareStep : (c : Server.Command) → SharePhase → c.Reply → SharePhase → Prop
  | .redis (.zscore _ _), q, r, q' =>
      (r = .reply .nil ∧ q' = q) ∨ ((∃ s, r = .reply (.string s)) ∧ q' = .had)
  | .redis _, q, r, q' => (∃ reply, r = .reply reply) ∧ q' = q
  | .query (.shareFile _ _), q, r, q' =>
      (r = some [] ∧ q' = q) ∨ ((∃ row rows, r = some (row :: rows)) ∧ q' = .had)
  | .update (.insertShareFile _), _, r, q' => (∃ n, r = some n) ∧ q' = .stored
  | .update _, q, r, q' => (∃ n, r = some n) ∧ q' = q
  | _, q, _, q' => q' = q

def shareMay (call : ShareCall) : SharePhase → Server.Command → Prop
  | q, .redis (.zscore key member) =>
      q = .asking ∧ key = filePublicZset ∧ member = fileidOf call.md5 call.fileName
  | _, .redis _ => True
  | q, .query (.shareFile md5 fileName) => q = .asking ∧ (md5, fileName) = call.key
  | q, .update (.insertShareFile row) => q = .asking ∧ row.key = call.key
  | _, .update (.setSharedStatus ..) => True
  | _, .getDBConn _ => True
  | _, .relDBConn _ => True
  | _, .getCacheConn => True
  | _, .relCacheConn => True
  | _, .sys _ => True
  | _, _ => False

def sharePhases (call : ShareCall) : Sem Server.Command Command.Reply SharePhase where
  step := shareStep
  safe := shareMay call

section Call

variable {call : ShareCall}

/-- What an answer says about the phase. -/
def Answers (code : Int) (q : SharePhase) : Prop :=
  (code = shareOk ∧ q = .stored) ∨ (code = shareHad ∧ q = .had)

/-- The records of Redis do not matter to the phase, as long as there is a connection. -/
theorem wp_share_addRecords {cacheConn : Ptr} {code : Int} {q : SharePhase} (h : Answers code q) :
    wp (sharePhases call) (do
      let _ ← CacheConn.zsetAdd cacheConn filePublicZset 0 (fileidOf call.md5 call.fileName)
      let _ ← CacheConn.hset cacheConn fileNameHash (fileidOf call.md5 call.fileName) call.fileName
      return code) Answers q := by
  cases cacheConn with
  | null => trivial
  | conn =>
      refine ⟨trivial, ?_⟩
      rintro _ q ⟨⟨added, rfl⟩, rfl⟩
      have hhset : wp (sharePhases call) (do
          let _ ← CacheConn.hset .conn fileNameHash (fileidOf call.md5 call.fileName) call.fileName
          return code) Answers q := by
        refine ⟨trivial, ?_⟩
        rintro _ _ ⟨⟨set, rfl⟩, rfl⟩
        exact h
      cases added with
      | integer n => exact hhset
      | _ => exact hhset

theorem wp_share_storeShare (dbConn cacheConn : Ptr) :
    wp (sharePhases call) (storeShare dbConn cacheConn call.user call.md5 call.fileName)
      Answers .asking := by
  cases dbConn with
  | null => trivial
  | conn =>
      refine ⟨trivial, ?_⟩
      rintro _ _ ⟨⟨n, rfl⟩, rfl⟩
      show wp _ (if (decide (0 < n) || !false) = true then _ else _) _ _
      rw [Bool.not_false, Bool.or_true, if_pos rfl]
      refine ⟨trivial, ?_⟩
      rintro createTime _ rfl
      refine ⟨⟨rfl, rfl⟩, ?_⟩
      rintro _ _ ⟨⟨m, rfl⟩, rfl⟩
      cases cacheConn with
      | null => trivial
      | conn =>
          refine ⟨trivial, ?_⟩
          rintro _ _ ⟨⟨reply, rfl⟩, rfl⟩
          exact wp_share_addRecords (Or.inl ⟨rfl, rfl⟩)

theorem wp_share_shareIfNew (dbConn cacheConn : Ptr) :
    wp (sharePhases call) (shareIfNew dbConn cacheConn call.user call.md5 call.fileName)
      Answers .asking := by
  cases dbConn with
  | null => trivial
  | conn =>
      refine ⟨⟨rfl, rfl⟩, ?_⟩
      rintro _ _ (⟨rfl, rfl⟩ | ⟨⟨row, rows, rfl⟩, rfl⟩)
      · exact wp_share_storeShare .conn cacheConn
      · exact wp_share_addRecords (Or.inr ⟨rfl, rfl⟩)

/-- A call answers `ShareOk` when it has stored its row and `ShareHad` when it was told that
there is one, and nothing else. -/
theorem wp_share_prog : wp (sharePhases call) call.prog Answers .asking := by
  have hidle : ∀ c, (∀ q, shareMay call q c) → (∀ q r q', shareStep c q r q' → q' = q) →
      (sharePhases call).Idle c := fun c hmay hstep q => ⟨hmay q, hstep q⟩
  refine wp_withDBConn_of_idle (hidle _ (fun _ => trivial) fun _ _ _ h => h)
    (hidle _ (fun _ => trivial) fun _ _ _ h => h) fun dbConn => ?_
  refine wp_withCacheConn_of_idle (hidle _ (fun _ => trivial) fun _ _ _ h => h)
    (hidle _ (fun _ => trivial) fun _ _ _ h => h) fun cacheConn => ?_
  cases cacheConn with
  | null => exact wp_share_shareIfNew dbConn .null
  | conn =>
      refine ⟨⟨rfl, rfl, rfl⟩, ?_⟩
      rintro _ _ (⟨rfl, rfl⟩ | ⟨⟨s, rfl⟩, rfl⟩)
      · exact wp_share_shareIfNew dbConn .conn
      · exact Or.inr ⟨rfl, rfl⟩

end Call

/-! ## The invariant -/

/-- What a command of a call relies on: a row is inserted where there is none for the file,
and a member that Redis finds is that of a shared file. -/
def Uncontested (call : ShareCall) : Server.Command → World → Prop
  | .update (.insertShareFile row), w => ¬ Shared w.db row.md5 row.fileName
  | .redis (.zscore _ member), w =>
      (scoreOf w member).isSome → Shared w.db call.md5 call.fileName
  | _, _ => True

/-- The files that are shared: those of the start and those that a call has stored, each by
one call. -/
structure Shares {ι : Type} (calls : ι → ShareCall) (t₀ : Tables) (w : World) (q : ι → SharePhase) :
    Prop where
  unique : UniqueShares w.db
  shared : ∀ md5 fileName, Shared w.db md5 fileName ↔
    Shared t₀ md5 fileName ∨ ∃ i, (calls i).key = (md5, fileName) ∧ q i = .stored
  had : ∀ i, q i = .had → Shared w.db (calls i).md5 (calls i).fileName
  fresh : ∀ i, q i = .stored → ¬ Shared t₀ (calls i).md5 (calls i).fileName
  once : ∀ i j, q i = .stored → q j = .stored → (calls i).key = (calls j).key → i = j

section Invariant

variable {ι : Type} [DecidableEq ι] {calls : ι → ShareCall} {t₀ : Tables} {w w' : World}
  {q : ι → SharePhase} {i : ι}

omit [DecidableEq ι] in
/-- A command that leaves the share list alone. -/
theorem Shares.of_same (h : Shares calls t₀ w q)
    (hrows : w'.db.shareFileList = w.db.shareFileList) : Shares calls t₀ w' q := by
  have hshared : ∀ md5 fileName, Shared w'.db md5 fileName ↔ Shared w.db md5 fileName := by
    intro md5 fileName
    rw [Shared, Shared, hrows]
  refine ⟨?_, fun md5 fileName => ?_, fun i hi => ?_, h.fresh, h.once⟩
  · rw [UniqueShares, hrows]
    exact h.unique
  · rw [hshared]
    exact h.shared md5 fileName
  · rw [hshared]
    exact h.had i hi

/-- A call is told that its file is shared. -/
theorem Shares.told (h : Shares calls t₀ w q) (hq : q i = .asking)
    (hshared : Shared w.db (calls i).md5 (calls i).fileName) :
    Shares calls t₀ w (Function.update q i .had) := by
  have hstored : ∀ j, Function.update q i .had j = .stored ↔ q j = .stored :=
    update_eq_iff (by simp [hq])
  refine ⟨h.unique, fun md5 fileName => ?_, fun j hj => ?_, fun j hj => ?_, fun j k hj hk => ?_⟩
  · simp only [hstored]
    exact h.shared md5 fileName
  · by_cases hji : j = i
    · rw [hji]
      exact hshared
    · rw [Function.update_of_ne hji] at hj
      exact h.had j hj
  · exact h.fresh j ((hstored j).mp hj)
  · exact h.once j k ((hstored j).mp hj) ((hstored k).mp hk)

/-- A call stores its file, which nobody has shared. -/
theorem Shares.store (h : Shares calls t₀ w q) {row : ShareFile} (hkey : row.key = (calls i).key)
    (hnew : ¬ Shared w.db row.md5 row.fileName)
    (hrows : w'.db.shareFileList = Table.insertRow row w.db.shareFileList) :
    Shares calls t₀ w' (Function.update q i .stored) := by
  have hnew' : ¬ Shared w.db (calls i).md5 (calls i).fileName := by
    obtain ⟨hmd5, hname⟩ := Prod.mk.inj hkey
    rwa [← hmd5, ← hname]
  have hold : ∀ md5 fileName, Shared w'.db md5 fileName ↔
      Shared w.db md5 fileName ∨ (calls i).key = (md5, fileName) := by
    intro md5 fileName
    rw [Shared, Shared, hrows, Table.insertRow, List.map_append, List.mem_append, ← hkey]
    simp [eq_comm]
  -- no other call has stored the file
  have hfirst : ∀ j, q j = .stored → (calls j).key ≠ (calls i).key := by
    intro j hj hsame
    exact hnew' ((h.shared _ _).mpr (Or.inr ⟨j, hsame, hj⟩))
  refine ⟨?_, fun md5 fileName => ?_, fun j hj => ?_, fun j hj => ?_, fun j k hj hk hsame => ?_⟩
  · rw [UniqueShares, hrows]
    exact Table.nodup_insertRow ShareFile.key h.unique hnew
  · rw [hold, h.shared]
    constructor
    · rintro ((hstart | ⟨j, hjkey, hj⟩) | hi)
      · exact Or.inl hstart
      · refine Or.inr ⟨j, hjkey, ?_⟩
        by_cases hji : j = i
        · rw [hji, Function.update_self]
        · rw [Function.update_of_ne hji, hj]
      · exact Or.inr ⟨i, hi, Function.update_self ..⟩
    · rintro (hstart | ⟨j, hjkey, hj⟩)
      · exact Or.inl (Or.inl hstart)
      · by_cases hji : j = i
        · exact Or.inr (hji ▸ hjkey)
        · rw [Function.update_of_ne hji] at hj
          exact Or.inl (Or.inr ⟨j, hjkey, hj⟩)
  · by_cases hji : j = i
    · rw [hji, Function.update_self] at hj
      cases hj
    · rw [Function.update_of_ne hji] at hj
      exact (hold ..).mpr (Or.inl (h.had j hj))
  · by_cases hji : j = i
    · rw [hji]
      exact fun hstart => hnew' ((h.shared _ _).mpr (Or.inl hstart))
    · rw [Function.update_of_ne hji] at hj
      exact h.fresh j hj
  · -- two calls that stored the same file are one, also when one of them stores it now
    by_cases hji : j = i
    · by_cases hki : k = i
      · exact hji.trans hki.symm
      · rw [Function.update_of_ne hki] at hk
        exact absurd (hsame.symm.trans (by rw [hji])) (hfirst k hk)
    · rw [Function.update_of_ne hji] at hj
      by_cases hki : k = i
      · exact absurd (hsame.trans (by rw [hki])) (hfirst j hj)
      · rw [Function.update_of_ne hki] at hk
        exact h.once j k hj hk hsame

theorem Shares.step (h : Shares calls t₀ w q) {c : Server.Command} {r : c.Reply}
    (hmay : shareMay (calls i) (q i) c) (hcond : Uncontested (calls i) c w)
    (hstep : okStep c w r w') :
    ∃ q', shareStep c (q i) r q' ∧ Shares calls t₀ w' (Function.update q i q') := by
  have hsame : w'.db.shareFileList = w.db.shareFileList →
      Shares calls t₀ w' (Function.update q i (q i)) := by
    intro hrows
    rw [Function.update_eq_self]
    exact h.of_same hrows
  cases c with
  | redis c =>
      have hdb : w'.db = w.db := by
        obtain ⟨_, _, rfl⟩ := hstep
        rfl
      cases c with
      | zscore key member =>
          -- a member that is there tells the call that the file is shared
          obtain ⟨hq, rfl, rfl⟩ := hmay
          obtain ⟨rfl, ⟨rfl, _⟩ | ⟨score, rfl, hsome⟩⟩ := zscore_cases hstep
          · exact ⟨q i, Or.inl ⟨rfl, rfl⟩, hsame rfl⟩
          · exact ⟨.had, Or.inr ⟨⟨score, rfl⟩, rfl⟩, h.told hq (hcond hsome)⟩
      | _ => exact ⟨q i, ⟨⟨_, hstep.2.1⟩, rfl⟩, hsame (by rw [hdb])⟩
  | query query =>
      cases query with
      | shareFile md5 fileName =>
          obtain ⟨hq, hkey⟩ := hmay
          obtain ⟨rows, hrows, rfl, rfl⟩ := hstep
          have hfound : w'.db.shareFileList.filter (isShareFile md5 fileName) = rows :=
            Option.some.inj hrows
          cases rows with
          | nil => exact ⟨q i, Or.inl ⟨rfl, rfl⟩, hsame rfl⟩
          | cons row rows =>
              -- and so does its row
              refine ⟨.had, Or.inr ⟨⟨row, rows, rfl⟩, rfl⟩, h.told hq ?_⟩
              obtain ⟨hmd5, hname⟩ := Prod.mk.inj hkey
              have hmem : row ∈ w'.db.shareFileList.filter (isShareFile md5 fileName) := by
                simp [hfound]
              obtain ⟨hrow, hfile⟩ := List.mem_filter.mp hmem
              rw [← hmd5, ← hname]
              exact (shared_iff ..).mpr ⟨row, hrow, hfile⟩
      | _ => exact absurd hmay id
  | update u =>
      cases u with
      | insertShareFile row =>
          obtain ⟨n, t, hexec, rfl, rfl⟩ := hstep
          cases hexec
          exact ⟨.stored, ⟨⟨_, rfl⟩, rfl⟩, h.store hmay.2 hcond rfl⟩
      | setSharedStatus user md5 fileName status =>
          obtain ⟨n, t, hexec, rfl, rfl⟩ := hstep
          cases hexec
          exact ⟨q i, ⟨⟨_, rfl⟩, rfl⟩, hsame rfl⟩
      | _ => exact absurd hmay id
  | getDBConn pool => obtain rfl : w' = w := hstep; exact ⟨q i, rfl, hsame rfl⟩
  | relDBConn pool => obtain rfl : w' = w := hstep; exact ⟨q i, rfl, hsame rfl⟩
  | getCacheConn => obtain rfl : w' = w := hstep; exact ⟨q i, rfl, hsame rfl⟩
  | relCacheConn => obtain rfl : w' = w := hstep; exact ⟨q i, rfl, hsame rfl⟩
  | sys c => obtain rfl : w' = w := hstep; exact ⟨q i, rfl, hsame rfl⟩
  | _ => exact absurd hmay id

end Invariant

/-! ## All interleavings -/

section Interleavings

variable {ι : Type} [DecidableEq ι]

/-- The commands of the calls in any order, where each meets the condition. -/
def ShareReachable (calls : ι → ShareCall) (cond : ι → Server.Command → World → Prop)
    (t₀ : Tables) (cfg : OkConfig ι Int) : Prop :=
  ∃ init, (∀ i, init.prog i = (calls i).prog) ∧ init.shared.db = t₀ ∧ UniqueShares t₀ ∧
    Reachable (okSystem cond) init cfg

/-- The share list stays unique; once the calls for a file that was not shared have completed,
one of them has answered `ShareOk` and the others `ShareHad`. -/
structure SharedOnce (calls : ι → ShareCall) (t₀ : Tables) (cfg : OkConfig ι Int) : Prop where
  unique : UniqueShares cfg.shared.db
  once : ∀ i, ¬ Shared t₀ (calls i).md5 (calls i).fileName →
    (∀ j, (calls j).key = (calls i).key → cfg.Completed j) →
    ∃ j, (calls j).key = (calls i).key ∧ cfg.prog j = .ret shareOk ∧
      ∀ k, (calls k).key = (calls i).key → k ≠ j → cfg.prog k = .ret shareHad

omit [DecidableEq ι] in
theorem shareStart_simulates {calls : ι → ShareCall} {cfg : OkConfig ι Int}
    (hprog : ∀ i, cfg.prog i = (calls i).prog) (hunique : UniqueShares cfg.shared.db) :
    Simulates (fun i => sharePhases (calls i)) (Shares calls cfg.shared.db)
      (fun _ => Answers) cfg fun _ => .asking := by
  refine ⟨⟨hunique, ?_, ?_, ?_, ?_⟩, fun i => ?_⟩
  · simp
  · simp
  · simp
  · simp
  · rw [hprog i]
    exact wp_share_prog

/-- In every interleaving in which each command is uncontested, every file is shared once. -/
theorem shareReachable_once (calls : ι → ShareCall) (t₀ : Tables) (cfg : OkConfig ι Int)
    (h : ShareReachable calls (fun i => Uncontested (calls i)) t₀ cfg) :
    SharedOnce calls t₀ cfg := by
  obtain ⟨init, hprog, rfl, hunique, hreach⟩ := h
  obtain ⟨q, hsim⟩ := okReachable_simulates
    (fun i c w r w' q hq hmay hcond hstep => Shares.step hq hmay hcond hstep)
    (shareStart_simulates hprog hunique) hreach
  have hinv : Shares calls init.shared.db cfg.shared q := hsim.1
  refine ⟨hinv.unique, fun i hnew hdone => ?_⟩
  have hanswer : ∀ j, (calls j).key = (calls i).key →
      (cfg.prog j = .ret shareOk ∧ q j = .stored) ∨ (cfg.prog j = .ret shareHad ∧ q j = .had) := by
    intro j hj
    obtain ⟨code, hcode⟩ := hdone j hj
    rcases hsim.post_of_ret hcode with ⟨rfl, hq⟩ | ⟨rfl, hq⟩
    · exact Or.inl ⟨hcode, hq⟩
    · exact Or.inr ⟨hcode, hq⟩
  -- the file is shared now, so a call has stored it
  have hstored : ∃ j, (calls j).key = (calls i).key ∧ q j = .stored := by
    rcases hanswer i rfl with ⟨_, hq⟩ | ⟨_, hq⟩
    · exact ⟨i, rfl, hq⟩
    · rcases (hinv.shared _ _).mp (hinv.had i hq) with hstart | hcall
      · exact absurd hstart hnew
      · exact hcall
  obtain ⟨j, hjkey, hj⟩ := hstored
  refine ⟨j, hjkey, ?_, fun k hkkey hkj => ?_⟩
  · rcases hanswer j hjkey with ⟨hret, _⟩ | ⟨_, hq⟩
    · exact hret
    · rw [hj] at hq
      cases hq
  · rcases hanswer k hkkey with ⟨_, hq⟩ | ⟨hret, _⟩
    · exact absurd (hinv.once k j hq hj (hkkey.trans hjkey.symm)) hkj
    · exact hret

end Interleavings

/-! ## Two sharers -/

/-- `Uncontested` as a test. -/
def uncontested (call : ShareCall) : Server.Command → World → Bool
  | .update (.insertShareFile row), w => !decide (Shared w.db row.md5 row.fileName)
  | .redis (.zscore _ member), w =>
      !(scoreOf w member).isSome || decide (Shared w.db call.md5 call.fileName)
  | _, _ => true

theorem uncontested_iff (call : ShareCall) (c : Server.Command) (w : World) :
    uncontested call c w = true ↔ Uncontested call c w := by
  unfold uncontested Uncontested
  split
  · simp
  · simp [imp_iff_not_or]
  · simp

instance (call : ShareCall) (c : Server.Command) (w : World) :
    Decidable (Uncontested call c w) :=
  decidable_of_iff _ (uncontested_iff call c w)

/-- The users `u` and `v` share the same file. -/
def twoShares (i : Bool) : ShareCall :=
  ⟨if i then CString.lit "u" else CString.lit "v", CString.lit "m", CString.lit "a"⟩

def shareStart : OkConfig Bool Int := ⟨World.empty, fun i => (twoShares i).prog⟩

/-- What the two calls have answered, if anything. -/
def answer (p : Handler Int) : Option Int :=
  match p with
  | .ret code => some code
  | _ => none

theorem eq_ret_of_answer {p : Handler Int} {code : Int} (h : answer p = some code) :
    p = .ret code := by
  cases p with
  | ret a => cases h; rfl
  | cmd c k => cases h
  | fail => cases h

/-- Both ask Redis and MySQL before either stores its row. -/
def sharesContested : List Bool :=
  List.replicate 4 false ++ List.replicate 12 true ++ List.replicate 8 false

theorem shareReachable_twice :
    ¬ ∀ (calls : Bool → ShareCall) t₀ cfg, ShareReachable calls (fun _ _ _ => True) t₀ cfg →
      SharedOnce calls t₀ cfg := by
  intro hclaim
  have hrun : (schedule (okReplyWhen fun _ _ _ => True) sharesContested shareStart).map
      (fun cfg => (cfg.shared.db.shareFileList.map ShareFile.key, answer (cfg.prog true),
        answer (cfg.prog false))) =
      some ([(CString.lit "m", CString.lit "a"), (CString.lit "m", CString.lit "a")],
        some shareOk, some shareOk) := by
    decide
  obtain ⟨cfg, hcfg, hfinal⟩ := Option.map_eq_some_iff.mp hrun
  obtain ⟨hkeys, _⟩ := Prod.mk.inj hfinal
  have hreach := reachable_of_schedule (step_of_okReplyWhen fun _ _ _ => True) .refl hcfg
  have honce := hclaim twoShares World.empty.db cfg
    ⟨shareStart, fun _ => rfl, rfl, List.nodup_nil, hreach⟩
  have hunique := honce.unique
  rw [UniqueShares, hkeys] at hunique
  exact absurd hunique (by decide)

/-- The second call asks Redis before the first one has stored its row and MySQL after. -/
def sharesUncontested : List Bool :=
  List.replicate 3 false ++ List.replicate 8 true ++ List.replicate 5 false ++
    List.replicate 4 true

theorem shareReachable_once_sample :
    ∃ cfg, ShareReachable twoShares (fun i => Uncontested (twoShares i)) World.empty.db cfg ∧
      SharedOnce twoShares World.empty.db cfg ∧ cfg.prog true = .ret shareOk ∧
      cfg.prog false = .ret shareHad := by
  have hrun : (schedule (okReplyWhen fun i => Uncontested (twoShares i)) sharesUncontested
      shareStart).map (fun cfg => (answer (cfg.prog true), answer (cfg.prog false))) =
      some (some shareOk, some shareHad) := by
    decide
  obtain ⟨cfg, hcfg, hfinal⟩ := Option.map_eq_some_iff.mp hrun
  obtain ⟨htrue, hfalse⟩ := Prod.mk.inj hfinal
  have hreach : ShareReachable twoShares (fun i => Uncontested (twoShares i)) World.empty.db cfg :=
    ⟨shareStart, fun _ => rfl, rfl, List.nodup_nil,
      reachable_of_schedule (step_of_okReplyWhen _) .refl hcfg⟩
  exact ⟨cfg, hreach, shareReachable_once twoShares World.empty.db cfg hreach,
    eq_ret_of_answer htrue, eq_ret_of_answer hfalse⟩

end Files
end TcMuzi
