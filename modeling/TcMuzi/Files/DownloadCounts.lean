import TcMuzi.Api.SharePicture
import TcMuzi.Files.Effects
import TcMuzi.Lib.Counters
import TcMuzi.Server.Interleaved

/-!
# Concurrent downloads and browses without a transaction

Any number of `handlePvFile` calls of `api_dealfile.cc` and of `handleBrowsePicture` calls
interleave their statements, all of which succeed.  Both read a `pv` in one statement and
write it back, increased by one, in another.

* `Counts` is the invariant: each row has counted the calls that have written.
* `Fresh` is the condition under which a write keeps it: the `pv` that was read is still
  that of the row.
-/

namespace TcMuzi
namespace Files

open Base Server Api Mysql Lib

/-! ## The calls -/

inductive CountOp
  | mark (user md5 fileName : CString)
  | browse (shareId : CString)
deriving DecidableEq

/-- Whether the call answers a success. -/
def CountOp.prog : CountOp → Handler Bool
  | .mark user md5 fileName => do
      let code ← handlePvUserFile user md5 fileName
      return code = httpRespOk
  | .browse shareId => do
      let json ← handleBrowsePicture shareId
      return json.code = some httpRespOk

/-- Which counter a call increments: that of a user's file or that of a picture. -/
inductive CountTarget
  | userFile (key : CString × CString × CString)
  | picture (shareId : CString)
deriving DecidableEq

def CountOp.target : CountOp → CountTarget
  | .mark user md5 fileName => .userFile (user, md5, fileName)
  | .browse shareId => .picture shareId

/-- The counter that a statement writes. -/
def writtenTarget : Update → Option CountTarget
  | .setUserFilePv user md5 fileName _ => some (.userFile (user, md5, fileName))
  | .setSharePicturePv shareId _ => some (.picture shareId)
  | _ => none

/-- A call that has counted, and for which counter. -/
abbrev CountPhase := Option CountTarget

def countStep (op : CountOp) : (c : Server.Command) → CountPhase → c.Reply → CountPhase → Prop
  | .update _, q, r, q' =>
      (r = some 0 ∧ q' = q) ∨ ((∃ n, r = some (n + 1)) ∧ q' = some op.target)
  | _, q, _, q' => q' = q

def countMay (op : CountOp) : CountPhase → Server.Command → Prop
  | q, .update u => q = none ∧ writtenTarget u = some op.target
  | _, .query _ => True
  | _, .getDBConn _ => True
  | _, .relDBConn _ => True
  | _, _ => False

def countPhases (op : CountOp) : Sem Server.Command Command.Reply CountPhase where
  step := countStep op
  safe := countMay op

section Calls

variable {op : CountOp}

/-- A statement that writes no counter. -/
theorem countPhases_idle {c : Server.Command} (hc : ∀ u, c ≠ .update u)
    (hmay : ∀ q, countMay op q c) : (countPhases op).Idle c := by
  intro q
  refine ⟨hmay q, fun r q' hstep => ?_⟩
  cases c with
  | update u => exact absurd rfl (hc u)
  | _ => exact hstep

theorem wp_count_withDBConn {pool : DBInstance} {α : Type} {body : Ptr → Handler α}
    {Q : α → CountPhase → Prop} (h : ∀ ptr, wp (countPhases op) (body ptr) Q none) :
    wp (countPhases op) (withDBConn pool body) Q none :=
  wp_withDBConn_of_idle (countPhases_idle (by simp) fun _ => trivial)
    (countPhases_idle (by simp) fun _ => trivial) h

/-- The write: its caller asks whether a row has changed. -/
theorem wp_count_executeUpdate {ptr : Ptr} {u : Update} {Q : Bool → CountPhase → Prop}
    (hu : writtenTarget u = some op.target) (hsame : Q false none)
    (hdone : Q true (some op.target)) :
    wp (countPhases op) (executeUpdate ptr u true) Q none := by
  cases ptr with
  | null => trivial
  | conn =>
      refine ⟨⟨rfl, hu⟩, ?_⟩
      rintro r q (⟨rfl, rfl⟩ | ⟨⟨n, rfl⟩, rfl⟩)
      · exact hsame
      · exact hdone

/-- A read. -/
theorem wp_count_executeQuery {ptr : Ptr} {query : Query} {α : Type}
    {k : Option (List query.Row) → Handler α} {Q : α → CountPhase → Prop}
    (hk : ∀ result, wp (countPhases op) (k result) Q none) :
    wp (countPhases op) (executeQuery ptr query >>= k) Q none := by
  cases ptr with
  | null => trivial
  | conn =>
      refine ⟨trivial, ?_⟩
      rintro result _ rfl
      exact hk result

/-- A call that answers a success has counted. -/
theorem wp_count_prog (op : CountOp) :
    wp (countPhases op) op.prog (fun ok q => ok = true → q = some op.target) none := by
  cases op with
  | mark user md5 fileName =>
      rw [CountOp.prog, handlePvUserFile, wp_bind]
      refine wp_count_withDBConn fun ptr => wp_count_executeQuery fun result => ?_
      split
      · rw [wp_bind]
        refine wp_count_executeUpdate rfl ?_ fun _ => rfl
        intro hok
        simp [httpRespOk, httpRespFail] at hok
      · intro hok
        simp [httpRespOk, httpRespFail] at hok
  | browse shareId =>
      rw [CountOp.prog, handleBrowsePicture, wp_bind]
      refine wp_count_withDBConn fun ptr => wp_count_executeQuery fun shares => ?_
      have hfail : ∀ q, wp (countPhases (.browse shareId))
          (pure (decide ((encodeCode httpRespFail).code = some httpRespOk)) : Handler Bool)
          (fun ok q => ok = true → q = some (CountOp.browse shareId).target) q := by
        intro q hok
        simp [encodeCode, httpRespOk, httpRespFail] at hok
      split
      · refine wp_count_executeQuery fun urls => ?_
        split
        · rw [wp_bind]
          refine wp_count_executeUpdate rfl ?_ fun _ => rfl
          intro hok
          simp [encodeBrowselPictureJson, httpRespOk, httpRespFail] at hok
        · exact hfail none
      · exact hfail none

end Calls

/-! ## The counters -/

def userFilePvs : Counter UserFile (CString × CString × CString) where
  key := UserFile.key
  get row := row.pv
  set n row := { row with pv := n }
  get_set _ _ := rfl
  set_get _ := rfl
  set_set _ _ _ := rfl
  key_set _ _ := rfl

def picturePvs : Counter SharePicture CString where
  key row := row.shareId
  get row := row.pv
  set n row := { row with pv := n }
  get_set _ _ := rfl
  set_get _ := rfl
  set_set _ _ _ := rfl
  key_set _ _ := rfl

/-- `t` after `k` calls for each counter. -/
structure Advanced (t₀ t : Tables) (k : CountTarget → Nat) : Prop where
  files : t.userFileList = userFilePvs.advance (fun key => k (.userFile key)) t₀.userFileList
  pictures : t.sharePictureList =
    picturePvs.advance (fun shareId => k (.picture shareId)) t₀.sharePictureList

/-- No counter of `t` is lower in `t'`. -/
structure NoneLower (t t' : Tables) : Prop where
  files : userFilePvs.NoDecrease t.userFileList t'.userFileList
  pictures : picturePvs.NoDecrease t.sharePictureList t'.sharePictureList

/-- The `pv` that is written is the next one of every row it is written to. -/
def Fresh : Server.Command → World → Prop
  | .update (.setUserFilePv user md5 fileName n), w =>
      ∀ row ∈ w.db.userFileList, isUserFile user md5 fileName row → n = row.pv + 1
  | .update (.setSharePicturePv shareId n), w =>
      ∀ row ∈ w.db.sharePictureList, row.shareId = shareId → n = row.pv + 1
  | _, _ => True

section Invariant

variable {ι : Type} [Fintype ι] {t₀ : Tables} {w w' : World} {q : ι → CountPhase}

/-- Each counter has counted the calls that have written it. -/
def Counts (t₀ : Tables) (w : World) (q : ι → CountPhase) : Prop :=
  Advanced t₀ w.db fun target => threadsIn q (some target)

/-- How many calls have written a counter, after one more has. -/
theorem threadsIn_counted [DecidableEq ι] {i : ι} (hq : q i = none) (target other : CountTarget) :
    threadsIn (Function.update q i (some target)) (some other) =
      threadsIn q (some other) + if target = other then 1 else 0 := by
  have h := threadsIn_update q i (some target) (some other)
  rw [if_neg (by simp [hq])] at h
  simpa using h

theorem Counts.write [DecidableEq ι] (h : Counts t₀ w q) {i : ι} (hq : q i = none) {u : Update}
    {op : CountOp} (hu : writtenTarget u = some op.target) (hfresh : Fresh (.update u) w)
    {n : Nat} {t : Tables} (hexec : u.exec w.db = some (n, t)) :
    Counts t₀ { w with db := t } (Function.update q i (some op.target)) := by
  cases u with
  | setUserFilePv user md5 fileName pv =>
      cases hexec
      have htarget : CountTarget.userFile (user, md5, fileName) = op.target :=
        Option.some.inj hu
      rw [← htarget]
      refine ⟨?_, ?_⟩
      · show Table.setWhere _ _ w.db.userFileList = _
        rw [h.files]
        refine userFilePvs.setWhere_advance (x := (user, md5, fileName)) (fun row => ?_)
          (fun key => ?_) fun row hrow hfile => ?_
        · exact isUserFile_iff user md5 fileName row
        · rw [threadsIn_counted hq]
          simp [eq_comm]
        · exact hfresh row (h.files ▸ hrow) hfile
      · show w.db.sharePictureList = _
        rw [h.pictures]
        congr 1
        funext shareId
        rw [threadsIn_counted hq, if_neg (by simp), Nat.add_zero]
  | setSharePicturePv shareId pv =>
      cases hexec
      have htarget : CountTarget.picture shareId = op.target := Option.some.inj hu
      rw [← htarget]
      refine ⟨?_, ?_⟩
      · show w.db.userFileList = _
        rw [h.files]
        congr 1
        funext key
        rw [threadsIn_counted hq, if_neg (by simp), Nat.add_zero]
      · show Table.setWhere _ _ w.db.sharePictureList = _
        rw [h.pictures]
        refine picturePvs.setWhere_advance (x := shareId) (fun row => ?_) (fun other => ?_)
          fun row hrow hfile => ?_
        · exact decide_eq_true_iff
        · rw [threadsIn_counted hq]
          simp [eq_comm]
        · exact hfresh row (h.pictures ▸ hrow) (of_decide_eq_true hfile)
  | _ => simp [writtenTarget] at hu

/-- More calls have written. -/
theorem Counts.noneLower {q' : ι → CountPhase} (h : Counts t₀ w q) (h' : Counts t₀ w' q')
    (hle : ∀ target, threadsIn q (some target) ≤ threadsIn q' (some target)) :
    NoneLower w.db w'.db := by
  refine ⟨?_, ?_⟩
  · rw [h.files, h'.files]
    exact userFilePvs.noDecrease_advance (fun key => hle _) _
  · rw [h.pictures, h'.pictures]
    exact picturePvs.noDecrease_advance (fun shareId => hle _) _

/-- A write that changes no row changes nothing. -/
theorem exec_of_unchanged {u : Update} {op : CountOp} (hu : writtenTarget u = some op.target)
    {t t' : Tables} (hexec : u.exec t = some (0, t')) : t' = t := by
  cases u with
  | setUserFilePv user md5 fileName pv =>
      obtain ⟨hchanged, rfl⟩ := Prod.mk.inj (Option.some.inj hexec)
      rw [Table.setWhere_of_changed_eq_zero hchanged]
  | setSharePicturePv shareId pv =>
      obtain ⟨hchanged, rfl⟩ := Prod.mk.inj (Option.some.inj hexec)
      rw [Table.setWhere_of_changed_eq_zero hchanged]
  | _ => simp [writtenTarget] at hu

theorem Counts.step [DecidableEq ι] (h : Counts t₀ w q) {i : ι} {op : CountOp}
    {c : Server.Command} {r : c.Reply} (hmay : countMay op (q i) c) (hfresh : Fresh c w)
    (hstep : okStep c w r w') :
    ∃ q', countStep op c (q i) r q' ∧ Counts t₀ w' (Function.update q i q') ∧
      NoneLower w.db w'.db := by
  have hsame : Counts t₀ w (Function.update q i (q i)) ∧ NoneLower w.db w.db := by
    rw [Function.update_eq_self]
    exact ⟨h, h.noneLower h fun _ => Nat.le_refl _⟩
  cases c with
  | update u =>
      obtain ⟨hq, hu⟩ := hmay
      obtain ⟨n, t, hexec, rfl, rfl⟩ := hstep
      cases n with
      | zero =>
          have ht : t = w.db := exec_of_unchanged hu hexec
          rw [ht]
          exact ⟨q i, Or.inl ⟨rfl, rfl⟩, hsame⟩
      | succ n =>
          have hwrite := h.write hq hu hfresh hexec
          refine ⟨some op.target, Or.inr ⟨⟨n, rfl⟩, rfl⟩, hwrite, ?_⟩
          refine h.noneLower hwrite fun target => ?_
          rw [threadsIn_counted hq]
          exact Nat.le_add_right ..
  | query query =>
      obtain ⟨rows, _, rfl, rfl⟩ := hstep
      exact ⟨q i, rfl, hsame⟩
  | getDBConn pool => obtain rfl : w' = w := hstep; exact ⟨q i, rfl, hsame⟩
  | relDBConn pool => obtain rfl : w' = w := hstep; exact ⟨q i, rfl, hsame⟩
  | _ => exact absurd hmay id

end Invariant

/-! ## All interleavings -/

section Interleavings

variable {ι : Type} [Fintype ι] [DecidableEq ι]

/-- The commands of the calls in any order, where each meets the condition. -/
def CountReachable (ops : ι → CountOp) (cond : Server.Command → World → Prop) (t₀ : Tables)
    (cfg : OkConfig ι Bool) : Prop :=
  ∃ init, (∀ i, init.prog i = (ops i).prog) ∧ init.shared.db = t₀ ∧
    Reachable (okSystem fun _ => cond) init cfg

/-- No step lowers a counter, and once all calls have answered a success every counter has
counted the calls for it. -/
structure CountsRightly (ops : ι → CountOp) (cond : Server.Command → World → Prop) (t₀ : Tables)
    (cfg : OkConfig ι Bool) : Prop where
  noneLower : ∀ cfg', Step (okSystem fun _ => cond) cfg cfg' →
    NoneLower cfg.shared.db cfg'.shared.db
  counted : (∀ i, cfg.prog i = .ret true) →
    Advanced t₀ cfg.shared.db (threadsIn fun i => (ops i).target)

omit [DecidableEq ι] in
theorem countStart_simulates {ops : ι → CountOp} {cfg : OkConfig ι Bool}
    (h : ∀ i, cfg.prog i = (ops i).prog) :
    Simulates (fun i => countPhases (ops i)) (Counts cfg.shared.db)
      (fun i ok q => ok = true → q = some (ops i).target) cfg fun _ => none := by
  have hzero : ∀ target : CountTarget,
      threadsIn (fun _ : ι => (none : CountPhase)) (some target) = 0 :=
    fun target => threadsIn_eq_zero (by simp)
  refine ⟨⟨?_, ?_⟩, fun i => ?_⟩
  · simp only [hzero]
    exact (userFilePvs.advance_zero _).symm
  · simp only [hzero]
    exact (picturePvs.advance_zero _).symm
  · rw [h i]
    exact wp_count_prog (ops i)

/-- In every interleaving in which each write is fresh, nothing is lost or lowered. -/
theorem countReachable_rightly (ops : ι → CountOp) (t₀ : Tables) (cfg : OkConfig ι Bool)
    (h : CountReachable ops Fresh t₀ cfg) : CountsRightly ops Fresh t₀ cfg := by
  obtain ⟨init, hprog, rfl, hreach⟩ := h
  have hkeep : ∀ i c w r w' (q : ι → CountPhase), Counts init.shared.db w q →
      countMay (ops i) (q i) c → Fresh c w → okStep c w r w' →
      ∃ q', countStep (ops i) c (q i) r q' ∧
        Counts init.shared.db w' (Function.update q i q') := by
    intro i c w r w' q hq hmay hfresh hstep
    obtain ⟨q', hq', hcounts, _⟩ := Counts.step hq hmay hfresh hstep
    exact ⟨q', hq', hcounts⟩
  obtain ⟨q, hsim⟩ := okReachable_simulates hkeep (countStart_simulates hprog) hreach
  refine ⟨fun cfg' hstep => ?_, fun hdone => ?_⟩
  · cases hstep with
    | cmd i hcmd hs =>
        obtain ⟨_, _, _, hlower⟩ := Counts.step hsim.1 (hsim.safe_of_cmd hcmd) hs.2 hs.1
        exact hlower
    | pause i _ hno => exact absurd hno id
    | fault i _ hno => exact absurd hno id
    | env hno => exact absurd hno id
  · have hq : q = fun i => some (ops i).target := funext fun i => hsim.post_of_ret (hdone i) rfl
    have hcounts : Counts init.shared.db cfg.shared q := hsim.1
    have hk : (fun target => threadsIn q (some target)) = threadsIn fun i => (ops i).target := by
      funext target
      rw [hq]
      simp [threadsIn]
    rw [Counts, hk] at hcounts
    exact hcounts

end Interleavings

/-! ## Three calls -/

instance (c : Server.Command) (w : World) : Decidable (Fresh c w) := by
  unfold Fresh
  split <;> infer_instance

/-- The user `o` has the file `a`. -/
def sampleUserFile : World where
  db := { Tables.empty with
    userFileList := [newUserFile (CString.lit "o") (CString.lit "m") CString.empty (CString.lit "a")] }
  snapshot := none
  redis := ∅

def threeMarks (_ : Fin 3) : CountOp := .mark (CString.lit "o") (CString.lit "m") (CString.lit "a")

def markStart : OkConfig (Fin 3) Bool := ⟨sampleUserFile, fun i => (threeMarks i).prog⟩

/-- The commands of the three calls in the given order. -/
def markOrder (cond : Server.Command → World → Prop) [∀ c w, Decidable (cond c w)]
    (order : List (Fin 3)) : Option (OkConfig (Fin 3) Bool) :=
  schedule (okReplyWhen fun _ => cond) order markStart

theorem countReachable_markOrder {cond : Server.Command → World → Prop}
    [∀ c w, Decidable (cond c w)] {order : List (Fin 3)} {cfg : OkConfig (Fin 3) Bool}
    (h : markOrder cond order = some cfg) :
    CountReachable threeMarks cond sampleUserFile.db cfg :=
  ⟨markStart, fun _ => rfl, rfl, reachable_of_schedule (step_of_okReplyWhen _) .refl h⟩

/-- Whether the program has returned `true`. -/
def isTrue (p : Handler Bool) : Bool :=
  match p with
  | .ret ok => ok
  | _ => false

theorem eq_ret_of_isTrue {p : Handler Bool} (h : isTrue p = true) : p = .ret true := by
  cases p with
  | ret ok => cases (h : ok = true); rfl
  | cmd c k => cases h
  | fail => cases h

/-- The first call reads 0, the others count to 2, and it writes 1. -/
def lostMarks : List (Fin 3) :=
  [0, 0] ++ List.replicate 4 1 ++ List.replicate 4 2 ++ [0, 0]

theorem countReachable_lostMarks :
    ¬ ∀ (ops : Fin 3 → CountOp) t₀ cfg, CountReachable ops (fun _ _ => True) t₀ cfg →
      CountsRightly ops (fun _ _ => True) t₀ cfg := by
  intro hclaim
  have hrun : (markOrder (fun _ _ => True) lostMarks).map (fun cfg =>
      (decide (∀ i, isTrue (cfg.prog i) = true), cfg.shared.db.userFileList.map (·.pv))) =
      some (true, [1]) := by decide
  obtain ⟨cfg, hcfg, hfinal⟩ := Option.map_eq_some_iff.mp hrun
  obtain ⟨hdone, hpvs⟩ := Prod.mk.inj hfinal
  have hcounted := (hclaim threeMarks _ cfg (countReachable_markOrder hcfg)).counted
    fun i => eq_ret_of_isTrue (of_decide_eq_true hdone i)
  rw [hcounted.files] at hpvs
  exact absurd hpvs (by decide)

/-- One after the other they count to 3. -/
theorem countReachable_rightly_sample :
    ∃ cfg, CountReachable threeMarks Fresh sampleUserFile.db cfg ∧
      CountsRightly threeMarks Fresh sampleUserFile.db cfg ∧
      cfg.shared.db.userFileList.map (·.pv) = [3] := by
  have hrun : (markOrder Fresh (List.replicate 4 0 ++ List.replicate 4 1 ++ List.replicate 4 2)).map
      (fun cfg => cfg.shared.db.userFileList.map (·.pv)) = some [3] := by decide
  obtain ⟨cfg, hcfg, hpvs⟩ := Option.map_eq_some_iff.mp hrun
  have hreach := countReachable_markOrder hcfg
  exact ⟨cfg, hreach, countReachable_rightly threeMarks sampleUserFile.db cfg hreach, hpvs⟩

end Files
end TcMuzi
