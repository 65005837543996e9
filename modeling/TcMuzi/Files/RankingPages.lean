import TcMuzi.Files.CacheRepair

/-!
# Reading the ranking page by page

After the rebuild of the Redis records the ranking lists every shared file once, the
downloads in descending order.  `rankingPages_of_rebuild` is the whole statement: the
rebuild starts from any keyspace, and the pages read after it are the slices of `ranking`.
-/

namespace TcMuzi
namespace Files

open Base Server Redis Api Mysql Lib

/-! ## The ranking of a share list -/

/-- More downloads first; files with equally many by their members, the last one first. -/
def outranks (a b : ShareFile) : Prop :=
  b.pv < a.pv ∨ (b.pv = a.pv ∧ ¬ (shareFileid a).bytes < (shareFileid b).bytes)

instance : DecidableRel outranks := fun a b => by unfold outranks; infer_instance

def ranking (rows : List ShareFile) : List ShareFile := rows.insertionSort outranks

/-- The member of a row with its score. -/
def memberOf (row : ShareFile) : (_ : CString) × Int := ⟨shareFileid row, row.pv⟩

instance : Std.Total outranks where
  total a b := Std.Total.total (r := zsetLe) (memberOf b) (memberOf a)

instance : IsTrans ShareFile outranks where
  trans a b c hab hbc :=
    IsTrans.trans (r := zsetLe) (memberOf c) (memberOf b) (memberOf a) hbc hab

theorem ranking_perm (rows : List ShareFile) : (ranking rows).Perm rows :=
  List.perm_insertionSort outranks rows

theorem ranking_descending (rows : List ShareFile) :
    (ranking rows).Pairwise fun a b => b.pv ≤ a.pv := by
  refine (List.pairwise_insertionSort outranks rows).imp ?_
  rintro a b (hlt | ⟨heq, _⟩)
  · exact hlt.le
  · exact heq.le

/-! ## What the rebuild leaves -/

/-- Redis holds the records of these rows and no others. -/
structure HoldsRanking (rows : List ShareFile) (members : ZSet) (fields : Hash) : Prop where
  ranks : zsetDesc members = (ranking rows).map shareFileid
  scores : ∀ row ∈ rows, members.lookup (shareFileid row) = some row.pv
  names : ∀ row ∈ rows, fields.lookup (shareFileid row) = some row.fileName

/-- With members of their own the rows are found under them, in the order of the ranking. -/
theorem holdsRanking_insertAll {t : Tables} (hfileids : (t.shareFileList.map shareFileid).Nodup) :
    HoldsRanking t.shareFileList (insertAll shareFileid ShareFile.pv ∅ (sharesByPv t))
      (insertAll shareFileid ShareFile.fileName ∅ (sharesByPv t)) := by
  have hperm : (sharesByPv t).Perm t.shareFileList := List.perm_insertionSort _ _
  have hkeys : ((sharesByPv t).map shareFileid).Nodup :=
    (hperm.map shareFileid).nodup_iff.mpr hfileids
  have hentries : ∀ {β : Type} (val : ShareFile → β), ∀ row ∈ t.shareFileList,
      (insertAll shareFileid val ∅ (sharesByPv t)).lookup (shareFileid row) = some (val row) := by
    intro β val row hrow
    have hall := perm_entries_insertAll shareFileid val hkeys fun row _ => AList.notMem_empty _
    refine AList.mem_lookup_iff.mpr (hall.mem_iff.mpr ?_)
    refine List.mem_append_left _ (List.mem_map.mpr ⟨row, hperm.mem_iff.mpr hrow, rfl⟩)
  refine ⟨?_, hentries _, hentries _⟩
  have hmembers : (insertAll shareFileid ShareFile.pv ∅ (sharesByPv t)).entries.Perm
      ((ranking t.shareFileList).map memberOf) := by
    have hall := perm_entries_insertAll shareFileid ShareFile.pv hkeys
      fun row _ => AList.notMem_empty _
    rw [show (∅ : ZSet).entries = [] from rfl, List.append_nil] at hall
    exact hall.trans ((hperm.trans (ranking_perm _).symm).map memberOf)
  have hdesc : ((ranking t.shareFileList).map memberOf).Pairwise fun a b => zsetLe b a :=
    List.pairwise_map.mpr (List.pairwise_insertionSort outranks _)
  rw [zsetDesc_eq hmembers hdesc, List.map_map]
  rfl

/-! ## Reading -/

/-- What the response says of a row. -/
def rankingEntry (row : ShareFile) : Json :=
  .obj [(CString.lit "filename", .str row.fileName), (CString.lit "pv", .int row.pv)]

/-- The response that lists these rows: code 0, their entries and how many they are. -/
def pageResponse (rows : List ShareFile) : Json := encodeFileList 0 (rows.map rankingEntry)

/-- A reader who asks for one page after the other. -/
def readRanking : Nat → List Nat → Handler (List Json)
  | _, [] => return []
  | start, count :: counts => do
      let page ← handleGetRankingFilelist start count
      let rest ← readRanking (start + count) counts
      return page :: rest

/-- The member fits into its entry, and the `pv` is an `int` that is not mistaken for a
failure. -/
structure FitsPage (row : ShareFile) : Prop where
  short : (shareFileid row).length < 1024
  pv : 0 ≤ row.pv
  int : IsInt32 row.pv

section Reading

variable (sys : (c : SysCall) → c.Ret) {w : World} {members : ZSet} {fields : Hash}
  {all : List ShareFile}

theorem run_rankingFiles (h : HoldsRanking all members fields)
    (hzset : zsetOf w.redis filePublicZset = some members)
    (hhash : hashOf w.redis fileNameHash = some fields) {rows : List ShareFile}
    (hrows : ∀ row ∈ rows, row ∈ all ∧ FitsPage row) :
    run (okReply sys) (rankingFiles .conn (rows.map shareFileid)) w =
      some (some (rows.map rankingEntry), w) := by
  induction rows with
  | nil => rfl
  | cons row rows ih =>
      obtain ⟨hall, hfits⟩ := hrows row List.mem_cons_self
      have hname : row.fileName.strncpy CacheConn.valuesIdSize = row.fileName := by
        have hshort := hfits.short
        rw [shareFileid, fileidOf, CString.length_append] at hshort
        exact CString.strncpy_eq_self (by rw [CacheConn.valuesIdSize]; omega)
      have hpv : ¬ row.pv = -1 := by
        have := hfits.pv
        omega
      rw [List.map_cons, rankingFiles,
        run_bind_of_eq (run_hget sys hhash (h.names row hall)), hname]
      dsimp only
      rw [run_bind_of_eq (run_zsetGetScore sys hzset (h.scores row hall) hfits.int), if_neg hpv,
        run_bind_of_eq (ih fun r hr => hrows r (List.mem_cons_of_mem row hr))]
      rfl

theorem run_handleGetRankingFilelist (hcalloc : ∀ count size, sys (.calloc count size) = true)
    (h : HoldsRanking all members fields) (hzset : zsetOf w.redis filePublicZset = some members)
    (hhash : hashOf w.redis fileNameHash = some fields) (hfits : ∀ row ∈ all, FitsPage row)
    (start : Nat) {count : Nat} (hcount : 0 < count) (hend : start + count ≤ 2147483647) :
    run (okReply sys) (handleGetRankingFilelist start count) w =
      some (pageResponse (((ranking all).drop start).take count), w) := by
  let page := ((ranking all).drop start).take count
  have hpage : ∀ row ∈ page, row ∈ all ∧ FitsPage row := by
    intro row hrow
    have hranked : row ∈ ranking all := List.mem_of_mem_drop (List.mem_of_mem_take hrow)
    have hall : row ∈ all := (ranking_perm all).mem_iff.mp hranked
    exact ⟨hall, hfits row hall⟩
  -- no member is cut
  have hvalues : (((zsetDesc members).drop start).take count).map
      (fun item => item.strncpy (CacheConn.valuesIdSize - 1)) = page.map shareFileid := by
    rw [h.ranks, ← List.map_drop, ← List.map_take, List.map_map]
    refine List.map_congr_left fun row hrow => ?_
    have hshort := (hpage row hrow).2.short
    exact CString.strncpy_eq_self (by rw [CacheConn.valuesIdSize]; omega)
  have hlast : wrapInt32 ((start : Int) + count - 1) = start + count - 1 :=
    wrapInt32_eq ⟨by omega, by omega⟩
  have hint : IsInt32 count := ⟨by omega, by omega⟩
  rw [handleGetRankingFilelist, run_withCacheConn, run_bind_of_eq (run_calloc sys w _ _), hcalloc,
    if_pos rfl]
  dsimp only
  rw [hlast, run_bind_of_eq (run_zsetZrevrange sys hzset hcount hint), hvalues]
  dsimp only
  rw [run_bind_of_eq (run_rankingFiles sys h hzset hhash hpage)]
  rfl

theorem run_readRanking (hcalloc : ∀ count size, sys (.calloc count size) = true)
    (h : HoldsRanking all members fields) (hzset : zsetOf w.redis filePublicZset = some members)
    (hhash : hashOf w.redis fileNameHash = some fields) (hfits : ∀ row ∈ all, FitsPage row)
    (start : Nat) {counts : List Nat} (hcounts : ∀ count ∈ counts, 0 < count)
    (hend : start + counts.sum ≤ 2147483647) :
    run (okReply sys) (readRanking start counts) w =
      some ((Table.pages ((ranking all).drop start) counts).map pageResponse, w) := by
  induction counts generalizing start with
  | nil => rfl
  | cons count counts ih =>
      rw [List.sum_cons] at hend
      have hpage := run_handleGetRankingFilelist sys hcalloc h hzset hhash hfits start
        (hcounts count List.mem_cons_self) (by omega)
      have hrest := ih (start + count) (fun c hc => hcounts c (List.mem_cons_of_mem count hc))
        (by omega)
      rw [readRanking, run_bind_of_eq hpage, run_bind_of_eq hrest, Table.pages, List.drop_drop]
      rfl

end Reading

/-! ## The rebuild and the pages -/

/-- After the rebuild every page is its slice of the ranking, and pages that reach the end
list every shared file once, the downloads in descending order. -/
theorem rankingPages_of_rebuild (sys : (c : SysCall) → c.Ret)
    (hcalloc : ∀ count size, sys (.calloc count size) = true) (w : World)
    (hfileids : (w.db.shareFileList.map shareFileid).Nodup)
    (hshort : ∀ row ∈ w.db.shareFileList, (shareFileid row).length < 1024)
    (hpv : ∀ row ∈ w.db.shareFileList, 0 ≤ row.pv) (hints : w.db.HoldInts) :
    ∃ ks, run (okReply sys) initializePvCache w = some (0, withRedis w ks) ∧
      (∀ start count : Int, 0 ≤ start → 1 ≤ count → start + count ≤ 2147483647 →
        run (okReply sys) (handleGetRankingFilelist start count) (withRedis w ks) =
          some (pageResponse
            (((ranking w.db.shareFileList).drop start.toNat).take count.toNat), withRedis w ks)) ∧
      ∀ counts : List Nat, (∀ count ∈ counts, 0 < count) → counts.sum ≤ 2147483647 →
        w.db.shareFileList.length ≤ counts.sum →
        ∃ pages : List (List ShareFile),
          run (okReply sys) (readRanking 0 counts) (withRedis w ks) =
            some (pages.map pageResponse, withRedis w ks) ∧
          pages.flatten.Perm w.db.shareFileList ∧
          pages.flatten.Pairwise fun a b => b.pv ≤ a.pv := by
  obtain ⟨ks, hrebuild, hzset, hhash⟩ := exists_run_initializePvCache sys w
  have hholds := holdsRanking_insertAll hfileids
  have hfits : ∀ row ∈ w.db.shareFileList, FitsPage row :=
    fun row hrow => ⟨hshort row hrow, hpv row hrow, hints.shareFilePv row hrow⟩
  refine ⟨ks, hrebuild, ?_, ?_⟩
  · intro start count hstart hcount hend
    obtain ⟨start, rfl⟩ := Int.eq_ofNat_of_zero_le hstart
    obtain ⟨count, rfl⟩ := Int.eq_ofNat_of_zero_le (show 0 ≤ count by omega)
    exact run_handleGetRankingFilelist sys (w := withRedis w ks) hcalloc hholds hzset hhash hfits
      start (by omega) (by omega)
  · intro counts hcounts hend hreach
    have hranked : (ranking w.db.shareFileList).length ≤ counts.sum := by
      rw [(ranking_perm _).length_eq]
      exact hreach
    refine ⟨Table.pages (ranking w.db.shareFileList) counts, ?_, ?_, ?_⟩
    · exact run_readRanking sys (w := withRedis w ks) hcalloc hholds hzset hhash hfits 0 hcounts
        (by omega)
    · rw [Table.flatten_pages hranked]
      exact ranking_perm _
    · rw [Table.flatten_pages hranked]
      exact ranking_descending _

/-- Two files with five downloads each and one with none, in a Redis that holds a member
of its own. -/
def staleRanking : World :=
  let row := fun fileName pv =>
    ShareFile.mk (CString.lit "u") (CString.lit "m") (CString.lit "2024-05-01 12:00:00") fileName pv
  { db := { Tables.empty with
      shareFileList := [row (CString.lit "a") 5, row (CString.lit "b") 0, row (CString.lit "c") 5] }
    snapshot := none
    redis := storeZset ∅ filePublicZset ((∅ : ZSet).insert (CString.lit "old") 9) }

theorem rankingPages_of_rebuild_sample :
    ∃ ks, run (okReply sampleSys) initializePvCache staleRanking =
        some (0, withRedis staleRanking ks) ∧
      run (okReply sampleSys) (handleGetRankingFilelist 1 2) (withRedis staleRanking ks) =
        some (encodeFileList 0
          [.obj [(CString.lit "filename", .str (CString.lit "a")), (CString.lit "pv", .int 5)],
            .obj [(CString.lit "filename", .str (CString.lit "b")), (CString.lit "pv", .int 0)]],
          withRedis staleRanking ks) := by
  obtain ⟨ks, hrebuild, hpages, _⟩ :=
    rankingPages_of_rebuild sampleSys (fun _ _ => rfl) staleRanking (by decide) (by decide)
      (by decide) (by decide)
  exact ⟨ks, hrebuild, hpages 1 2 (by decide) (by decide) (by decide)⟩

end Files
end TcMuzi
