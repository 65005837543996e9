import Mathlib.Data.Option.Basic
import TcMuzi.Api.BufferBounds

/-!
# How long the parts of an upload may be

Its texts also hold what the FastDFS tools and the short-link service answer.
-/

namespace TcMuzi
namespace Api

open Base Server Redis Lib Mysql

variable {limits : Limits}

/-- The longest URL that is stored for a file. -/
def longestUrl (limits : Limits) (cfg : UploadConfig) : Nat :=
  max (9 + cfg.storageWebServerIp.length + cfg.storageWebServerPort.length + limits.fileid)
    (if cfg.shorturlServerAddress ≠ CString.empty then limits.shortUrl else 0)

/-- The texts of an upload, with the longest answers. -/
structure UploadFits (limits : Limits) (cfg : UploadConfig) (parts : List Part) (size : Int) :
    Prop where
  fileInfo : (uploadField parts "file_md5").length + limits.fileid + longestUrl limits cfg +
    digits size + (getFileSuffix (uploadField parts "file_name")).length ≤ 420
  userFile : (uploadField parts "user").length + (uploadField parts "file_md5").length +
    (uploadField parts "file_name").length ≤ 382

section Upload

variable {cfg : UploadConfig} {parts : List Part} {size : Int}

theorem wp_runTool (cfg : UploadConfig) (tool : String) (arg : CString) :
    wp (buffers false limits) (runTool cfg tool arg)
      (fun out _ => ∀ result ∈ out, (trimSpace result.2).length ≤ limits.fileid) false := by
  rw [runTool, wp_bind]
  refine ⟨trivial, fun piped _ hpipe => ?_⟩
  obtain ⟨-, rfl⟩ := hpipe
  show wp _ (if piped < 0 then _ else _) _ _
  split
  · exact nofun
  rw [wp_bind]
  refine ⟨trivial, fun forked _ hfork => ?_⟩
  obtain ⟨-, rfl⟩ := hfork
  cases forked with
  | error => exact nofun
  | child =>
      refine ⟨trivial, fun _ _ _ result hresult => ?_⟩
      obtain rfl := Option.some.inj hresult
      exact Nat.zero_le _
  | parent =>
      refine ⟨trivial, fun output _ hread result hresult => ?_⟩
      obtain rfl := Option.some.inj hresult
      exact hread.1.2 rfl

/-- What `fdfs_upload_file` prints is a file id. -/
theorem wp_uploadFileToFastDfs (cfg : UploadConfig) (path : CString) :
    wp (buffers false limits) (uploadFileToFastDfs cfg path)
      (fun result _ => result.2.length ≤ limits.fileid) false := by
  rw [uploadFileToFastDfs, wp_bind]
  refine wp_mono (wp_runTool cfg "fdfs_upload_file" path) fun out _ hout => ?_
  cases out with
  | none => exact Nat.zero_le _
  | some result =>
      obtain ⟨process, output⟩ := result
      have hid := hout _ rfl
      cases process with
      | parent =>
          show (if trimSpace output = CString.empty then _ else _ : Int × CString).2.length ≤ _
          split <;> exact hid
      | error => exact Nat.zero_le _
      | child => exact Nat.zero_le _

theorem stays_getFullurlByFileid {fileid : CString} (hfileid : fileid.length ≤ limits.fileid) :
    Stays false limits (getFullurlByFileid cfg fileid) fun result => result.2.length ≤
      9 + cfg.storageWebServerIp.length + cfg.storageWebServerPort.length + limits.fileid := by
  have hrun : Uses (InBounds false) (runTool cfg "fdfs_file_info" fileid) := by
    refine uses_bind ((uses_issue ..).mpr trivial) fun _ => uses_ite trivial ?_
    refine uses_bind ((uses_issue ..).mpr trivial) fun forked => ?_
    cases forked with
    | error => trivial
    | child => exact uses_bind ((uses_issue ..).mpr trivial) fun _ => trivial
    | parent => exact uses_bind ((uses_issue ..).mpr trivial) fun _ => trivial
  refine stays_bind (stays_of_uses hrun) fun out _ => ?_
  cases out with
  | none => exact stays_ret (Nat.zero_le _)
  | some result =>
      obtain ⟨process, output⟩ := result
      cases process with
      | parent =>
          refine stays_bind (stays_of_uses (uses_orThrow _)) fun found _ => ?_
          refine stays_bind (stays_of_uses (uses_orThrow _)) fun _ _ => stays_ret ?_
          have hhttp : (CString.lit "http://").length = 7 := by decide
          have hcolon : (CString.lit ":").length = 1 := by decide
          have hslash : (CString.lit "/").length = 1 := by decide
          simp only [CString.length_append, hhttp, hcolon, hslash]
          omega
      | error => exact stays_ret (Nat.zero_le _)
      | child => exact stays_ret (Nat.zero_le _)

theorem stays_shortUrlOf {url : CString} (hurl : url.length ≤
      9 + cfg.storageWebServerIp.length + cfg.storageWebServerPort.length + limits.fileid) :
    Stays false limits (shortUrlOf cfg url) fun url => url.length ≤ longestUrl limits cfg := by
  rw [longestUrl]
  refine stays_ite (fun hshort => ?_) fun _ => stays_ret (by omega)
  rw [if_pos hshort]
  refine stays_bind (stays_issue (c := .sys (.getShortUrl url))
    (R := fun short : Option CString => ∀ s ∈ short, s.length ≤ limits.shortUrl)
    trivial fun _ _ h => h) fun short hlength => stays_ret ?_
  cases short with
  | none => exact hurl.trans (Nat.le_max_left ..)
  | some short => exact (hlength short rfl).trans (Nat.le_max_right ..)

theorem length_of_insertFileInfo {md5 fileid url filename : CString} :
    textLength (.insertFileInfo (newFileInfo md5 fileid url size filename)) =
      91 + md5.length + fileid.length + url.length + digits size +
        (getFileSuffix filename).length := by
  simp [textLength, Update.templateLengths, Update.formats, Format.printed, newFileInfo,
    digits_one]
  omega

theorem stays_storeFileinfo (h : UploadFits limits cfg parts size) {fileid url : CString}
    (hfileid : fileid.length ≤ limits.fileid) (hurl : url.length ≤ longestUrl limits cfg)
    (ptr : Ptr) : Stays false limits (storeFileinfo ptr (uploadField parts "user")
      (uploadField parts "file_name") (uploadField parts "file_md5") size fileid url)
      fun _ => True := by
  have hfileInfo := h.fileInfo
  have huserFile := h.userFile
  refine stays_bind (stays_executeCreate (inBounds_update ?_)) fun stored _ => ?_
  · rw [length_of_insertFileInfo]
    omega
  refine stays_ite (fun _ => ?_) fun _ => stays_ret trivial
  refine stays_bind stays_currentTime fun time htime => ?_
  refine stays_bind (stays_executeCreate (inBounds_update ?_)) fun _ _ => stays_ret trivial
  rw [length_of_insertUserFile htime]
  omega

section Longest

variable {fileid url : CString}

theorem trimSpace_zeros (n : Nat) : trimSpace (CString.cStr (List.replicate n 48)) = zeros n := by
  have hbytes : (CString.cStr (List.replicate n 48)).bytes = List.replicate n 48 :=
    CString.bytes_cStr (zeros n).nulFree
  have hdrop : (List.replicate n (48 : UInt8)).dropWhile Decimal.isSpace = List.replicate n 48 := by
    cases n with
    | zero => rfl
    | succ n => rw [List.replicate_succ, List.dropWhile_cons_of_neg (by decide)]
  rw [trimSpace, hbytes, hdrop, List.reverse_replicate, hdrop, List.reverse_replicate]
  exact CString.cStr_bytes (zeros n)

theorem longest_uploadFileToFastDfs {Q : Int × CString → Bool → Prop} {path : CString}
    (h : wp (buffers false limits) (uploadFileToFastDfs cfg path) Q false) :
    Q (0, zeros limits.fileid) false := by
  have htrim := trimSpace_zeros limits.fileid
  have houtput : Usual limits false (.sys (.readPipe 512)) (List.replicate limits.fileid 48) := by
    refine ⟨?_, fun _ => ?_⟩
    · rw [List.length_replicate]
      exact limits.fileid_le
    · rw [htrim, length_zeros]
  have hfork := (h.2 (0 : Int) _ ⟨trivial, rfl⟩).2 .parent _ ⟨trivial, rfl⟩
  have hread : Q (if trimSpace (CString.cStr (List.replicate limits.fileid 48)) = CString.empty then
      (-1, trimSpace (CString.cStr (List.replicate limits.fileid 48)))
    else (0, trimSpace (CString.cStr (List.replicate limits.fileid 48)))) false :=
    hfork.2 (List.replicate limits.fileid 48) _ ⟨houtput, rfl⟩
  have hne : zeros limits.fileid ≠ CString.empty := by
    intro heq
    have hlength := congrArg CString.length heq
    rw [length_zeros] at hlength
    exact absurd hlength (Nat.ne_of_gt limits.fileid_pos)
  rwa [htrim, if_neg hne] at hread

theorem longest_getFullurlByFileid {Q : Int × CString → Bool → Prop}
    (h : wp (buffers false limits) (getFullurlByFileid cfg fileid) Q true) :
    Q (0, CString.lit "http://" ++ cfg.storageWebServerIp ++ CString.lit ":"
      ++ cfg.storageWebServerPort ++ CString.lit "/" ++ fileid) true := by
  have hfork := (h.2 (0 : Int) _ ⟨trivial, rfl⟩).2 .parent _ ⟨trivial, rfl⟩
  have hread : wp (buffers false limits)
      (orThrow (strstr (CString.lit "source ip address: ").bytes
        (CString.cStr (CString.lit "source ip address: \n").bytes).bytes) >>= fun found =>
      orThrow (strstr [10] (found.drop (CString.lit "source ip address: ").bytes.length)) >>=
        fun _ => .ret (0, CString.lit "http://" ++ cfg.storageWebServerIp ++ CString.lit ":"
          ++ cfg.storageWebServerPort ++ CString.lit "/" ++ fileid)) Q true :=
    hfork.2 (CString.lit "source ip address: \n").bytes _ ⟨⟨by decide, nofun⟩, rfl⟩
  have haddress : strstr (CString.lit "source ip address: ").bytes
      (CString.cStr (CString.lit "source ip address: \n").bytes).bytes =
      some (CString.lit "source ip address: \n").bytes := by decide
  have hend : strstr [10] ((CString.lit "source ip address: \n").bytes.drop
      (CString.lit "source ip address: ").bytes.length) = some [10] := by decide
  rw [haddress, orThrow_some, Prog.ret_bind, hend, orThrow_some, Prog.ret_bind] at hread
  exact hread

theorem longest_shortUrlOf {Q : CString → Bool → Prop} (hurl : url.length =
      9 + cfg.storageWebServerIp.length + cfg.storageWebServerPort.length + limits.fileid)
    (h : wp (buffers false limits) (shortUrlOf cfg url) Q true) :
    ∃ stored, stored.length = longestUrl limits cfg ∧ Q stored true := by
  rw [shortUrlOf] at h
  rw [longestUrl, ← hurl]
  split at h
  · rename_i hshort
    rw [if_pos hshort]
    obtain hle | hle := Nat.le_total limits.shortUrl url.length
    · exact ⟨url, (Nat.max_eq_left hle).symm, h.2 none _ ⟨nofun, rfl⟩⟩
    · refine ⟨zeros limits.shortUrl, ?_, h.2 (some (zeros limits.shortUrl)) _ ⟨?_, rfl⟩⟩
      · rw [length_zeros, Nat.max_eq_right hle]
      · intro short hmem
        obtain rfl := Option.some.inj hmem
        exact (length_zeros _).le
  · rename_i hshort
    rw [if_neg hshort]
    exact ⟨url, (Nat.max_zero _).symm, h⟩

end Longest

/-- The file is not unlinked before its id is read. -/
theorem staysFrom_uploadMsg (h : UploadFits limits cfg parts size) (ptr : Ptr) :
    StaysFrom false limits false (uploadMsg cfg ptr parts size) := by
  rw [StaysFrom, uploadMsg, wp_bind]
  refine ⟨trivial, fun renamed _ hrename => ?_⟩
  obtain ⟨-, rfl⟩ := hrename
  show wp _ (if renamed < 0 then _ else _) _ _
  split
  · trivial
  rw [wp_bind]
  refine wp_mono (wp_uploadFileToFastDfs cfg _) fun result after hfileid => ?_
  obtain ⟨uploaded, fileid⟩ := result
  -- from here on no output is a file id
  refine stays_bind (stays_issue (c := .sys (.unlink _)) trivial fun _ _ _ => trivial)
    (fun _ (_ : True) => ?_) after
  refine stays_ite (fun _ => stays_ret trivial) fun _ => ?_
  refine stays_bind (stays_getFullurlByFileid hfileid) fun (ret, url) hurl => ?_
  refine stays_ite (fun _ => stays_ret trivial) fun _ => ?_
  refine stays_bind (stays_shortUrlOf hurl) fun url hshort => ?_
  exact stays_bind (stays_storeFileinfo h hfileid hshort ptr) fun _ _ => stays_ret trivial

/-- The file id and the URL are as long as they can be. -/
theorem uploadMsg_iff : StaysFrom false limits false (uploadMsg cfg .conn parts size) ↔
    UploadFits limits cfg parts size := by
  constructor
  · intro h
    rw [StaysFrom, uploadMsg, wp_bind] at h
    -- every call succeeds, and each tool prints as much as it can
    have hrenamed := h.2 (0 : Int) _ ⟨trivial, rfl⟩
    change wp (buffers false limits) (uploadFileToFastDfs cfg _ >>= _) _ _ at hrenamed
    rw [wp_bind] at hrenamed
    have huploaded := longest_uploadFileToFastDfs hrenamed
    have hunlinked := huploaded.2 (0 : Int) _ ⟨trivial, rfl⟩
    change wp (buffers false limits) (getFullurlByFileid cfg _ >>= _) _ _ at hunlinked
    rw [wp_bind] at hunlinked
    have hurl := longest_getFullurlByFileid hunlinked
    change wp (buffers false limits) (shortUrlOf cfg _ >>= _) _ _ at hurl
    rw [wp_bind] at hurl
    have hhttp : (CString.lit "http://").length = 7 := by decide
    have hcolon : (CString.lit ":").length = 1 := by decide
    have hslash : (CString.lit "/").length = 1 := by decide
    obtain ⟨url, hlength, hstored⟩ := longest_shortUrlOf (by
      simp only [CString.length_append, hhttp, hcolon, hslash, length_zeros]
      omega) hurl
    have hfileInfo := (formats_fit_iff _).mp hstored.1
    rw [length_of_insertFileInfo, length_zeros, hlength] at hfileInfo
    -- the first row was inserted
    have htime := (hstored.2 (some 1) _ ⟨trivial, rfl⟩).2 (zeros 19) _ ⟨length_zeros 19, rfl⟩
    have huserFile := htime.1.resolve_left (by decide)
    rw [formats_fit_iff, length_of_insertUserFile (length_zeros 19)] at huserFile
    exact ⟨by omega, by omega⟩
  · exact fun h => staysFrom_uploadMsg h .conn

end Upload

/-! ## The request -/

/-- The parts and the size of an upload that gets to its file. -/
def uploadOf (postData split : List UInt8) : Option (List Part × Int) := do
  let parts ← decodeMsg postData split
  guard (parts.length = fieldCnt)
  let size ← (uploadField parts "file_size").stol
  return (parts, size)

section Request

variable {cfg : UploadConfig} {postData split : List UInt8}

theorem uploadOf_eq_some_iff {parts : List Part} {size : Int} :
    uploadOf postData split = some (parts, size) ↔ decodeMsg postData split = some parts ∧
      parts.length = fieldCnt ∧ (uploadField parts "file_size").stol = some size := by
  constructor
  · intro h
    obtain ⟨parts', hparts, h⟩ := Option.bind_eq_some_iff.mp h
    obtain ⟨_, hcount, h⟩ := Option.bind_eq_some_iff.mp h
    obtain ⟨size', hsize, h⟩ := Option.bind_eq_some_iff.mp h
    obtain ⟨rfl, rfl⟩ := Prod.mk.inj (Option.some.inj h)
    exact ⟨hparts, (Option.guard_eq_some' _).mp hcount, hsize⟩
  · rintro ⟨hparts, hcount, hsize⟩
    simp [uploadOf, hparts, hcount, hsize]

theorem apiUpload_of_some {parts : List Part} {size : Int}
    (h : uploadOf postData split = some (parts, size)) :
    apiUpload cfg postData split = withDBConn .tuchuangMaster fun ptr =>
      uploadMsg cfg ptr parts size >>= fun code => .ret (0, some (.fast (encodeCode code))) := by
  obtain ⟨hparts, hcount, hsize⟩ := uploadOf_eq_some_iff.mp h
  unfold apiUpload
  congr 1
  funext ptr
  rw [hparts, orThrow_some, Prog.ret_bind, if_neg (not_not.mpr hcount)]
  simp only [hsize]
  rfl

/-- An upload that is refused prints nothing. -/
theorem stays_apiUpload_of_none (h : uploadOf postData split = none) :
    Stays false limits (apiUpload cfg postData split) fun _ => True := by
  refine stays_withDBConn fun ptr => ?_
  cases hparts : decodeMsg postData split with
  | none => exact fun _ => trivial
  | some parts =>
      refine stays_ite (fun _ => stays_ret trivial) fun hcount => ?_
      cases hsize : (uploadField parts "file_size").stol with
      | none => exact stays_ret trivial
      | some size =>
          have hsome := uploadOf_eq_some_iff.mpr ⟨hparts, not_not.mp hcount, hsize⟩
          exact nomatch h.symm.trans hsome

theorem staysFrom_apiUpload_iff :
    StaysFrom false limits false (apiUpload cfg postData split) ↔
      ∀ parts size, uploadOf postData split = some (parts, size) →
        UploadFits limits cfg parts size := by
  cases hupload : uploadOf postData split with
  | none => exact iff_of_true (stays_apiUpload_of_none hupload false) nofun
  | some upload =>
      obtain ⟨parts, size⟩ := upload
      rw [apiUpload_of_some hupload]
      constructor
      · intro h parts' size' heq
        obtain ⟨rfl, rfl⟩ := Prod.mk.inj (Option.some.inj heq)
        have hconn := h.2 .conn _ ⟨trivial, rfl⟩
        change wp (buffers false limits) ((uploadMsg cfg .conn parts size >>= _) >>= _) _ _ at hconn
        rw [wp_bind, wp_bind] at hconn
        exact uploadMsg_iff.mp (wp_mono hconn fun _ _ _ => trivial)
      · intro h
        refine ⟨trivial, fun ptr after hconn => ?_⟩
        obtain ⟨-, rfl⟩ := hconn
        show wp (buffers false limits) ((uploadMsg cfg ptr parts size >>= _) >>= _) _ _
        rw [wp_bind, wp_bind]
        refine wp_mono (staysFrom_uploadMsg (h parts size rfl) ptr) fun code after _ => ?_
        cases ptr with
        | null => trivial
        | conn => exact ⟨trivial, fun _ _ _ => trivial⟩

end Request

end Api
end TcMuzi
