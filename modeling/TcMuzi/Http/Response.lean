import TcMuzi.Api.Request
import TcMuzi.Base.StyledWriter
import TcMuzi.Server.Sequential

/-!
# The responses of `TCServer`

Every `_Handle…Request` prints the response text of its entry point into a buffer of
`HTTP_RESPONSE_HTML_MAX` bytes and sends what `snprintf` says it has written.  The
`Content-Length` is printed before it is known whether the text fits.
-/

namespace TcMuzi
namespace Http

open Base Server Api Lib

/-! ## Printing and sending -/

def httpResponseHtmlMax : Nat := 8192

/-- The status line and the headers of `HTTP_RESPONSE_HTML`. -/
def responseHeaders (contentLength : Int) : List UInt8 :=
  (CString.lit "HTTP/1.1 200 OK\r\nConnection:close\r\nContent-Length:").bytes ++
    (CString.ofInt contentLength).bytes ++
    (CString.lit "\r\nContent-Type:application/json;charset=utf-8\r\n\r\n").bytes

/-- A `uint32_t` printed with `%d`. -/
def asInt32 (n : Nat) : Int := if n < 2147483648 then n else n - 4294967296

/-- `snprintf`: the length of the whole text, or -1 when an `int` cannot hold it, and the
buffer up to its NUL. -/
def snprintf (size : Nat) (text : List UInt8) : Int × List UInt8 :=
  (if text.length ≤ 2147483647 then text.length else -1, text.take (size - 1))

/-- The bytes of the buffer that a handler passes to `conn->Send`; `none` when their number
is negative. -/
def sendText (text : List UInt8) : Option (List UInt8) :=
  let (written, httpBody) := snprintf httpResponseHtmlMax text
  let written := if written ≥ httpResponseHtmlMax then (httpResponseHtmlMax - 1 : Int) else written
  if written < 0 then none else some (httpBody.take written.toNat)

/-- Both `ulen` and the text go into `HTTP_RESPONSE_HTML`. -/
def sendResponse (respJson : List UInt8) : Option (List UInt8) :=
  let ulen := respJson.length % 4294967296
  sendText (responseHeaders (asInt32 ulen) ++ (CString.cStr respJson).bytes)

/-- The headers with the number of the text's bytes, and the text. -/
def completeResponse (respJson : List UInt8) : List UInt8 :=
  responseHeaders respJson.length ++ respJson

/-- The text that an entry point leaves in `resp_json`. -/
def respJson (response : Response) : List UInt8 :=
  match response.2 with
  | some written => written.text
  | none => []

/-! ## The handlers -/

/-- Call an entry point and send its text. -/
def respond (api : Handler Response) : Handler (Option (List UInt8)) := do
  let response ← api
  return sendResponse (respJson response)

def handleRegisterRequest (reader : JsonReader) (postData : List UInt8) :=
  respond (apiRegisterUser reader postData)

def handleLoginRequest (reader : JsonReader) (postData : List UInt8) :=
  respond (apiUserLogin reader postData)

def handleMyfilesRequest (reader : JsonReader) (url postData : List UInt8) :=
  respond (apiMyfiles reader url postData)

def handleMd5Request (reader : JsonReader) (postData : List UInt8) :=
  respond (apiMd5 reader postData)

def handleUploadRequest (cfg : UploadConfig) (postData split : List UInt8) :=
  respond (apiUpload cfg postData split)

def handleSharePictureRequest (reader : JsonReader) (url postData : List UInt8) :=
  respond (apiSharePicture reader url postData)

def handleDealFileRequest (reader : JsonReader) (url postData : List UInt8) :=
  respond (apiDealfile reader url postData)

def handleShareFilesRequest (reader : JsonReader) (url postData : List UInt8) :=
  respond (apiSharefile reader url postData)

def handleDealShareFileRequest (reader : JsonReader) (url postData : List UInt8) :=
  respond (apiDealsharefile reader url postData)

/-- The handler that a request is dispatched to. -/
def handle : Request → Handler (Option (List UInt8))
  | .register reader postData => handleRegisterRequest reader postData
  | .login reader postData => handleLoginRequest reader postData
  | .myfiles reader url postData => handleMyfilesRequest reader url postData
  | .md5 reader postData => handleMd5Request reader postData
  | .upload cfg postData split => handleUploadRequest cfg postData split
  | .dealfile reader url postData => handleDealFileRequest reader url postData
  | .sharefiles reader url postData => handleShareFilesRequest reader url postData
  | .sharepic reader url postData => handleSharePictureRequest reader url postData
  | .dealsharefile reader url postData => handleDealShareFileRequest reader url postData

theorem handle_eq (request : Request) : handle request = respond request.prog := by
  cases request <;> rfl

/-! ## When a response is complete -/

theorem length_responseHeaders (contentLength : Int) :
    (responseHeaders contentLength).length = 99 + (CString.ofInt contentLength).length := by
  have hfirst : (CString.lit
      "HTTP/1.1 200 OK\r\nConnection:close\r\nContent-Length:").bytes.length = 50 := by decide
  have hlast : (CString.lit
      "\r\nContent-Type:application/json;charset=utf-8\r\n\r\n").bytes.length = 49 := by decide
  rw [responseHeaders, List.length_append, List.length_append, hfirst, hlast, CString.length]
  omega

/-- A text of the handlers has no NUL, so `%s` prints all of it. -/
theorem not_nul_respJson (response : Response) : (0 : UInt8) ∉ respJson response := by
  unfold respJson
  cases response.2 with
  | none => simp
  | some written => exact written.not_nul_text

theorem length_le_of_sendText {text sent : List UInt8} (h : sendText text = some sent) :
    sent.length ≤ 8191 := by
  have hbuffer : (snprintf httpResponseHtmlMax text).2.length ≤ 8191 := List.length_take_le ..
  rw [sendText] at h
  dsimp only at h
  rw [Option.ite_none_left_eq_some] at h
  obtain rfl := Option.some.inj h.2
  exact (List.length_take_le' ..).trans hbuffer

theorem sendText_of_le {text : List UInt8} (h : text.length ≤ 8191) :
    sendText text = some text := by
  have hwritten : (snprintf httpResponseHtmlMax text).1 = text.length := if_pos (by omega)
  have hbuffer : (snprintf httpResponseHtmlMax text).2 = text := List.take_of_length_le h
  have hmax : ¬ (text.length : Int) ≥ httpResponseHtmlMax := by
    rw [httpResponseHtmlMax]
    omega
  rw [sendText]
  dsimp only
  rw [hwritten, hbuffer, if_neg hmax, if_neg (by omega), Int.toNat_natCast, List.take_length]

theorem length_ofInt_natCast (n : Nat) :
    (CString.ofInt n).length = (Nat.toDigits 10 n).length := by
  show ((Nat.toDigits 10 n).map Decimal.byteOf).length = _
  rw [List.length_map]

/-- The buffer holds 8088 bytes of text besides the headers and the NUL. -/
theorem length_completeResponse_le_iff (text : List UInt8) :
    (completeResponse text).length ≤ 8191 ↔ text.length ≤ 8088 := by
  have hlength : (completeResponse text).length =
      99 + (Nat.toDigits 10 text.length).length + text.length := by
    rw [completeResponse, List.length_append, length_responseHeaders, length_ofInt_natCast]
  constructor
  · intro h
    by_contra hlong
    have hdigits : ¬ (Nat.toDigits 10 text.length).length ≤ 3 := by
      rw [Nat.length_toDigits_le_iff (by omega) (by omega)]
      omega
    omega
  · intro h
    have hdigits : (Nat.toDigits 10 text.length).length ≤ 4 := by
      rw [Nat.length_toDigits_le_iff (by omega) (by omega)]
      omega
    omega

theorem sendResponse_of_le {text : List UInt8} (hnul : (0 : UInt8) ∉ text)
    (hle : text.length ≤ 8088) : sendResponse text = some (completeResponse text) := by
  have hulen : asInt32 (text.length % 4294967296) = text.length := by
    rw [Nat.mod_eq_of_lt (by omega), asInt32, if_pos (by omega)]
  rw [sendResponse, hulen, CString.bytes_cStr hnul]
  exact sendText_of_le ((length_completeResponse_le_iff text).mpr hle)

/-- The response is complete exactly when the text fits. -/
theorem sendResponse_eq_iff {text : List UInt8} (hnul : (0 : UInt8) ∉ text) :
    sendResponse text = some (completeResponse text) ↔ text.length ≤ 8088 := by
  constructor
  · intro h
    exact (length_completeResponse_le_iff text).mp (length_le_of_sendText h)
  · exact sendResponse_of_le hnul

/-- Every handler sends a complete response exactly when its text has at most 8088 bytes. -/
theorem handle_complete_iff {σ : Type} {S : Sem Server.Command Command.Reply σ}
    (request : Request) {s s' : σ} {sent : Option (List UInt8)}
    (h : Exec S (handle request) s sent s') :
    ∃ response, Exec S request.prog s response s' ∧
      (sent = some (completeResponse (respJson response)) ↔
        (respJson response).length ≤ 8088) := by
  rw [handle_eq, respond, exec_bind_iff] at h
  obtain ⟨response, m, hprog, hsend⟩ := h
  cases hsend
  exact ⟨response, hprog, sendResponse_eq_iff (not_nul_respJson response)⟩

/-! ## A short and a long response -/

/-- The parameters of a list request. -/
def pageReader : JsonReader := fun _ =>
  some (.obj [(CString.lit "count", .int 50), (CString.lit "start", .int 0)])

def listRequest : Request :=
  .sharefiles pageReader (CString.lit "/api/sharefiles?cmd=normal").bytes []

/-- A shared picture with a long URL. -/
def listed : Mysql.ShareFile × Mysql.FileInfo :=
  let md5 := CString.lit "d41d8cd98f00b204e9800998ecf8427e"
  (⟨CString.lit "v", md5, CString.lit "2024-05-01 12:00:00", CString.lit "holiday.png", 0⟩,
    ⟨md5, CString.lit "group1/M00/a.png", CString.cStr (List.replicate 500 97), 20480,
      CString.lit "png", 1⟩)

/-- It is shared as many times. -/
def listedWorld (count : Nat) : World :=
  { World.empty with
    db := { Mysql.Tables.empty with
      fileInfo := [listed.2]
      shareFileList := List.replicate count listed.1 } }

theorem run_listRequest :
    (run (okReply sampleSys) listRequest.prog (listedWorld 17)).map (·.1) =
      some (0, some (.styled (encodeFileList 17 (List.replicate 17 (shareFileJson listed))))) := by
  rfl

theorem length_shareFileJson (row : Mysql.ShareFile) (file : Mysql.FileInfo) :
    file.url.length ≤ (shareFileJson (row, file)).writeValue.length := by
  rw [shareFileJson]
  refine Nat.le_trans ?_
    (Json.length_le_writeValue_obj (m := (CString.lit "url", .str file.url)) (by simp))
  rw [Json.writeValue]
  exact Json.length_le_valueToQuotedString file.url

/-- A list of files is at least as long as its entries. -/
theorem length_encodeFileList (total : Int) {files : List Json} (hfiles : files ≠ []) :
    (files.map fun file => file.writeValue.length).sum ≤
      (encodeFileList total files).write.length := by
  have hmem : (CString.lit "files", Json.arr files) ∈
      (CString.lit "code", Json.int 0) :: (filesMember files ++
        [(CString.lit "total", .int total), (CString.lit "count", .int files.length)]) := by
    simp [filesMember, hfiles]
  have hmember := Json.length_le_writeValue_obj hmem
  have hitems := Json.sum_length_le_writeValue_arr files
  rw [Json.write, List.length_append]
  exact (hitems.trans hmember).trans (Nat.le_add_right _ _)

/-- Seventeen files do not fit into one response. -/
theorem listRequest_incomplete :
    ¬ ∀ (request : Request) w response w', Exec ok request.prog w response w' →
      sendResponse (respJson response) = some (completeResponse (respJson response)) := by
  intro hclaim
  obtain ⟨⟨response, w⟩, hrun, hresponse⟩ := Option.map_eq_some_iff.mp run_listRequest
  have hexec : Exec ok listRequest.prog (listedWorld 17) response w :=
    exec_of_run (okStep_of_okReply sampleSys) hrun
  have hshort := (sendResponse_eq_iff (not_nul_respJson response)).mp (hclaim _ _ _ _ hexec)
  change response = _ at hresponse
  rw [hresponse] at hshort
  have hcompact := (Json.length_write_le_toStyledString
    (encodeFileList 17 (List.replicate 17 (shareFileJson listed)))).trans hshort
  have hfiles : List.replicate 17 (shareFileJson listed) ≠ [] := List.cons_ne_nil _ _
  have hlong := length_encodeFileList 17 hfiles
  rw [List.map_replicate, List.sum_replicate_nat] at hlong
  have hurl : 500 ≤ (shareFileJson listed).writeValue.length :=
    Nat.le_trans (by decide +kernel) (length_shareFileJson listed.1 listed.2)
  omega

/-- The answer to a request with an unreadable body. -/
theorem handle_complete_iff_sample :
    let request : Request := .dealfile (fun _ => none) [] []
    ∃ sent response w, Exec ok request.prog World.empty response w ∧
      (sent = some (completeResponse (respJson response)) ↔
        (respJson response).length ≤ 8088) := by
  intro request
  have hsome : (run (okReply sampleSys) (handle request) World.empty).isSome := by decide
  have hexec : Exec ok (handle request) World.empty _ _ :=
    exec_run_get (okStep_of_okReply sampleSys) hsome
  obtain ⟨response, hresponse⟩ := handle_complete_iff request hexec
  exact ⟨_, response, _, hresponse⟩

end Http
end TcMuzi
