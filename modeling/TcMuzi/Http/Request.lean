import TcMuzi.Base.TcCommon

/-!
# Requests as byte streams

`HttpRequest` is a well-formed HTTP/1.1 request with a `Content-Length` body: a record whose
fields say so, with its bytes.  `readRequest` reads one from the front of a byte string, and
`readRequest_bytes` says that it finds the URL and the body that were written.
-/

namespace TcMuzi
namespace Http

open Base Lib

/-! ## Reading -/

/-- The lines up to the empty one, and what follows it; `line` is the line read so far. -/
def readHead (line : List UInt8) : List UInt8 → Option (List (List UInt8) × List UInt8)
  | [] => none
  | 13 :: 10 :: rest =>
      if line = [] then some ([], rest)
      else (readHead [] rest).map fun (lines, rest) => (line :: lines, rest)
  | b :: rest => readHead (line ++ [b]) rest

def contentLengthField : List UInt8 := (CString.lit "Content-Length: ").bytes

/-- The number of the only `Content-Length` line. -/
def contentLength (headers : List (List UInt8)) : Option Nat :=
  match headers.filter contentLengthField.isPrefixOf with
  | [line] =>
      (Decimal.parse 0 2147483647 (line.drop contentLengthField.length)).map Int.toNat
  | _ => none

/-- The second word of the request line. -/
def urlOf (requestLine : List UInt8) : List UInt8 :=
  ((requestLine.dropWhile (· ≠ 32)).drop 1).takeWhile (· ≠ 32)

/-- What a request consists of for its reader. -/
structure Message where
  url : List UInt8
  headers : List (List UInt8)
  body : List UInt8

/-- The request at the front, and the bytes behind it. -/
def readRequest (bytes : List UInt8) : Option (Message × List UInt8) :=
  match readHead [] bytes with
  | some (requestLine :: headers, rest) =>
      match contentLength headers with
      | some n =>
          if n ≤ rest.length then some (⟨urlOf requestLine, headers, rest.take n⟩, rest.drop n)
          else none
      | none => none
  | _ => none

theorem readHead_crlf (line rest : List UInt8) :
    readHead line (13 :: 10 :: rest) =
      if line = [] then some ([], rest)
      else (readHead [] rest).map fun (lines, rest) => (line :: lines, rest) := by
  rw [readHead]

theorem readHead_cons {line rest : List UInt8} {b : UInt8}
    (h : ∀ tail, b = 13 → rest = 10 :: tail → False) :
    readHead line (b :: rest) = readHead (line ++ [b]) rest := by
  rw [readHead]
  exact h

/-- What has been read stays read when more bytes arrive. -/
theorem readHead_append {line bytes more rest : List UInt8} {lines : List (List UInt8)}
    (h : readHead line bytes = some (lines, rest)) :
    readHead line (bytes ++ more) = some (lines, rest ++ more) := by
  induction line, bytes using readHead.induct generalizing lines with
  | case1 line => cases h
  | case2 bytes =>
      rw [readHead_crlf, if_pos rfl] at h
      cases h
      rw [List.cons_append, List.cons_append, readHead_crlf, if_pos rfl]
  | case3 line bytes hline ih =>
      rw [readHead_crlf, if_neg hline] at h
      obtain ⟨⟨lines', rest'⟩, hread, heq⟩ := Option.map_eq_some_iff.mp h
      cases heq
      rw [List.cons_append, List.cons_append, readHead_crlf, if_neg hline, ih hread]
      rfl
  | case4 line b bytes hne ih =>
      rw [readHead_cons hne] at h
      cases bytes with
      | nil => cases h
      | cons b' bytes =>
          rw [List.cons_append, readHead_cons]
          · exact ih h
          · rintro tail rfl htail
            rw [List.cons_append] at htail
            exact hne bytes rfl (by rw [(List.cons.inj htail).1])

/-- Every line that was read ended in a line feed. -/
theorem length_le_count_of_readHead {line bytes rest : List UInt8} {lines : List (List UInt8)}
    (h : readHead line bytes = some (lines, rest)) : lines.length + 1 ≤ bytes.count 10 := by
  induction line, bytes using readHead.induct generalizing lines with
  | case1 line => cases h
  | case2 bytes =>
      rw [readHead_crlf, if_pos rfl] at h
      cases h
      simp
  | case3 line bytes hline ih =>
      rw [readHead_crlf, if_neg hline] at h
      obtain ⟨⟨lines', rest'⟩, hread, heq⟩ := Option.map_eq_some_iff.mp h
      cases heq
      have hle := ih hread
      simp
      omega
  | case4 line b bytes hne ih =>
      rw [readHead_cons hne] at h
      exact (ih h).trans (List.count_le_count_cons)

/-- A line without a carriage return is read to its end. -/
theorem readHead_line {line written rest : List UInt8} (h : (13 : UInt8) ∉ written)
    (hne : line ++ written ≠ []) :
    readHead line (written ++ 13 :: 10 :: rest) =
      (readHead [] rest).map fun (lines, rest) => ((line ++ written) :: lines, rest) := by
  induction written generalizing line with
  | nil =>
      rw [List.append_nil] at hne ⊢
      rw [List.nil_append, readHead_crlf, if_neg hne]
  | cons b written ih =>
      have hb : b ≠ 13 := fun heq => h (by simp [heq])
      rw [List.cons_append, readHead_cons fun _ h13 _ => hb h13, ih, List.append_assoc]
      · rfl
      · exact fun hmem => h (List.mem_cons_of_mem b hmem)
      · simp

/-- The lines of a head, each with its line end. -/
def headLines (lines : List (List UInt8)) : List UInt8 := lines.flatMap fun line => line ++ [13, 10]

theorem readHead_headLines {lines : List (List UInt8)}
    (h : ∀ line ∈ lines, (13 : UInt8) ∉ line ∧ line ≠ []) (rest : List UInt8) :
    readHead [] (headLines lines ++ 13 :: 10 :: rest) = some (lines, rest) := by
  induction lines with
  | nil => rw [headLines, List.flatMap_nil, List.nil_append, readHead_crlf, if_pos rfl]
  | cons line lines ih =>
      obtain ⟨hcr, hne⟩ := h line List.mem_cons_self
      have hsplit : headLines (line :: lines) ++ 13 :: 10 :: rest =
          line ++ 13 :: 10 :: (headLines lines ++ 13 :: 10 :: rest) := by
        simp [headLines]
      rw [hsplit, readHead_line hcr (by simpa using hne),
        ih fun line' hline' => h line' (List.mem_cons_of_mem line hline')]
      rfl

theorem readRequest_append {bytes more rest : List UInt8} {message : Message}
    (h : readRequest bytes = some (message, rest)) :
    readRequest (bytes ++ more) = some (message, rest ++ more) := by
  unfold readRequest at h ⊢
  rcases hhead : readHead [] bytes with _ | ⟨_ | ⟨requestLine, headers⟩, tail⟩
  · rw [hhead] at h
    cases h
  · rw [hhead] at h
    cases h
  · rw [hhead] at h
    rw [readHead_append hhead]
    dsimp only at h ⊢
    cases hlength : contentLength headers with
    | none =>
        rw [hlength] at h
        cases h
    | some n =>
        rw [hlength] at h
        dsimp only at h ⊢
        obtain ⟨hle, hsome⟩ := Option.ite_none_right_eq_some.mp h
        cases hsome
        rw [if_pos (by rw [List.length_append]; omega), List.take_append_of_le_length hle,
          List.drop_append_of_le_length hle]

/-- The request line and the empty line end in line feeds. -/
theorem two_le_count_of_readRequest {bytes rest : List UInt8} {message : Message}
    (h : readRequest bytes = some (message, rest)) : 2 ≤ bytes.count 10 := by
  unfold readRequest at h
  rcases hhead : readHead [] bytes with _ | ⟨_ | ⟨requestLine, headers⟩, tail⟩
  · rw [hhead] at h
    cases h
  · rw [hhead] at h
    cases h
  · have hlines := length_le_count_of_readHead hhead
    rw [List.length_cons] at hlines
    omega

/-! ## Writing -/

/-- The methods without a meaning for the connection. -/
def methods : List (List UInt8) :=
  ["DELETE", "GET", "HEAD", "POST", "PUT", "OPTIONS", "TRACE", "PATCH"].map fun name =>
    (CString.lit name).bytes

/-- A letter, a digit or a hyphen. -/
def isToken (b : UInt8) : Bool :=
  (48 ≤ b && b ≤ 57) || (65 ≤ b && b ≤ 90) || (97 ≤ b && b ≤ 122) || b == 45

def toLower (b : UInt8) : UInt8 := if 65 ≤ b && b ≤ 90 then b + 32 else b

/-- The header fields that say where a message ends or what happens to the connection. -/
def framingFields : List (List UInt8) :=
  ["connection", "proxy-connection", "content-length", "transfer-encoding", "upgrade"].map
    fun name => (CString.lit name).bytes

/-- A name that does not concern the framing, a colon and a blank, and printable text. -/
def IsField (line : List UInt8) : Prop :=
  ∃ name value, line = name ++ 58 :: 32 :: value ∧ name ≠ [] ∧ name.all isToken ∧
    name.map toLower ∉ framingFields ∧ ∀ b ∈ value, 32 ≤ b ∧ b ≤ 126

/-- A well-formed request: its `Content-Length` is the number of its body's bytes.  A request
with a `Connection`, an `Upgrade` or a `Transfer-Encoding` is none. -/
structure HttpRequest where
  method : List UInt8
  url : List UInt8
  headers : List (List UInt8)
  body : List UInt8
  method_mem : method ∈ methods
  url_slash : url.head? = some 47
  url_visible : ∀ b ∈ url, 33 ≤ b ∧ b ≤ 126
  isField : ∀ line ∈ headers, ¬ contentLengthField.isPrefixOf line → IsField line
  contentLength_eq : contentLength headers = some body.length

namespace HttpRequest

def requestLine (r : HttpRequest) : List UInt8 :=
  r.method ++ 32 :: r.url ++ (CString.lit " HTTP/1.1").bytes

/-- The request on the wire. -/
def bytes (r : HttpRequest) : List UInt8 :=
  headLines (r.requestLine :: r.headers) ++ 13 :: 10 :: r.body

def message (r : HttpRequest) : Message := ⟨r.url, r.headers, r.body⟩

/-- Several requests on one connection. -/
def stream (rs : List HttpRequest) : List UInt8 := rs.flatMap bytes

theorem not_mem_method {r : HttpRequest} {b : UInt8} (hb : b = 13 ∨ b = 32) : b ∉ r.method := by
  have hall : ∀ method ∈ methods, (13 : UInt8) ∉ method ∧ (32 : UInt8) ∉ method := by decide
  obtain ⟨hcr, hblank⟩ := hall r.method r.method_mem
  rcases hb with rfl | rfl
  · exact hcr
  · exact hblank

theorem not_mem_url {r : HttpRequest} {b : UInt8} (hb : b < 33) : b ∉ r.url := by
  intro hmem
  exact absurd (r.url_visible b hmem).1 (UInt8.not_le.mpr hb)

theorem urlOf_requestLine (r : HttpRequest) : urlOf r.requestLine = r.url := by
  have hmethod : (32 : UInt8) ∉ r.method := not_mem_method (Or.inr rfl)
  have hurl : (32 : UInt8) ∉ r.url := not_mem_url (by decide)
  have hversion : (CString.lit " HTTP/1.1").bytes = 32 :: (CString.lit "HTTP/1.1").bytes := by
    decide
  rw [urlOf, requestLine, List.append_assoc, hversion, List.cons_append,
    Lib.dropWhile_ne_append hmethod, List.drop_one, List.tail_cons,
    Lib.takeWhile_ne_append hurl]

theorem not_mem_requestLine (r : HttpRequest) : (13 : UInt8) ∉ r.requestLine := by
  rw [requestLine, List.mem_append, List.mem_append, List.mem_cons]
  rintro ((hmethod | hblank | hurl) | hversion)
  · exact not_mem_method (Or.inl rfl) hmethod
  · cases hblank
  · exact not_mem_url (by decide) hurl
  · exact absurd hversion (by decide)

theorem not_mem_of_isField {line : List UInt8} (h : IsField line) : (13 : UInt8) ∉ line := by
  obtain ⟨name, value, rfl, _, htoken, _, hvalue⟩ := h
  rw [List.mem_append, List.mem_cons, List.mem_cons]
  rintro (hname | hcolon | hblank | hmem)
  · exact absurd (List.all_eq_true.mp htoken 13 hname) (by decide)
  · cases hcolon
  · cases hblank
  · exact absurd (hvalue 13 hmem).1 (by decide)

/-- The number is written in digits. -/
theorem not_mem_contentLengthLine {headers : List (List UInt8)} {line : List UInt8} {n : Nat}
    (hlength : contentLength headers = some n) (hline : line ∈ headers)
    (hstart : contentLengthField.isPrefixOf line) : (13 : UInt8) ∉ line := by
  have hmem : line ∈ headers.filter contentLengthField.isPrefixOf :=
    List.mem_filter.mpr ⟨hline, hstart⟩
  unfold contentLength at hlength
  split at hlength
  · rename_i only honly
    rw [honly, List.mem_singleton] at hmem
    subst hmem
    obtain ⟨value, hparse, _⟩ := Option.map_eq_some_iff.mp hlength
    obtain ⟨hdigits, hlo, _⟩ := Decimal.parse_eq_some_iff.mp hparse
    obtain ⟨digits, hsplit⟩ := List.isPrefixOf_iff_prefix.mp hstart
    rw [← hsplit, List.drop_left] at hdigits
    rw [← hsplit, List.mem_append]
    rintro (hfield | hdigit)
    · exact absurd hfield (by decide)
    · obtain ⟨k, rfl⟩ := Int.eq_ofNat_of_zero_le hlo
      rw [hdigits] at hdigit
      exact absurd (Decimal.isDigit_of_mem_ofNat hdigit) (by decide)
  · cases hlength

theorem line_ok {r : HttpRequest} {line : List UInt8} (h : line ∈ r.requestLine :: r.headers) :
    (13 : UInt8) ∉ line ∧ line ≠ [] := by
  rcases List.mem_cons.mp h with rfl | hline
  · exact ⟨not_mem_requestLine r, by simp [requestLine]⟩
  · by_cases hstart : contentLengthField.isPrefixOf line
    · refine ⟨not_mem_contentLengthLine r.contentLength_eq hline hstart, ?_⟩
      rintro rfl
      exact absurd hstart (by decide)
    · have hfield := r.isField line hline hstart
      refine ⟨not_mem_of_isField hfield, ?_⟩
      obtain ⟨name, value, rfl, _⟩ := hfield
      simp

theorem readRequest_bytes (r : HttpRequest) : readRequest r.bytes = some (r.message, []) := by
  rw [readRequest, bytes, readHead_headLines fun line => line_ok]
  simp [r.contentLength_eq, urlOf_requestLine, message]

end HttpRequest

end Http
end TcMuzi
