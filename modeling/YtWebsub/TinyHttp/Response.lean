import YtWebsub.TinyHttp.Framing

open rust rust.utf8 rust.text rust.num

namespace tiny_http.response

variable {F : Type}

def reason_phrases : List (Nat × Text) :=
  [(100, "Continue".toList), (101, "Switching Protocols".toList), (102, "Processing".toList),
    (103, "Early Hints".toList), (200, "OK".toList), (201, "Created".toList), (202, "Accepted".toList),
    (203, "Non-Authoritative Information".toList), (204, "No Content".toList), (205, "Reset Content".toList),
    (206, "Partial Content".toList), (207, "Multi-Status".toList), (208, "Already Reported".toList),
    (226, "IM Used".toList), (300, "Multiple Choices".toList), (301, "Moved Permanently".toList),
    (302, "Found".toList), (303, "See Other".toList), (304, "Not Modified".toList), (305, "Use Proxy".toList),
    (307, "Temporary Redirect".toList), (308, "Permanent Redirect".toList), (400, "Bad Request".toList),
    (401, "Unauthorized".toList), (402, "Payment Required".toList), (403, "Forbidden".toList),
    (404, "Not Found".toList), (405, "Method Not Allowed".toList), (406, "Not Acceptable".toList),
    (407, "Proxy Authentication Required".toList), (408, "Request Timeout".toList), (409, "Conflict".toList),
    (410, "Gone".toList), (411, "Length Required".toList), (412, "Precondition Failed".toList),
    (413, "Payload Too Large".toList), (414, "URI Too Long".toList), (415, "Unsupported Media Type".toList),
    (416, "Range Not Satisfiable".toList), (417, "Expectation Failed".toList), (421, "Misdirected Request".toList),
    (422, "Unprocessable Entity".toList), (423, "Locked".toList), (424, "Failed Dependency".toList),
    (426, "Upgrade Required".toList), (428, "Precondition Required".toList), (429, "Too Many Requests".toList),
    (431, "Request Header Fields Too Large".toList), (451, "Unavailable For Legal Reasons".toList),
    (500, "Internal Server Error".toList), (501, "Not Implemented".toList), (502, "Bad Gateway".toList),
    (503, "Service Unavailable".toList), (504, "Gateway Timeout".toList), (505, "HTTP Version Not Supported".toList),
    (506, "Variant Also Negotiates".toList), (507, "Insufficient Storage".toList), (508, "Loop Detected".toList),
    (510, "Not Extended".toList), (511, "Network Authentication Required".toList)]

def default_reason_phrase (status_code : Nat) : Text :=
  (reason_phrases.lookup status_code).getD "Unknown".toList

inductive TransferEncoding where
  | identity
  | chunked
deriving DecidableEq

def TransferEncoding.from_str (input : Text) : Option TransferEncoding :=
  if eq_ignore_ascii_case input "identity".toList then some .identity
  else if eq_ignore_ascii_case input "chunked".toList then some .chunked
  else none

/-- `f32`, as far as a header's qualities are read and compared, and the sort of what a
header lists. -/
structure Quality (F : Type) where
  one : F
  from_str : Text → Option F
  /-- At most zero. -/
  ignored : F → Bool
  partial_cmp : F → F → Option Ordering
  /-- `slice::sort_by`; `none` where it panics. -/
  sort_by : (Text × F → Text × F → Ordering) → List (Text × F) → Option (List (Text × F))

/-- The comparison puts the elements in a total order, in which several may be equal. -/
structure Orders {A : Type} (cmp : A → A → Ordering) (xs : List A) : Prop where
  swap : ∀ a ∈ xs, ∀ b ∈ xs, cmp b a = (cmp a b).swap
  trans : ∀ a ∈ xs, ∀ b ∈ xs, ∀ c ∈ xs, cmp a b ≠ .gt → cmp b c ≠ .gt → cmp a c ≠ .gt

/-- The sort is stable. It may panic where the comparison is not a total order, and nowhere else. -/
def Quality.Sorts (q : Quality F) : Prop :=
  ∀ cmp xs, Orders cmp xs → q.sort_by cmp xs = some (xs.mergeSort fun a b => cmp a b ≠ .gt)

/-- The first quality among the parameters that can be read. -/
def quality_of (q : Quality F) : List Text → F
  | [] => q.one
  | p :: params =>
    match (strip_start "q=".toList (trimStart p)).bind fun value => q.from_str (trim value) with
    | some value => value
    | none => quality_of q params

def parse_header_value (q : Quality F) (input : Text) : List (Text × F) :=
  (input.splitOn ',').filterMap fun elem =>
    match elem.splitOn ';' with
    | t :: params => some (trim t, quality_of q params)
    | [] => none

/-- Qualities that do not compare, as NaN does with none, count as equal. -/
def by_quality (q : Quality F) (a b : Text × F) : Ordering :=
  (q.partial_cmp b.2 a.2).getD .eq

/-- What the request's `TE` header asks for first, unless the process aborts. -/
def user_request (q : Quality F) (request_headers : List Header) : Option (Option TransferEncoding) :=
  match find_header request_headers "TE".toList with
  | none => some none
  | some value =>
    (q.sort_by (by_quality q) (parse_header_value q value)).map fun parse =>
      parse.findSome? fun value => if q.ignored value.2 then none else TransferEncoding.from_str value.1

def choose_transfer_encoding (q : Quality F) (status_code : Nat) (request_headers : List Header)
    (http_version : HTTPVersion) (entity_length : Option Nat) (has_additional_headers : Bool)
    (chunked_threshold : Nat) : Option TransferEncoding :=
  if http_version.gt ⟨1, 0⟩ = false then some .identity
  else if status_code < 200 ∨ status_code = 204 then some .identity
  else
    (user_request q request_headers).map fun user_request =>
      match user_request with
      | some encoding => encoding
      | none =>
        if has_additional_headers then .chunked
        else if entity_length.all (chunked_threshold ≤ ·) then .chunked
        else .identity

/-- A response that a handler has built. -/
structure Response where
  status_code : Nat
  headers : List Header
  data : Bytes
  data_length : Option Nat
  chunked_threshold : Option Nat

def Response.add_header (r : Response) (header : Header) : Response :=
  if header.equiv "Connection".toList || header.equiv "Trailer".toList || header.equiv "Transfer-Encoding".toList ||
      header.equiv "Upgrade".toList then r
  else if header.equiv "Content-Length".toList then
    match parse 64 header.value with
    | some val => { r with data_length := some val.val }
    | none => r
  else if header.equiv "Content-Type".toList && r.headers.any (·.equiv "Content-Type".toList) then
    let i := r.headers.findIdx (·.equiv "Content-Type".toList)
    { r with headers := r.headers.modify i fun h => { h with value := header.value } }
  else { r with headers := r.headers ++ [header] }

def Response.new (status_code : Nat) (headers : List Header) (data : Bytes) (data_length : Option Nat) : Response :=
  headers.foldl Response.add_header
    { status_code := status_code, headers := [], data := data, data_length := data_length, chunked_threshold := none }

def Response.from_string (data : Text) : Response :=
  .new 200 [⟨"Content-Type".toList, "text/plain; charset=UTF-8".toList⟩] (encode data) (some (encode data).length)

def Response.empty (status_code : Nat) : Response :=
  .new status_code [] [] (some 0)

def Response.with_status_code (r : Response) (status_code : Nat) : Response :=
  { r with status_code := status_code }

/-- What a response is printed for: the version, headers and method of its request, and the
time. -/
structure Asked where
  http_version : HTTPVersion
  request_headers : List Header
  is_head : Bool
  date : Text

/-- Statuses whose responses have no body. -/
def bodiless (status_code : Nat) : Bool :=
  (100 ≤ status_code && status_code ≤ 199) || status_code = 204 || status_code = 304

section print

variable (q : Quality F) (asked : Asked) (r : Response)

def transfer_encoding : Option TransferEncoding :=
  choose_transfer_encoding q r.status_code asked.request_headers asked.http_version r.data_length false
    (r.chunked_threshold.getD 32768)

def or_insert (name value : Text) (headers : List Header) : List Header :=
  if headers.any (·.equiv name) then headers else ⟨name, value⟩ :: headers

/-- The length of the body; it is counted where it is not given. -/
def body_length : Nat :=
  r.data_length.getD r.data.length

variable (encoding : TransferEncoding)

def framing_header : Header :=
  match encoding with
  | .chunked => ⟨"Transfer-Encoding".toList, "chunked".toList⟩
  | .identity => ⟨"Content-Length".toList, to_string (body_length r)⟩

def sent_headers : List Header :=
  or_insert "Server".toList "tiny-http (Rust)".toList (or_insert "Date".toList asked.date r.headers) ++
    [framing_header r encoding]

def status_line : Text :=
  asked.http_version.text ++ ' ' :: (to_string r.status_code ++ ' ' :: default_reason_phrase r.status_code)

def write_message_header (headers : List Header) : Bytes :=
  client.render_line (status_line asked r) ++ headers.flatMap (fun header => client.render_line header.line) ++ [13, 10]

/-- `encoder` is the encoder of chunked bodies. -/
def sent_body (encoder : Bytes → Bytes) : Bytes :=
  if asked.is_head || bodiless r.status_code then []
  else
    match encoding with
    | .chunked => encoder r.data
    | .identity => if 1 ≤ body_length r then r.data else []

/-- `raw_print` as `respond` calls it, without an upgrade; `none` where the process aborts. -/
def raw_print (encoder : Bytes → Bytes) : Option Bytes :=
  (transfer_encoding q asked r).map fun encoding =>
    write_message_header asked r (sent_headers asked r encoding) ++ sent_body asked r encoding encoder

end print

section read

/-! The client's side: a response is read as far as its framing says. -/

structure Reply where
  status : Nat
  headers : List Header
  body : Bytes
deriving DecidableEq

def parse_status_line (line : Text) : Option Nat := do
  let (version, rest) ← split_once [' '] line
  let _ ← client.parse_http_version version
  let (code, _) ← split_once [' '] rest
  parseDigits code

variable (decoder : Bytes → Option (Bytes × Bytes))

def read_body (is_head : Bool) (status : Nat) (headers : List Header) (input : Bytes) : Option (Bytes × Bytes) :=
  if is_head || bodiless status then some ([], input)
  else if (find_header headers "Transfer-Encoding".toList).isSome then decoder input
  else do
    let length ← (find_header headers "Content-Length".toList).bind parseDigits
    if length ≤ input.length then some (input.take length, input.drop length) else none

def read_reply (is_head : Bool) (input : Bytes) : Option (Reply × Bytes) := do
  let (line, input) ← (client.read_next_line .eof input).toOption
  let status ← parse_status_line line
  let (headers, input) ← (client.read_headers .eof ⟨1, 1⟩ client.MAX_HEADERS [] input).toOption
  let (body, rest) ← read_body decoder is_head status headers input
  return (⟨status, headers, body⟩, rest)

/-- The responses to pipelined requests, of which it is known which were `HEAD`. -/
def read_replies : List Bool → Bytes → Option (List Reply × Bytes)
  | [], input => some ([], input)
  | is_head :: later, input => do
    let (reply, input) ← read_reply decoder is_head input
    let (replies, rest) ← read_replies later input
    return (reply :: replies, rest)

end read

/-- The response frames its own body, by nothing that a handler adds. -/
structure Response.WellFormed (r : Response) : Prop where
  status : r.status_code < 2 ^ 16
  headers : ∀ h ∈ r.headers, h.WellFormed
  unframed : ∀ h ∈ r.headers, h.equiv "Transfer-Encoding".toList = false ∧ h.equiv "Content-Length".toList = false
  few : r.headers.length + 3 ≤ client.MAX_HEADERS
  length : body_length r = r.data.length
  sized : r.data.length < 2 ^ 64

structure Asked.WellFormed (asked : Asked) : Prop where
  version : asked.http_version ∈ client.versions
  date : Header.WellFormed ⟨"Date".toList, asked.date⟩

variable {q : Quality F} {asked : Asked} {r : Response} {encoding : TransferEncoding}

theorem reason_phrase_plain (status_code : Nat) :
    (∀ c ∈ default_reason_phrase status_code, c.toNat < 0x80 ∧ c ≠ '\r') ∧
      (default_reason_phrase status_code).length ≤ 31 := by
  have hall : ∀ phrase ∈ "Unknown".toList :: reason_phrases.map Prod.snd,
      (∀ c ∈ phrase, c.toNat < 0x80 ∧ c ≠ '\r') ∧ phrase.length ≤ 31 := by
    have hcheck : (("Unknown".toList :: reason_phrases.map Prod.snd).all fun phrase =>
        phrase.all (fun c => c.toNat < 0x80 ∧ c ≠ '\r') && decide (phrase.length ≤ 31)) = true := by
      decide +kernel
    intro phrase hphrase
    have hone := List.all_eq_true.mp hcheck phrase hphrase
    rw [Bool.and_eq_true, List.all_eq_true] at hone
    exact ⟨fun c hc => of_decide_eq_true (hone.1 c hc), of_decide_eq_true hone.2⟩
  apply hall
  rw [default_reason_phrase]
  cases hphrase : reason_phrases.lookup status_code with
  | none => exact List.mem_cons_self
  | some phrase =>
    apply List.mem_cons_of_mem
    obtain ⟨front, back, hsplit, _⟩ := List.lookup_eq_some_iff.mp hphrase
    exact List.mem_map.mpr ⟨(status_code, phrase), by rw [hsplit]; simp, rfl⟩

theorem status_line_plain (hasked : asked.WellFormed) :
    ∀ c ∈ status_line asked r, c.toNat < 0x80 ∧ c ≠ '\r' := by
  intro c hc
  simp only [status_line, List.mem_append, List.mem_cons] at hc
  obtain hc | rfl | hc | rfl | hc := hc
  · obtain ⟨hlow, hcr, _⟩ := (client.version_spec hasked.version).2.1 c hc
    exact ⟨hlow, hcr⟩
  · decide
  · have hdigit := isDigit_of_mem_to_string hc
    refine ⟨(Char.isDigit_iff_toNat.mp hdigit).2.trans_lt (by decide), ?_⟩
    rintro rfl
    exact absurd hdigit (by decide)
  · decide
  · exact (reason_phrase_plain r.status_code).1 c hc

theorem status_line_short (hasked : asked.WellFormed) (hwf : r.WellFormed) :
    (status_line asked r).length < client.MAX_LINE_BYTES := by
  have hversion : asked.http_version.text.length = 8 := by
    have h := hasked.version
    simp only [client.versions, List.mem_cons, List.not_mem_nil, or_false] at h
    obtain h | h | h | h | h := h <;> rw [h] <;> decide
  have hdigits := length_to_string_le (hwf.status.trans (by decide : 2 ^ 16 < 2 ^ 64))
  have hreason := (reason_phrase_plain r.status_code).2
  rw [status_line, List.length_append, List.length_cons, List.length_append, List.length_cons, hversion,
    client.MAX_LINE_BYTES]
  omega

theorem parse_status_line_sent (hasked : asked.WellFormed) :
    parse_status_line (status_line asked r) = some r.status_code := by
  obtain ⟨hparse, hplain, _⟩ := client.version_spec hasked.version
  have hversion : ' ' ∉ asked.http_version.text := fun hmem => (hplain _ hmem).2.2 rfl
  have hcode : ' ' ∉ to_string r.status_code := not_mem_to_string (by decide)
  have hsplit : ∀ {front : Text} (rest : Text), ' ' ∉ front →
      split_once [' '] (front ++ ' ' :: rest) = some (front, rest) := by
    intro front rest hfront
    rw [split_once, find_singleton hfront]
    simp
  rw [parse_status_line, status_line, hsplit _ hversion]
  simp only [bind, Option.bind_some, hparse, hsplit _ hcode, parseDigits_to_string]

theorem mem_or_insert {name value : Text} {headers : List Header} {h : Header}
    (hmem : h ∈ or_insert name value headers) :
    h = ⟨name, value⟩ ∨ h ∈ headers := by
  rw [or_insert] at hmem
  split at hmem
  · exact .inr hmem
  · exact List.mem_cons.mp hmem

theorem length_or_insert (name value : Text) (headers : List Header) :
    (or_insert name value headers).length ≤ headers.length + 1 := by
  rw [or_insert]
  split
  · exact Nat.le_succ _
  · exact le_rfl

/-- Apart from the last header, a sent header is the server's own or the handler's. -/
theorem mem_sent_headers {h : Header} (hmem : h ∈ sent_headers asked r encoding) :
    h = ⟨"Server".toList, "tiny-http (Rust)".toList⟩ ∨ h = ⟨"Date".toList, asked.date⟩ ∨ h ∈ r.headers ∨
      h = framing_header r encoding := by
  rw [sent_headers, List.mem_append, List.mem_singleton] at hmem
  obtain hmem | rfl := hmem
  · obtain rfl | hmem := mem_or_insert hmem
    · exact .inl rfl
    · obtain rfl | hmem := mem_or_insert hmem
      · exact .inr (.inl rfl)
      · exact .inr (.inr (.inl hmem))
  · exact .inr (.inr (.inr rfl))

theorem server_wellFormed : Header.WellFormed ⟨"Server".toList, "tiny-http (Rust)".toList⟩ where
  field := by simp [isWhitespace]
  value := by simp
  trimmed := by rfl
  short := by simp [Header.line, client.MAX_LINE_BYTES]

theorem chunked_wellFormed : Header.WellFormed ⟨"Transfer-Encoding".toList, "chunked".toList⟩ where
  field := by simp [isWhitespace]
  value := by simp
  trimmed := by rfl
  short := by simp [Header.line, client.MAX_LINE_BYTES]

theorem framing_header_wellFormed (hwf : r.WellFormed) : (framing_header r encoding).WellFormed := by
  cases encoding with
  | chunked => exact chunked_wellFormed
  | identity => exact client.content_length_wellFormed (hwf.length ▸ hwf.sized)

theorem sent_headers_wellFormed (hasked : asked.WellFormed) (hwf : r.WellFormed) :
    ∀ h ∈ sent_headers asked r encoding, h.WellFormed := by
  intro h hmem
  obtain rfl | rfl | hmem | rfl := mem_sent_headers hmem
  · exact server_wellFormed
  · exact hasked.date
  · exact hwf.headers h hmem
  · exact framing_header_wellFormed hwf

theorem length_sent_headers (hwf : r.WellFormed) : (sent_headers asked r encoding).length ≤ client.MAX_HEADERS := by
  have hserver := length_or_insert "Server".toList "tiny-http (Rust)".toList
    (or_insert "Date".toList asked.date r.headers)
  have hdate := length_or_insert "Date".toList asked.date r.headers
  have hfew := hwf.few
  rw [sent_headers, List.length_append, List.length_singleton]
  omega

theorem find_header_concat {headers : List Header} {h : Header} {name : Text}
    (hother : ∀ other ∈ headers, other.equiv name = false) :
    find_header (headers ++ [h]) name = if h.equiv name then some h.value else none := by
  have hnone : headers.find? (fun other => other.equiv name) = none :=
    List.find?_eq_none.mpr fun other hmem => by rw [hother other hmem]; exact Bool.false_ne_true
  rw [find_header, List.find?_append, hnone, Option.none_or, List.find?_singleton]
  split <;> rfl

variable (asked encoding) in
/-- The framing of a response is that of its last header. -/
theorem find_framing_header (hwf : r.WellFormed) {name : Text}
    (hname : name = "Transfer-Encoding".toList ∨ name = "Content-Length".toList) :
    find_header (sent_headers asked r encoding) name =
      if (framing_header r encoding).equiv name then some (framing_header r encoding).value else none := by
  apply find_header_concat
  intro other hmem
  obtain rfl | hmem := mem_or_insert hmem
  · obtain rfl | rfl := hname <;> decide
  obtain rfl | hmem := mem_or_insert hmem
  · obtain rfl | rfl := hname
    · exact (by decide : eq_ignore_ascii_case "Transfer-Encoding".toList "Date".toList = false)
    · exact (by decide : eq_ignore_ascii_case "Content-Length".toList "Date".toList = false)
  · obtain rfl | rfl := hname
    · exact (hwf.unframed other hmem).1
    · exact (hwf.unframed other hmem).2

theorem find_or_insert {name other value : Text} {headers : List Header}
    (hother : Header.equiv ⟨other, value⟩ name = false) :
    find_header (or_insert other value headers) name = find_header headers name := by
  rw [or_insert]
  split
  · rfl
  · rw [find_header, find_header, List.find?_cons_of_neg (by rw [hother]; exact Bool.false_ne_true)]

/-- A header of the handler's is found among those that are sent. -/
theorem find_sent_header {name : Text} (hserver : eq_ignore_ascii_case name "Server".toList = false)
    (hdate : eq_ignore_ascii_case name "Date".toList = false)
    (hencoding : eq_ignore_ascii_case name "Transfer-Encoding".toList = false)
    (hlength : eq_ignore_ascii_case name "Content-Length".toList = false) :
    find_header (sent_headers asked r encoding) name = find_header r.headers name := by
  have hframing : (framing_header r encoding).equiv name = false := by
    cases encoding with
    | chunked => exact hencoding
    | identity => exact hlength
  have hlast : [framing_header r encoding].find? (fun h => h.equiv name) = none :=
    List.find?_eq_none.mpr fun h hmem => by rw [List.mem_singleton.mp hmem, hframing]; exact Bool.false_ne_true
  have hown : find_header (or_insert "Server".toList "tiny-http (Rust)".toList
      (or_insert "Date".toList asked.date r.headers)) name = find_header r.headers name :=
    (find_or_insert hserver).trans (find_or_insert hdate)
  rw [← hown, sent_headers, find_header, find_header, List.find?_append, hlast, Option.or_none]

section round_trip

variable {encoder : Bytes → Bytes} {decoder : Bytes → Option (Bytes × Bytes)}

/-- The body of a response, as a client should see it. -/
def body (asked : Asked) (r : Response) : Bytes :=
  if asked.is_head || bodiless r.status_code then [] else r.data

def reply (asked : Asked) (r : Response) (encoding : TransferEncoding) : Reply where
  status := r.status_code
  headers := sent_headers asked r encoding
  body := body asked r

theorem find_chunked (asked : Asked) (hwf : r.WellFormed) :
    find_header (sent_headers asked r .chunked) "Transfer-Encoding".toList = some "chunked".toList := by
  have hsame : Header.equiv ⟨"Transfer-Encoding".toList, "chunked".toList⟩ "Transfer-Encoding".toList = true := by
    rfl
  exact (find_framing_header asked .chunked hwf (.inl rfl)).trans (if_pos hsame)

theorem find_identity (asked : Asked) (hwf : r.WellFormed) :
    find_header (sent_headers asked r .identity) "Transfer-Encoding".toList = none ∧
      find_header (sent_headers asked r .identity) "Content-Length".toList = some (to_string r.data.length) := by
  have hother : ¬ Header.equiv ⟨"Content-Length".toList, to_string (body_length r)⟩ "Transfer-Encoding".toList = true :=
    (by decide : ¬ eq_ignore_ascii_case "Transfer-Encoding".toList "Content-Length".toList = true)
  have hsame : Header.equiv ⟨"Content-Length".toList, to_string (body_length r)⟩ "Content-Length".toList = true :=
    (by decide : eq_ignore_ascii_case "Content-Length".toList "Content-Length".toList = true)
  have hfound := (find_framing_header asked .identity hwf (.inr rfl)).trans (if_pos hsame)
  refine ⟨(find_framing_header asked .identity hwf (.inl rfl)).trans (if_neg hother), hfound.trans ?_⟩
  rw [← hwf.length]
  rfl

variable (asked encoding) in
theorem read_body_sent (hwf : r.WellFormed) (hdecoder : ∀ data rest, decoder (encoder data ++ rest) = some (data, rest))
    (rest : Bytes) :
    read_body decoder asked.is_head r.status_code (sent_headers asked r encoding)
      (sent_body asked r encoding encoder ++ rest) = some (body asked r, rest) := by
  rw [read_body, sent_body.eq_def, body]
  by_cases hnone : (asked.is_head || bodiless r.status_code) = true
  · rw [if_pos hnone, if_pos hnone, if_pos hnone]
    rfl
  rw [if_neg hnone, if_neg hnone, if_neg hnone]
  cases encoding with
  | chunked =>
    rw [find_chunked asked hwf, if_pos Option.isSome_some]
    exact hdecoder r.data rest
  | identity =>
    obtain ⟨hplain, hfound⟩ := find_identity asked hwf
    have hdata : (if 1 ≤ body_length r then r.data else []) = r.data := by
      rw [hwf.length]
      split
      · rfl
      · rename_i hempty
        exact (List.length_eq_zero_iff.mp (by omega)).symm
    simp only [hdata]
    rw [hplain, if_neg (by simp), hfound]
    simp only [bind, Option.bind_some, parseDigits_to_string]
    rw [if_pos (by simp), List.take_left, List.drop_left]

/-- A response is read back with its body, whatever encoding the request asks for, and what
follows it is left. -/
theorem read_reply_print (hasked : asked.WellFormed) (hwf : r.WellFormed)
    (hdecoder : ∀ data rest, decoder (encoder data ++ rest) = some (data, rest)) {bytes : Bytes}
    (hprinted : raw_print q asked r encoder = some bytes) (rest : Bytes) :
    ∃ encoding, read_reply decoder asked.is_head (bytes ++ rest) = some (reply asked r encoding, rest) := by
  obtain ⟨encoding, _, rfl⟩ := Option.map_eq_some_iff.mp hprinted
  refine ⟨encoding, ?_⟩
  have hbytes : write_message_header asked r (sent_headers asked r encoding) ++ sent_body asked r encoding encoder ++
      rest = client.render_line (status_line asked r) ++
        ((sent_headers asked r encoding).flatMap (fun header => client.render_line header.line) ++
          13 :: 10 :: (sent_body asked r encoding encoder ++ rest)) := by
    rw [write_message_header]
    simp only [List.append_assoc, List.cons_append, List.nil_append]
  have hline := client.read_next_line_render .eof (status_line_plain hasked) (status_line_short hasked hwf)
    ((sent_headers asked r encoding).flatMap (fun header => client.render_line header.line) ++
      13 :: 10 :: (sent_body asked r encoding encoder ++ rest))
  have hplain : ∀ h ∈ sent_headers asked r encoding, h.WellFormed := sent_headers_wellFormed hasked hwf
  have hheaders := client.read_headers_render .eof ⟨1, 1⟩ [] hplain (length_sent_headers hwf)
    (sent_body asked r encoding encoder ++ rest)
  have hbody := read_body_sent asked encoding hwf hdecoder rest
  rw [hbytes, read_reply, hline]
  simp only [bind, Except.toOption, Option.bind_some, parse_status_line_sent hasked, hheaders, List.nil_append, hbody]
  rfl

/-- A request and the response it is given. -/
structure Exchange where
  asked : Asked
  given : Response

/-- The responses to the requests of a connection, one after the other. -/
def print_all (q : Quality F) (encoder : Bytes → Bytes) : List Exchange → Option Bytes
  | [] => some []
  | x :: exchanges => do
    let bytes ← raw_print q x.asked x.given encoder
    let later ← print_all q encoder exchanges
    return bytes ++ later

/-- The responses to the requests of a connection are told apart. -/
theorem read_replies_print {exchanges : List Exchange}
    (hwf : ∀ x ∈ exchanges, x.asked.WellFormed ∧ x.given.WellFormed)
    (hdecoder : ∀ data rest, decoder (encoder data ++ rest) = some (data, rest)) {bytes : Bytes}
    (hprinted : print_all q encoder exchanges = some bytes) (rest : Bytes) :
    ∃ replies, read_replies decoder (exchanges.map fun x => x.asked.is_head) (bytes ++ rest) = some (replies, rest) ∧
      List.Forall₂ (fun x answer => ∃ encoding, answer = reply x.asked x.given encoding) exchanges replies := by
  induction exchanges generalizing bytes with
  | nil =>
    obtain rfl := Option.some.inj hprinted
    exact ⟨[], rfl, .nil⟩
  | cons x exchanges ih =>
    obtain ⟨⟨hasked, hresponse⟩, hlater⟩ := List.forall_mem_cons.mp hwf
    simp only [print_all, bind, Option.bind_eq_some_iff] at hprinted
    obtain ⟨first, hfirst, later, hall, hbytes⟩ := hprinted
    obtain rfl := Option.some.inj hbytes
    obtain ⟨encoding, hread⟩ := read_reply_print hasked hresponse hdecoder hfirst (later ++ rest)
    obtain ⟨replies, hreplies, htold⟩ := ih hlater hall
    refine ⟨_ :: replies, ?_, .cons ⟨encoding, rfl⟩ htold⟩
    rw [List.map_cons, List.append_assoc, read_replies, hread]
    simp only [bind, Option.bind_some, hreplies]
    rfl

end round_trip

/-- The qualities that the request's `TE` header gives, if it has one, can be put in order. -/
def Comparable (q : Quality F) (request_headers : List Header) : Prop :=
  ∀ value, find_header request_headers "TE".toList = some value → Orders (by_quality q) (parse_header_value q value)

/-- Printing does not abort for a request whose qualities can be put in order. -/
theorem raw_print_isSome (hsorts : q.Sorts) (hcomparable : Comparable q asked.request_headers) (r : Response)
    (encoder : Bytes → Bytes) : (raw_print q asked r encoder).isSome = true := by
  have huser : (user_request q asked.request_headers).isSome = true := by
    rw [user_request]
    cases hvalue : find_header asked.request_headers "TE".toList with
    | none => rfl
    | some value =>
      simp only [hsorts _ _ (hcomparable value hvalue), Option.map_some, Option.isSome_some]
  rw [raw_print, Option.isSome_map, transfer_encoding, choose_transfer_encoding]
  split
  · rfl
  · split
    · rfl
    · rw [Option.isSome_map]
      exact huser

theorem print_all_isSome (hsorts : q.Sorts) (encoder : Bytes → Bytes) {exchanges : List Exchange}
    (hcomparable : ∀ x ∈ exchanges, Comparable q x.asked.request_headers) :
    (print_all q encoder exchanges).isSome = true := by
  induction exchanges with
  | nil => rfl
  | cons x exchanges ih =>
    obtain ⟨hx, hlater⟩ := List.forall_mem_cons.mp hcomparable
    obtain ⟨bytes, hbytes⟩ := Option.isSome_iff_exists.mp (raw_print_isSome hsorts hx x.given encoder)
    obtain ⟨later, hall⟩ := Option.isSome_iff_exists.mp (ih hlater)
    simp only [print_all, bind, hbytes, Option.bind_some, hall]
    rfl

end tiny_http.response
